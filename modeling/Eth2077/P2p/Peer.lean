import Eth2077.Prim

/-!
# The peer manager (`p2p/src/peer.rs`)
-/

namespace Eth2077

namespace P2p

/-- The address bytes and the port. -/
abbrev SocketAddr := List UInt8 × UInt16

/-- A reading of the monotonic clock. -/
abbrev Instant := ℕ

inductive PeerState where
  | connecting
  | handshaking
  | connected
  | disconnected
deriving DecidableEq

structure PeerInfo where
  peerId : UInt64
  addr : SocketAddr
  state : PeerState
  bestHeight : UInt64
  bestHash : B256
  connectedAt : Instant
  lastSeen : Instant

def PeerInfo.new (now : Instant) (peerId : UInt64) (addr : SocketAddr) (state : PeerState) : PeerInfo where
  peerId := peerId
  addr := addr
  state := state
  bestHeight := 0
  bestHash := FixedBytes.zero
  connectedAt := now
  lastSeen := now

structure PeerManager where
  peers : HashMap UInt64 PeerInfo
  maxPeers : ℕ

namespace PeerManager

def new (maxPeers : ℕ) : PeerManager := ⟨∅, maxPeers⟩

/-- Returns whether the peer is in the table now. A known id is overwritten even when the table is full. -/
def addPeer (m : PeerManager) (peer : PeerInfo) : Bool × PeerManager :=
  let atCapacity := m.maxPeers ≤ m.peers.keys.length
  if peer.peerId ∈ m.peers then (true, { m with peers := AList.insert peer.peerId peer m.peers })
  else if atCapacity then (false, m)
  else (true, { m with peers := AList.insert peer.peerId peer m.peers })

def removePeer (m : PeerManager) (peerId : UInt64) : PeerManager :=
  { m with peers := m.peers.erase peerId }

def modifyPeer (m : PeerManager) (peerId : UInt64) (f : PeerInfo → PeerInfo) : PeerManager :=
  match m.peers.lookup peerId with
  | some peer => { m with peers := m.peers.replace peerId (f peer) }
  | none => m

def updateBestHeight (m : PeerManager) (now : Instant) (peerId height : UInt64) (hash : B256) : PeerManager :=
  m.modifyPeer peerId fun peer => { peer with bestHeight := height, bestHash := hash, lastSeen := now }

def touchPeer (m : PeerManager) (now : Instant) (peerId : UInt64) : PeerManager :=
  m.modifyPeer peerId fun peer => { peer with lastSeen := now }

variable {m : PeerManager} {p q : UInt64} {peer : PeerInfo}

@[simp] theorem keys_modifyPeer (f : PeerInfo → PeerInfo) : (m.modifyPeer p f).peers.keys = m.peers.keys := by
  unfold modifyPeer
  split <;> simp

@[simp] theorem maxPeers_modifyPeer (f : PeerInfo → PeerInfo) : (m.modifyPeer p f).maxPeers = m.maxPeers := by
  unfold modifyPeer
  split <;> rfl

@[simp] theorem keys_touchPeer (now : Instant) : (m.touchPeer now p).peers.keys = m.peers.keys :=
  keys_modifyPeer _

@[simp] theorem maxPeers_touchPeer (now : Instant) : (m.touchPeer now p).maxPeers = m.maxPeers :=
  maxPeers_modifyPeer _

@[simp] theorem keys_updateBestHeight (now : Instant) (height : UInt64) (hash : B256) :
    (m.updateBestHeight now p height hash).peers.keys = m.peers.keys :=
  keys_modifyPeer _

@[simp] theorem maxPeers_updateBestHeight (now : Instant) (height : UInt64) (hash : B256) :
    (m.updateBestHeight now p height hash).maxPeers = m.maxPeers :=
  maxPeers_modifyPeer _

/-- A refused peer leaves the table alone; an accepted one is its only new key. -/
theorem addPeer_cases (m : PeerManager) (peer : PeerInfo) :
    (m.addPeer peer = (false, m) ∧ peer.peerId ∉ m.peers) ∨
      m.addPeer peer = (true, { m with peers := AList.insert peer.peerId peer m.peers }) ∧
        (peer.peerId ∈ m.peers ∨ m.peers.keys.length < m.maxPeers) := by
  unfold addPeer
  dsimp only
  split_ifs with hmem hfull
  · exact .inr ⟨rfl, .inl hmem⟩
  · exact .inl ⟨rfl, hmem⟩
  · exact .inr ⟨rfl, .inr (by omega)⟩

end PeerManager

end P2p

end Eth2077
