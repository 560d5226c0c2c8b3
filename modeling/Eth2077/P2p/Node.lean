import Eth2077.P2p.Peer
import Eth2077.P2p.Sync
import Eth2077.P2p.Gossip
import Eth2077.Oob.Consensus

/-!
# The dispatch loop (`p2p/src/node.rs`)

One task handles the notices of all connections one after the other. A notice carries the peer id that
the connection announced, and nothing that tells two connections of one peer apart but the sender.
-/

namespace Eth2077

namespace P2p

/-- The sending end of a connection's channel, by the number of the connection. -/
abbrev Sender := ℕ

inductive P2pEvent where
  | blockReceived (fromPeer : UInt64) (block : Block)
  | transactionReceived (fromPeer : UInt64) (tx : Transaction)
  | consensusMessageReceived (fromPeer : UInt64) (msg : ConsensusMessage)
  | peerConnected (peerId : UInt64)
  | peerDisconnected (peerId : UInt64)
  | syncComplete (height : UInt64)
deriving DecidableEq

/-- The event says that a peer came or went. -/
def P2pEvent.isPeerNotice : P2pEvent → Bool
  | .peerConnected _ | .peerDisconnected _ => true
  | _ => false

inductive NodeInbound where
  | peerConnected (peerId : UInt64) (addr : SocketAddr) (bestHeight : UInt64) (bestHash : B256) (sender : Sender)
  | peerDisconnected (peerId : UInt64)
  | message (fromPeer : UInt64) (message : WireMessage)

structure P2pNode where
  peerManager : PeerManager
  gossipEngine : GossipEngine
  syncEngine : SyncEngine
  peerSenders : HashMap UInt64 Sender
  consensusCache : RelayCache

/-- What the handling of one notice depends on besides the node. -/
structure DispatchEnv where
  now : Instant
  keccak256 : List UInt8 → B256
  sha256 : List UInt8 → B256
  json : PayloadJson ConsensusMessage
  senders : IterOrder (UInt64 × Sender)

/-- The events and wire messages one notice gives rise to. -/
structure Outputs where
  events : List P2pEvent := []
  sent : List (Sender × WireMessage) := []

namespace P2pNode

def new (maxPeers : ℕ) : P2pNode where
  peerManager := .new maxPeers
  gossipEngine := .new
  syncEngine := .new 0
  peerSenders := ∅
  consensusCache := .new 1024

def sendToPeer (node : P2pNode) (peerId : UInt64) (message : WireMessage) : List (Sender × WireMessage) :=
  match node.peerSenders.lookup peerId with
  | some sender => [(sender, message)]
  | none => []

variable (env : DispatchEnv)

def broadcastWire (node : P2pNode) (message : WireMessage) (exceptPeer : Option UInt64) :
    List (Sender × WireMessage) :=
  let senders := env.senders.order (node.peerSenders.entries.map fun x => (x.1, x.2))
  (senders.filter fun x => exceptPeer ≠ some x.1).map fun x => (x.2, message)

/-- The sync request that a new peer gives rise to. -/
def syncWith (sync : SyncEngine) (bestHeight : UInt64) : SyncEngine × Option WireMessage :=
  if sync.needsSync bestHeight then
    let sync := match sync.state with
      | .idle | .synced => sync.startSync bestHeight
      | .syncing targetHeight _ => if targetHeight < bestHeight then sync.startSync bestHeight else sync
    (sync, sync.nextRequest)
  else (sync, none)

def onPeerConnected (node : P2pNode) (peerId : UInt64) (addr : SocketAddr) (bestHeight : UInt64)
    (bestHash : B256) (sender : Sender) : P2pNode × Outputs :=
  let info := { PeerInfo.new env.now peerId addr .connected with bestHeight, bestHash }
  let (accepted, peerManager) := node.peerManager.addPeer info
  let node := { node with peerManager }
  if !accepted then (node, {})
  else
    let (syncEngine, syncRequest) := syncWith node.syncEngine bestHeight
    ({ node with peerSenders := AList.insert peerId sender node.peerSenders, syncEngine },
      { events := [.peerConnected peerId], sent := (syncRequest.map fun request => (sender, request)).toList })

def onPeerDisconnected (node : P2pNode) (peerId : UInt64) : P2pNode × Outputs :=
  ({ node with
      peerManager := node.peerManager.removePeer peerId
      peerSenders := node.peerSenders.erase peerId },
    { events := [.peerDisconnected peerId] })

def onNewBlock (node : P2pNode) (fromPeer : UInt64) (blockData : List UInt8) : P2pNode × Outputs :=
  match env.json.blockFromSlice blockData with
  | .error _ => (node, {})
  | .ok block =>
    let peerManager :=
      node.peerManager.updateBestHeight env.now fromPeer block.number (block.hash env.keccak256)
    let (relay, gossipEngine) := node.gossipEngine.onNewBlock env.json env.keccak256 block
    let node := { node with peerManager, gossipEngine }
    (node,
      { events := [.blockReceived fromPeer block]
        sent := relay.elim [] fun relayMsg => node.broadcastWire env relayMsg (some fromPeer) })

def onNewTransaction (node : P2pNode) (fromPeer : UInt64) (txData : List UInt8) : P2pNode × Outputs :=
  match env.json.txFromSlice txData with
  | .error _ => (node, {})
  | .ok tx =>
    let (relay, gossipEngine) := node.gossipEngine.onNewTx env.json tx
    let node := { node with gossipEngine }
    (node,
      { events := [.transactionReceived fromPeer tx]
        sent := relay.elim [] fun relayMsg => node.broadcastWire env relayMsg (some fromPeer) })

def onConsensusMsg (node : P2pNode) (fromPeer : UInt64) (msgData : List UInt8) : P2pNode × Outputs :=
  let (shouldRelay, consensusCache) := node.consensusCache.shouldRelay (env.sha256 msgData)
  let node := { node with consensusCache }
  (node,
    { events := match env.json.consensusFromSlice msgData with
        | .ok msg => [.consensusMessageReceived fromPeer msg]
        | .error _ => []
      sent := if shouldRelay then node.broadcastWire env (.consensusMsg msgData) (some fromPeer) else [] })

def onBlocks (node : P2pNode) (blocks : List (List UInt8)) : P2pNode × Outputs :=
  let decodedBlocks := blocks.filterMap fun encoded => (env.json.blockFromSlice encoded).toOption
  let wasSynced := decide (node.syncEngine.state = .synced)
  let syncEngine := node.syncEngine.onBlocksReceived decodedBlocks
  ({ node with syncEngine },
    { events := if !wasSynced ∧ syncEngine.state = .synced then [.syncComplete syncEngine.localHeight] else [] })

def onMessage (node : P2pNode) (fromPeer : UInt64) (message : WireMessage) : P2pNode × Outputs :=
  let node := { node with peerManager := node.peerManager.touchPeer env.now fromPeer }
  match message with
  | .hello .. => (node, {})
  | .newBlock _ blockData => node.onNewBlock env fromPeer blockData
  | .newTransaction txData => node.onNewTransaction env fromPeer txData
  | .consensusMsg msgData => node.onConsensusMsg env fromPeer msgData
  | .getBlocks .. => (node, { sent := node.sendToPeer fromPeer (.blocks []) })
  | .blocks blocks => node.onBlocks env blocks
  | .ping nonce => (node, { sent := node.sendToPeer fromPeer (.pong nonce) })
  | .pong _ => (node, {})

def dispatch (node : P2pNode) : NodeInbound → P2pNode × Outputs
  | .peerConnected peerId addr bestHeight bestHash sender =>
    node.onPeerConnected env peerId addr bestHeight bestHash sender
  | .peerDisconnected peerId => node.onPeerDisconnected peerId
  | .message fromPeer message => node.onMessage env fromPeer message

/-! ### Messages leave the table alone -/

/-- Same ids in the table, same senders, and no word of peers that come or go. -/
def KeepsTable (node : P2pNode) (r : P2pNode × Outputs) : Prop :=
  r.1.peerManager.peers.keys = node.peerManager.peers.keys ∧
    r.1.peerManager.maxPeers = node.peerManager.maxPeers ∧ r.1.peerSenders = node.peerSenders ∧
    ∀ e ∈ r.2.events, e.isPeerNotice = false

variable {env} {node : P2pNode} {fromPeer : UInt64}

theorem keepsTable_onNewBlock {blockData : List UInt8} :
    node.KeepsTable (node.onNewBlock env fromPeer blockData) := by
  unfold onNewBlock
  split
  · simp [KeepsTable]
  · simp [KeepsTable, P2pEvent.isPeerNotice]

theorem keepsTable_onNewTransaction {txData : List UInt8} :
    node.KeepsTable (node.onNewTransaction env fromPeer txData) := by
  unfold onNewTransaction
  split
  · simp [KeepsTable]
  · simp [KeepsTable, P2pEvent.isPeerNotice]

theorem keepsTable_onConsensusMsg {msgData : List UInt8} :
    node.KeepsTable (node.onConsensusMsg env fromPeer msgData) := by
  refine ⟨rfl, rfl, rfl, fun e he => ?_⟩
  simp only [onConsensusMsg] at he
  split at he
  · obtain rfl := List.mem_singleton.mp he
    rfl
  · cases he

theorem keepsTable_onBlocks {blocks : List (List UInt8)} : node.KeepsTable (node.onBlocks env blocks) := by
  refine ⟨rfl, rfl, rfl, fun e he => ?_⟩
  simp only [onBlocks] at he
  split at he
  · obtain rfl := List.mem_singleton.mp he
    rfl
  · cases he

theorem keepsTable_onMessage (message : WireMessage) :
    node.KeepsTable (node.onMessage env fromPeer message) := by
  have htouch : ∀ r, KeepsTable { node with peerManager := node.peerManager.touchPeer env.now fromPeer } r →
      node.KeepsTable r := by
    rintro r ⟨hkeys, hmax, hrest⟩
    exact ⟨hkeys.trans (PeerManager.keys_touchPeer _), hmax.trans (PeerManager.maxPeers_touchPeer _), hrest⟩
  apply htouch
  cases message with
  | newBlock height blockData => exact keepsTable_onNewBlock
  | newTransaction txData => exact keepsTable_onNewTransaction
  | consensusMsg msgData => exact keepsTable_onConsensusMsg
  | blocks blocks => exact keepsTable_onBlocks
  | hello | getBlocks | ping | pong => exact ⟨rfl, rfl, rfl, by simp [onMessage]⟩

end P2pNode

end P2p

end Eth2077
