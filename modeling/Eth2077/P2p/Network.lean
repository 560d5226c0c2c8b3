import Eth2077.Lib.Runs
import Eth2077.P2p.Node

/-!
# A network of nodes (`p2p/src/node.rs`)

The three broadcast calls of a node, and a network of nodes with the messages that are on their way between them.
A node is reached under the id it has announced. A node asks a peer that is ahead for blocks, but every node answers
such a request with no blocks at all: however the steps are interleaved, nobody ever gets on (`sync_never_advances`).
-/

namespace Eth2077
namespace P2p

namespace P2pNode
variable (env : DispatchEnv)

def broadcastBlock (node : P2pNode) (block : Block) : P2pNode × List (Sender × WireMessage) :=
  let (message, gossipEngine) := node.gossipEngine.onNewBlock env.json env.keccak256 block
  let node := { node with gossipEngine }
  (node, message.elim [] fun message => node.broadcastWire env message none)

def broadcastTx (node : P2pNode) (tx : Transaction) : P2pNode × List (Sender × WireMessage) :=
  let (message, gossipEngine) := node.gossipEngine.onNewTx env.json tx
  let node := { node with gossipEngine }
  (node, message.elim [] fun message => node.broadcastWire env message none)

/-- `toVec` is `serde_json::to_vec`. -/
def broadcastConsensusMsg (toVec : ConsensusMessage → Except String (List UInt8)) (node : P2pNode)
    (msg : ConsensusMessage) : P2pNode × List (Sender × WireMessage) :=
  match toVec msg with
  | .error _ => (node, [])
  | .ok msgData =>
    let (shouldRelay, consensusCache) := node.consensusCache.shouldRelay (env.sha256 msgData)
    let node := { node with consensusCache }
    (node, if shouldRelay then node.broadcastWire env (.consensusMsg msgData) none else [])

end P2pNode

/-- What the nodes of a network share: the hash functions, JSON, and where the messages sent over a connection of
a node arrive. -/
structure Wiring where
  keccak256 : List UInt8 → B256
  sha256 : List UInt8 → B256
  json : PayloadJson ConsensusMessage
  consensusToVec : ConsensusMessage → Except String (List UInt8)
  target : UInt64 → Sender → UInt64

/-- A message on its way: who sent it, and to whom. -/
abbrev Letter := UInt64 × UInt64 × WireMessage

structure P2pNet where
  nodes : UInt64 → P2pNode
  /-- The messages on their way, and all messages ever sent. -/
  wire : List Letter
  sent : List Letter
  /-- What the nodes have reported, oldest first. -/
  events : List (UInt64 × P2pEvent)

/-- What can happen at a node. Every step reads the clock and visits the table of senders in an order of its own. -/
inductive P2pAction where
  | deliver (fromPeer i : UInt64) (message : WireMessage)
  | peerConnected (i peerId : UInt64) (addr : SocketAddr) (bestHeight : UInt64) (bestHash : B256) (sender : Sender)
  | peerDisconnected (i peerId : UInt64)
  | broadcastBlock (i : UInt64) (block : Block)
  | broadcastTx (i : UInt64) (tx : Transaction)
  | broadcastConsensusMsg (i : UInt64) (msg : ConsensusMessage)

structure P2pLabel where
  action : P2pAction
  now : Instant
  senders : IterOrder (UInt64 × Sender)

namespace Wiring
variable (W : Wiring)

def env (l : P2pLabel) : DispatchEnv := ⟨l.now, W.keccak256, W.sha256, W.json, l.senders⟩

/-- Node `i` becomes `node`, sends `out` and reports `events`. -/
def move (s : P2pNet) (i : UInt64) (node : P2pNode) (out : List (Sender × WireMessage)) (events : List P2pEvent) :
    P2pNet where
  nodes := Function.update s.nodes i node
  wire := s.wire ++ out.map fun x => (i, W.target i x.1, x.2)
  sent := s.sent ++ out.map fun x => (i, W.target i x.1, x.2)
  events := s.events ++ events.map fun e => (i, e)

def handle (l : P2pLabel) (s : P2pNet) (i : UInt64) (inbound : NodeInbound) : P2pNet :=
  let (node, out) := (s.nodes i).dispatch (W.env l) inbound
  W.move s i node out.sent out.events

def step? (s : P2pNet) (l : P2pLabel) : Option P2pNet :=
  match l.action with
  | .deliver fromPeer i message =>
    if (fromPeer, i, message) ∈ s.wire then
      some (W.handle l { s with wire := s.wire.erase (fromPeer, i, message) } i (.message fromPeer message))
    else none
  | .peerConnected i peerId addr bestHeight bestHash sender =>
    some (W.handle l s i (.peerConnected peerId addr bestHeight bestHash sender))
  | .peerDisconnected i peerId => some (W.handle l s i (.peerDisconnected peerId))
  | .broadcastBlock i block =>
    let (node, out) := (s.nodes i).broadcastBlock (W.env l) block
    some (W.move s i node out [])
  | .broadcastTx i tx =>
    let (node, out) := (s.nodes i).broadcastTx (W.env l) tx
    some (W.move s i node out [])
  | .broadcastConsensusMsg i msg =>
    let (node, out) := (s.nodes i).broadcastConsensusMsg (W.env l) W.consensusToVec msg
    some (W.move s i node out [])

end Wiring

/-! ### Syncing -/

/-- Not a batch with blocks in it. -/
def WireMessage.Blockless : WireMessage → Prop
  | .blocks encoded => encoded = []
  | _ => True

/-- The node has got as far as `start`, and does not think that it is done. -/
structure Stalled (start : UInt64) (node : P2pNode) : Prop where
  localHeight : node.syncEngine.localHeight = start
  state : node.syncEngine.state ≠ .synced

/-- What comes of a step of a stalled node that is sent no blocks. -/
structure Idle (start : UInt64) (node : P2pNode) (sent : List (Sender × WireMessage)) (events : List P2pEvent) :
    Prop where
  stalled : Stalled start node
  sent : ∀ x ∈ sent, x.2.Blockless
  events : ∀ height, .syncComplete height ∉ events

namespace P2pNode
variable {node : P2pNode} {env : DispatchEnv} {start fromPeer : UInt64}

theorem mem_broadcastWire {message : WireMessage} {except : Option UInt64} {x : Sender × WireMessage} :
    x ∈ node.broadcastWire env message except ↔
      x.2 = message ∧ ∃ peerId, node.peerSenders.lookup peerId = some x.1 ∧ except ≠ some peerId := by
  simp only [broadcastWire, List.mem_map, List.mem_filter, IterOrder.mem_order, decide_eq_true_eq, ← Option.mem_def,
    AList.mem_lookup_iff]
  constructor
  · rintro ⟨⟨peerId, sender⟩, ⟨⟨entry, hentry, heq⟩, hexcept⟩, rfl⟩
    cases heq
    exact ⟨rfl, entry.1, hentry, hexcept⟩
  · rintro ⟨rfl, peerId, hlookup, hexcept⟩
    exact ⟨(peerId, x.1), ⟨⟨⟨peerId, x.1⟩, hlookup, rfl⟩, hexcept⟩, rfl⟩

theorem blockless_broadcastWire {message : WireMessage} (hm : message.Blockless) (except : Option UInt64) :
    ∀ x ∈ node.broadcastWire env message except, x.2.Blockless := by
  intro x hx
  rw [(mem_broadcastWire.mp hx).1]
  exact hm

theorem eq_of_mem_sendToPeer {message : WireMessage} {peerId : UInt64} {x : Sender × WireMessage}
    (hx : x ∈ node.sendToPeer peerId message) : x.2 = message := by
  unfold sendToPeer at hx
  split at hx
  · rw [List.mem_singleton.mp hx]
  · cases hx

theorem blockless_sendToPeer {message : WireMessage} (hm : message.Blockless) (peerId : UInt64) :
    ∀ x ∈ node.sendToPeer peerId message, x.2.Blockless := by
  intro x hx
  rw [eq_of_mem_sendToPeer hx]
  exact hm

theorem blockless_onNewBlock {json : PayloadJson ConsensusMessage} {keccak256 : List UInt8 → B256} {g : GossipEngine}
    {block : Block} : ∀ message ∈ (g.onNewBlock json keccak256 block).1, message.Blockless := by
  intro message hmessage
  unfold GossipEngine.onNewBlock at hmessage
  dsimp only at hmessage
  split_ifs at hmessage
  · cases hmessage
  · split at hmessage
    · cases hmessage
    · obtain rfl := Option.some_inj.mp hmessage
      exact True.intro

theorem blockless_onNewTx {json : PayloadJson ConsensusMessage} {g : GossipEngine} {tx : Transaction} :
    ∀ message ∈ (g.onNewTx json tx).1, message.Blockless := by
  intro message hmessage
  unfold GossipEngine.onNewTx at hmessage
  dsimp only at hmessage
  split_ifs at hmessage
  · cases hmessage
  · split at hmessage
    · cases hmessage
    · obtain rfl := Option.some_inj.mp hmessage
      exact True.intro

theorem blockless_relay {relay : Option WireMessage} (hrelay : ∀ message ∈ relay, message.Blockless)
    (except : Option UInt64) :
    ∀ x ∈ relay.elim [] (fun message => node.broadcastWire env message except), x.2.Blockless := by
  cases relay with
  | none => nofun
  | some message => exact blockless_broadcastWire (hrelay message rfl) except

theorem stalled_syncWith {sync : SyncEngine} (hheight : sync.localHeight = start) (hstate : sync.state ≠ .synced)
    (bestHeight : UInt64) : (syncWith sync bestHeight).1.localHeight = start ∧
      (syncWith sync bestHeight).1.state ≠ .synced ∧ ∀ request ∈ (syncWith sync bestHeight).2, request.Blockless := by
  have hstart : sync.needsSync bestHeight = true → sync.startSync bestHeight =
      { sync with state := .syncing bestHeight sync.localHeight } := by
    intro hneeds
    have hlt : ¬ bestHeight ≤ sync.localHeight := by simpa [SyncEngine.needsSync] using hneeds
    rw [SyncEngine.startSync, if_neg hlt]
  have hrequest : ∀ e : SyncEngine, ∀ request ∈ e.nextRequest, request.Blockless := by
    intro e request h
    unfold SyncEngine.nextRequest at h
    split at h
    · split_ifs at h
      · cases h
        trivial
      · cases h
    · cases h
  unfold syncWith
  split_ifs with hneeds
  · refine ⟨?_, ?_, fun request h => hrequest _ request h⟩
    · dsimp only
      split
      · rw [hstart hneeds]
        exact hheight
      · rw [hstart hneeds]
        exact hheight
      · split_ifs
        · rw [hstart hneeds]
          exact hheight
        · exact hheight
    · dsimp only
      split
      · rw [hstart hneeds]
        nofun
      · rw [hstart hneeds]
        nofun
      · split_ifs
        · rw [hstart hneeds]
          nofun
        · exact hstate
  · exact ⟨hheight, hstate, nofun⟩

theorem idle_peerConnected (h : Stalled start node) (peerId : UInt64) (addr : SocketAddr) (bestHeight : UInt64)
    (bestHash : B256) (sender : Sender) :
    Idle start (node.onPeerConnected env peerId addr bestHeight bestHash sender).1
      (node.onPeerConnected env peerId addr bestHeight bestHash sender).2.sent
      (node.onPeerConnected env peerId addr bestHeight bestHash sender).2.events := by
  obtain ⟨hheight, hstate, hrequest⟩ := stalled_syncWith h.localHeight h.state bestHeight
  unfold onPeerConnected
  dsimp only
  split_ifs
  · exact ⟨⟨h.localHeight, h.state⟩, nofun, nofun⟩
  · refine ⟨⟨hheight, hstate⟩, fun x hx => ?_, fun height hev => ?_⟩
    · rw [Option.mem_toList, Option.map_eq_some_iff] at hx
      obtain ⟨request, hmem, rfl⟩ := hx
      exact hrequest request hmem
    · cases List.mem_singleton.mp hev

theorem idle_onMessage (h : Stalled start node) {message : WireMessage} (hm : message.Blockless) :
    Idle start (node.onMessage env fromPeer message).1 (node.onMessage env fromPeer message).2.sent
      (node.onMessage env fromPeer message).2.events := by
  have hstalled : ∀ peerManager, Stalled start { node with peerManager } := fun _ => ⟨h.localHeight, h.state⟩
  cases message with
  | hello | pong => exact ⟨hstalled _, List.forall_mem_nil _, fun _ => List.not_mem_nil⟩
  | getBlocks => exact ⟨hstalled _, blockless_sendToPeer (by rfl) _, fun _ => List.not_mem_nil⟩
  | ping => exact ⟨hstalled _, blockless_sendToPeer (by trivial) _, fun _ => List.not_mem_nil⟩
  | blocks encoded =>
    obtain rfl : encoded = [] := hm
    refine ⟨hstalled _, List.forall_mem_nil _, fun height hev => ?_⟩
    have hsame : (!decide (node.syncEngine.state = .synced) ∧ node.syncEngine.state = .synced) ↔ False := by
      simp [h.state]
    simp only [onMessage, onBlocks, SyncEngine.onBlocksReceived, List.filterMap_nil, List.map_nil, hsame, if_false]
      at hev
    cases hev
  | newBlock number blockData =>
    simp only [onMessage, onNewBlock]
    split
    · exact ⟨hstalled _, List.forall_mem_nil _, fun _ => List.not_mem_nil⟩
    · refine ⟨⟨h.localHeight, h.state⟩, blockless_relay blockless_onNewBlock _, fun height hev => ?_⟩
      cases List.mem_singleton.mp hev
  | newTransaction txData =>
    simp only [onMessage, onNewTransaction]
    split
    · exact ⟨hstalled _, List.forall_mem_nil _, fun _ => List.not_mem_nil⟩
    · refine ⟨⟨h.localHeight, h.state⟩, blockless_relay blockless_onNewTx _, fun height hev => ?_⟩
      cases List.mem_singleton.mp hev
  | consensusMsg msgData =>
    simp only [onMessage, onConsensusMsg]
    refine ⟨⟨h.localHeight, h.state⟩, ?_, fun height hev => ?_⟩
    · split_ifs
      · exact blockless_broadcastWire (by trivial) _
      · exact List.forall_mem_nil _
    · split at hev
      · cases List.mem_singleton.mp hev
      · cases hev

theorem idle_broadcastBlock (h : Stalled start node) (block : Block) :
    Idle start (node.broadcastBlock env block).1 (node.broadcastBlock env block).2 [] :=
  ⟨⟨h.localHeight, h.state⟩, blockless_relay blockless_onNewBlock _, nofun⟩

theorem idle_broadcastTx (h : Stalled start node) (tx : Transaction) :
    Idle start (node.broadcastTx env tx).1 (node.broadcastTx env tx).2 [] :=
  ⟨⟨h.localHeight, h.state⟩, blockless_relay blockless_onNewTx _, nofun⟩

theorem idle_broadcastConsensusMsg (h : Stalled start node) (toVec : ConsensusMessage → Except String (List UInt8))
    (msg : ConsensusMessage) : Idle start (node.broadcastConsensusMsg env toVec msg).1
      (node.broadcastConsensusMsg env toVec msg).2 [] := by
  unfold broadcastConsensusMsg
  split
  · exact ⟨h, nofun, nofun⟩
  · refine ⟨⟨h.localHeight, h.state⟩, ?_, nofun⟩
    dsimp only
    split_ifs
    · exact blockless_broadcastWire (by trivial) _
    · nofun

end P2pNode

/-- Nobody has got on, and no blocks are on their way. -/
structure AllStalled (s₀ s : P2pNet) : Prop where
  nodes : ∀ i, Stalled (s₀.nodes i).syncEngine.localHeight (s.nodes i)
  wire : ∀ x ∈ s.wire, x.2.2.Blockless
  events : ∀ i height, (i, .syncComplete height) ∉ s.events

variable {W : Wiring} {s₀ s s' : P2pNet} {l : P2pLabel}

theorem AllStalled.move (h : AllStalled s₀ s) {i : UInt64} {node : P2pNode} {out : List (Sender × WireMessage)}
    {events : List P2pEvent} (hidle : Idle (s₀.nodes i).syncEngine.localHeight node out events) :
    AllStalled s₀ (W.move s i node out events) where
  nodes j := by
    by_cases hij : j = i
    · subst hij
      simpa only [Wiring.move, Function.update_self] using hidle.stalled
    · simpa only [Wiring.move, Function.update_of_ne hij] using h.nodes j
  wire x hx := by
    rcases List.mem_append.mp hx with hx | hx
    · exact h.wire x hx
    · obtain ⟨y, hy, rfl⟩ := List.mem_map.mp hx
      exact hidle.sent y hy
  events j height hev := by
    rcases List.mem_append.mp hev with hev | hev
    · exact h.events j height hev
    · obtain ⟨e, he, heq⟩ := List.mem_map.mp hev
      cases heq
      exact hidle.events height he

theorem AllStalled.step (h : AllStalled s₀ s) (hl : W.step? s l = some s') : AllStalled s₀ s' := by
  unfold Wiring.step? at hl
  split at hl
  · rename_i fromPeer i message _
    split_ifs at hl with hmem
    cases hl
    have herase : AllStalled s₀ { s with wire := s.wire.erase (fromPeer, i, message) } :=
      ⟨h.nodes, fun x hx => h.wire x (List.mem_of_mem_erase hx), h.events⟩
    exact herase.move (P2pNode.idle_onMessage (h.nodes _) (h.wire _ hmem))
  · cases hl
    exact h.move (P2pNode.idle_peerConnected (h.nodes _) ..)
  · cases hl
    refine h.move ⟨⟨(h.nodes _).localHeight, (h.nodes _).state⟩, nofun, fun height hev => ?_⟩
    cases List.mem_singleton.mp hev
  · cases hl
    exact h.move (P2pNode.idle_broadcastBlock (h.nodes _) _)
  · cases hl
    exact h.move (P2pNode.idle_broadcastTx (h.nodes _) _)
  · cases hl
    exact h.move (P2pNode.idle_broadcastConsensusMsg (h.nodes _) _ _)

/-- Whatever heights peers announce and whatever the nodes send each other, the height of no node changes and no node
reports that it is in sync. -/
theorem sync_never_advances (W : Wiring) (s₀ s : P2pNet) (ls : List P2pLabel)
    (hstart : ∀ i, (s₀.nodes i).syncEngine.state ≠ .synced) (hwire : ∀ x ∈ s₀.wire, x.2.2.Blockless)
    (hevents : s₀.events = []) (hrun : Run.exec W.step? s₀ ls = some s) (i : UInt64) :
    (s.nodes i).syncEngine.localHeight = (s₀.nodes i).syncEngine.localHeight ∧
      (s.nodes i).syncEngine.state ≠ .synced ∧ ∀ height, (i, .syncComplete height) ∉ s.events := by
  have hinv : AllStalled s₀ s := by
    refine Run.invariant (I := AllStalled s₀) ⟨fun i => ⟨rfl, hstart i⟩, hwire, fun i height hev => ?_⟩
      (fun _ _ _ h hl => h.step hl) hrun
    rw [hevents] at hev
    cases hev
  exact ⟨(hinv.nodes i).localHeight, (hinv.nodes i).state, hinv.events i⟩

/-! ### Two nodes -/

/-- The vote of validator 1 for no block, as JSON. -/
def voteData : List UInt8 :=
  "\x7b\"Prevote\":\x7b\"height\":1,\"round\":0,\"block_hash\":null,\"voter\":1\x7d\x7d".toList.map
    (UInt8.ofNat ·.toNat)

/-- Nodes 1 and 2 with a connection to each other, and what JSON and SHA-256 make of that vote. -/
def twoWiring : Wiring where
  keccak256 _ := FixedBytes.zero
  sha256 _ :=
    ⟨[102, 179, 98, 100, 139, 180, 151, 5, 145, 145, 79, 233, 77, 145, 176, 161, 75, 86, 44, 17, 214, 195, 128, 147, 191,
      69, 97, 32, 110, 19, 241, 13], rfl⟩
  json :=
    { blockToVec := fun _ => .error "key must be a string"
      blockFromSlice := fun _ => .error "EOF while parsing a value at line 1 column 0"
      txToVec := fun _ => .error "key must be a string"
      txFromSlice := fun _ => .error "EOF while parsing a value at line 1 column 0"
      consensusFromSlice := fun _ => .ok (.prevote 1 0 none 1) }
  consensusToVec _ := .ok voteData
  target i _ := if i = 1 then 2 else 1

def twoNodes : P2pNet where
  nodes i := { P2pNode.new 8 with
    peerSenders := if i = 1 then AList.singleton 2 0 else if i = 2 then AList.singleton 1 0 else ∅ }
  wire := []
  sent := []
  events := []

/-- Node 1 learns that node 2 is seven blocks ahead, and asks for them. -/
def behindRun : List P2pLabel :=
  [⟨.peerConnected 1 2 ([203, 0, 113, 2], 30303) 7 (.repeatByte 7) 0, 0, .stored⟩,
    ⟨.deliver 1 2 (.getBlocks 1 64), 1, .stored⟩, ⟨.deliver 2 1 (.blocks []), 2, .stored⟩]

theorem sync_never_advances_behind :
    ∃ s, Run.exec twoWiring.step? twoNodes behindRun = some s ∧ (s.nodes 1).syncEngine.localHeight = 0 ∧
      (s.nodes 1).syncEngine.state ≠ .synced ∧ ∀ height, (1, .syncComplete height) ∉ s.events := by
  cases hs : Run.exec twoWiring.step? twoNodes behindRun with
  | none =>
    have hsome : (Run.exec twoWiring.step? twoNodes behindRun).isSome = true := by decide +kernel
    rw [hs] at hsome
    cases hsome
  | some s => exact ⟨s, rfl, sync_never_advances twoWiring twoNodes s behindRun (fun _ => nofun) nofun rfl hs 1⟩

end P2p
end Eth2077
