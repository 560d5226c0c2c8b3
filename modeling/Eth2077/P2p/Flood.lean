import Eth2077.Lib.Flooding
import Eth2077.P2p.Network
import Eth2077.P2p.RelayCaches

/-!
# Relaying floods the network

Blocks, transactions and consensus messages go through the network as items of a flooding protocol, as long as the
connections stay and no cache has to forget: every run of the nodes is a run of `Flooding` (`Floods.step`). So an item
crosses each link at most once, and once it is no longer on its way, everybody with a path from somebody who knows it
has it.
-/

namespace Eth2077
namespace P2p

/-- The three kinds of messages that are relayed, each with a cache of its own. -/
inductive Kind where
  | block
  | tx
  | consensus
deriving DecidableEq

def kinds : Finset Kind := {.block, .tx, .consensus}

theorem mem_kinds (kind : Kind) : kind ∈ kinds := by
  cases kind <;> decide

/-- What is relayed, as the caches tell it apart. -/
abbrev Item := Kind × B256

def P2pNode.cache (node : P2pNode) : Kind → RelayCache
  | .block => node.gossipEngine.blocks
  | .tx => node.gossipEngine.txs
  | .consensus => node.consensusCache

/-- The node remembers the item. -/
def P2pNode.Has (node : P2pNode) (x : Item) : Prop := x.2 ∈ (node.cache x.1).seen

namespace Wiring
variable (W : Wiring)

def blockItem (block : Block) : Item := (.block, block.hash W.keccak256)

def consensusItem (msgData : List UInt8) : Item := (.consensus, W.sha256 msgData)

/-- The item that a message carries. -/
def itemOf : WireMessage → Option Item
  | .newBlock _ blockData => (W.json.blockFromSlice blockData).toOption.map W.blockItem
  | .newTransaction txData => (W.json.txFromSlice txData).toOption.map fun tx => (.tx, tx.hash)
  | .consensusMsg msgData => some (W.consensusItem msgData)
  | _ => none

/-- The item whose arrival an event reports. -/
def reported : P2pEvent → Option Item
  | .blockReceived _ block => some (W.blockItem block)
  | .transactionReceived _ tx => some (.tx, tx.hash)
  | .consensusMessageReceived _ msg => (W.consensusToVec msg).toOption.map W.consensusItem
  | _ => none

/-- The node and the item it broadcasts. -/
def announced : P2pAction → Option (UInt64 × Item)
  | .broadcastBlock i block => some (i, W.blockItem block)
  | .broadcastTx i tx => some (i, (.tx, tx.hash))
  | .broadcastConsensusMsg i msg => (W.consensusToVec msg).toOption.map fun msgData => (i, W.consensusItem msgData)
  | _ => none

/-- `data` is what `value` is written as, and is read as that. -/
def RoundTrip {α : Type} (toVec : α → Except String (List UInt8)) (fromSlice : List UInt8 → Except String α)
    (value : α) (data : List UInt8) : Prop :=
  toVec value = .ok data ∧ fromSlice data = .ok value

/-- JSON gives back what is broadcast. -/
def ReadsBack : P2pAction → Prop
  | .broadcastBlock _ block => ∃ data, RoundTrip W.json.blockToVec W.json.blockFromSlice block data
  | .broadcastTx _ tx => ∃ data, RoundTrip W.json.txToVec W.json.txFromSlice tx data
  | .broadcastConsensusMsg _ msg => ∃ data, RoundTrip W.consensusToVec W.json.consensusFromSlice msg data
  | _ => True

/-- What the message carries was written by a node. -/
def Genuine : WireMessage → Prop
  | .newBlock _ blockData => ∃ block, RoundTrip W.json.blockToVec W.json.blockFromSlice block blockData
  | .newTransaction txData => ∃ tx, RoundTrip W.json.txToVec W.json.txFromSlice tx txData
  | .consensusMsg msgData => ∃ msg, RoundTrip W.consensusToVec W.json.consensusFromSlice msg msgData
  | _ => True

end Wiring

/-- Connections are neither opened nor closed. -/
def P2pAction.KeepsLinks : P2pAction → Prop
  | .peerConnected .. | .peerDisconnected .. => False
  | _ => True

/-! ### One node -/

namespace RelayCache
variable {c : RelayCache} {hash : B256} {known : Finset B256}

theorem shouldRelay_known (h : hash ∈ c.seen) : c.shouldRelay hash = (false, c) := by
  rw [shouldRelay, dif_pos h]

/-- A cache that may hold all of `known` forgets nothing. -/
theorem shouldRelay_fresh (h : hash ∉ c.seen) (hseen : c.seen ⊆ known) (hhash : hash ∈ known)
    (hsize : known.card ≤ c.maxSize) : ∃ c' : RelayCache, c.shouldRelay hash = (true, c') ∧
      c'.maxSize = c.maxSize ∧ c'.seen = insert hash c.seen := by
  obtain ⟨c', hnew, hmax, hfifo⟩ := shouldRelay_new h
  have hseen' : c'.seen = insert hash c.seen := congrArg FifoSet.seen hfifo
  have hroom : ¬ c'.maxSize < c'.seen.card := by
    rw [not_lt, hseen', hmax]
    exact (Finset.card_le_card (Finset.insert_subset hhash hseen)).trans hsize
  rw [evict, dif_neg hroom] at hnew
  exact ⟨c', hnew, hmax, hseen'⟩

end RelayCache

/-- The caches may hold every hash of `known`, and hold no others. -/
structure P2pNode.Room (known : Kind → Finset B256) (node : P2pNode) : Prop where
  size : ∀ kind, (known kind).card ≤ (node.cache kind).maxSize
  seen : ∀ kind, (node.cache kind).seen ⊆ known kind

/-- What a node does with an item it is told: it keeps still if it knows it, and passes it on with `relay` otherwise. -/
inductive Wiring.Takes (W : Wiring) (node node' : P2pNode) (relay : WireMessage → List (Sender × WireMessage)) :
    Option Item → List (Sender × WireMessage) → Prop
  | nothing {sent} (hcache : node'.cache = node.cache) (hsent : ∀ y ∈ sent, W.Genuine y.2 ∧ W.itemOf y.2 = none) :
      Takes W node node' relay none sent
  | known {x} (hx : node.Has x) (hcache : node'.cache = node.cache) : Takes W node node' relay (some x) []
  | fresh {x message} (hx : ¬ node.Has x) (hhas : ∀ y, node'.Has y ↔ node.Has y ∨ y = x)
      (hsize : ∀ kind, (node'.cache kind).maxSize = (node.cache kind).maxSize) (hmessage : W.Genuine message)
      (hitem : W.itemOf message = some x) : Takes W node node' relay (some x) (relay message)

namespace P2pNode
variable {W : Wiring} {node : P2pNode} {known : Kind → Finset B256}

/-- Only the cache of `kind` changes, and by one hash at most. -/
theorem takes_of_cache (node' : P2pNode) (relay : WireMessage → List (Sender × WireMessage)) {kind : Kind} {hash : B256}
    {message : WireMessage} {c : RelayCache} {b : Bool} (hroom : node.Room known) (hhash : hash ∈ known kind)
    (hmessage : W.Genuine message) (hitem : W.itemOf message = some (kind, hash))
    (hrelay : (node.cache kind).shouldRelay hash = (b, c)) (hcache : node'.cache = Function.update node.cache kind c) :
    W.Takes node node' relay (some (kind, hash)) (if b then relay message else []) := by
  by_cases hold : hash ∈ (node.cache kind).seen
  · rw [RelayCache.shouldRelay_known hold] at hrelay
    obtain ⟨rfl, rfl⟩ := Prod.mk.inj hrelay
    rw [Function.update_eq_self] at hcache
    exact .known hold hcache
  · obtain ⟨c', hnew, hmax, hseen⟩ := RelayCache.shouldRelay_fresh hold (hroom.seen kind) hhash (hroom.size kind)
    rw [hnew] at hrelay
    obtain ⟨rfl, rfl⟩ := Prod.mk.inj hrelay
    refine .fresh hold (fun y => ?_) (fun kind' => ?_) hmessage hitem
    · obtain ⟨kind', hash'⟩ := y
      by_cases hkind : kind' = kind
      · subst hkind
        simp only [Has, hcache, Function.update_self, hseen, Finset.mem_insert, Prod.mk.injEq, true_and]
        exact or_comm
      · simp only [Has, hcache, Function.update_of_ne hkind, Prod.mk.injEq, hkind, false_and, or_false]
    · by_cases hkind : kind' = kind
      · subst hkind
        rw [hcache, Function.update_self, hmax]
      · rw [hcache, Function.update_of_ne hkind]

theorem cache_eq {node' : P2pNode} {c : RelayCache} (kind : Kind) (hself : node'.cache kind = c)
    (hother : ∀ k, k ≠ kind → node'.cache k = node.cache k) : node'.cache = Function.update node.cache kind c := by
  funext k
  by_cases hk : k = kind
  · rw [hk, hself, Function.update_self]
  · rw [hother k hk, Function.update_of_ne hk]

/-- What `GossipEngine.onNewBlock` does to the caches of the node it belongs to. -/
theorem takes_onNewBlock (relay : WireMessage → List (Sender × WireMessage)) (hroom : node.Room known)
    {block : Block} {data : List UInt8}
    (hdata : Wiring.RoundTrip W.json.blockToVec W.json.blockFromSlice block data)
    (hblock : block.hash W.keccak256 ∈ known .block) (peerManager : PeerManager) :
    W.Takes node
      { node with peerManager, gossipEngine := (node.gossipEngine.onNewBlock W.json W.keccak256 block).2 } relay
      (some (W.blockItem block)) ((node.gossipEngine.onNewBlock W.json W.keccak256 block).1.elim [] relay) := by
  have hitem : W.itemOf (.newBlock block.number data) = some (.block, block.hash W.keccak256) := by
    rw [Wiring.itemOf, hdata.2]
    rfl
  have hgenuine : W.Genuine (.newBlock block.number data) := ⟨block, hdata⟩
  rcases hrelay : node.gossipEngine.blocks.shouldRelay (block.hash W.keccak256) with ⟨b, c⟩
  have htakes := takes_of_cache
    { node with peerManager, gossipEngine := { node.gossipEngine with blocks := c } } relay
    hroom hblock hgenuine hitem hrelay
    (cache_eq .block rfl fun k hk => by cases k <;> trivial)
  unfold GossipEngine.onNewBlock
  rw [hrelay]
  cases b with
  | false => exact htakes
  | true =>
    simp only [Bool.not_true, Bool.false_eq_true, if_false, hdata.1]
    exact htakes

theorem takes_onNewTx (relay : WireMessage → List (Sender × WireMessage)) (hroom : node.Room known)
    {tx : Transaction} {data : List UInt8}
    (hdata : Wiring.RoundTrip W.json.txToVec W.json.txFromSlice tx data) (htx : tx.hash ∈ known .tx)
    (peerManager : PeerManager) :
    W.Takes node { node with peerManager, gossipEngine := (node.gossipEngine.onNewTx W.json tx).2 } relay
      (some (.tx, tx.hash)) ((node.gossipEngine.onNewTx W.json tx).1.elim [] relay) := by
  have hitem : W.itemOf (.newTransaction data) = some (.tx, tx.hash) := by
    rw [Wiring.itemOf, hdata.2]
    rfl
  have hgenuine : W.Genuine (.newTransaction data) := ⟨tx, hdata⟩
  rcases hrelay : node.gossipEngine.txs.shouldRelay tx.hash with ⟨b, c⟩
  have htakes := takes_of_cache
    { node with peerManager, gossipEngine := { node.gossipEngine with txs := c } } relay
    hroom htx hgenuine hitem hrelay (cache_eq .tx rfl fun k hk => by cases k <;> trivial)
  unfold GossipEngine.onNewTx
  rw [hrelay]
  cases b with
  | false => exact htakes
  | true =>
    simp only [Bool.not_true, Bool.false_eq_true, if_false, hdata.1]
    exact htakes

theorem takes_consensusMsg (relay : WireMessage → List (Sender × WireMessage)) (hroom : node.Room known)
    {msgData : List UInt8} (hgenuine : W.Genuine (.consensusMsg msgData))
    (hmsg : W.sha256 msgData ∈ known .consensus) (peerManager : PeerManager) :
    W.Takes node
      { node with peerManager, consensusCache := (node.consensusCache.shouldRelay (W.sha256 msgData)).2 } relay
      (some (W.consensusItem msgData))
      (if (node.consensusCache.shouldRelay (W.sha256 msgData)).1 then relay (.consensusMsg msgData) else []) :=
  takes_of_cache _ _ hroom hmsg hgenuine rfl rfl (cache_eq .consensus rfl fun k hk => by cases k <;> trivial)

/-- What a node does with a message from `fromPeer`, and what it reports. -/
theorem takes_onMessage (hroom : node.Room known) (l : P2pLabel) (fromPeer : UInt64) {message : WireMessage}
    (hgenuine : W.Genuine message) (hknown : ∀ x ∈ W.itemOf message, x.2 ∈ known x.1) :
    W.Takes node (node.onMessage (W.env l) fromPeer message).1
      (fun m => node.broadcastWire (W.env l) m (some fromPeer)) (W.itemOf message)
      (node.onMessage (W.env l) fromPeer message).2.sent ∧
    ∀ x, (∃ e ∈ (node.onMessage (W.env l) fromPeer message).2.events, W.reported e = some x) ↔
      W.itemOf message = some x := by
  cases message with
  | hello | pong => exact ⟨.nothing rfl nofun, fun x => ⟨nofun, nofun⟩⟩
  | getBlocks =>
    refine ⟨.nothing rfl fun y hy => ?_, fun x => ⟨nofun, nofun⟩⟩
    rw [eq_of_mem_sendToPeer hy]
    exact ⟨trivial, rfl⟩
  | ping nonce =>
    refine ⟨.nothing rfl fun y hy => ?_, fun x => ⟨nofun, nofun⟩⟩
    rw [eq_of_mem_sendToPeer hy]
    exact ⟨trivial, rfl⟩
  | blocks encoded =>
    refine ⟨.nothing rfl nofun, fun x => ⟨?_, nofun⟩⟩
    rintro ⟨e, he, hx⟩
    simp only [onMessage, onBlocks] at he
    split_ifs at he
    · cases List.mem_singleton.mp he
      cases hx
    · cases he
  | newBlock number blockData =>
    obtain ⟨block, hdata⟩ := hgenuine
    have hitem : W.itemOf (.newBlock number blockData) = some (W.blockItem block) := by
      rw [Wiring.itemOf, hdata.2]
      rfl
    have htakes := takes_onNewBlock (fun m => node.broadcastWire (W.env l) m (some fromPeer)) hroom hdata
      (hknown _ hitem) ((node.peerManager.touchPeer l.now fromPeer).updateBestHeight l.now fromPeer block.number
        (block.hash W.keccak256))
    have hread : (W.env l).json.blockFromSlice blockData = .ok block := hdata.2
    rw [hitem]
    simp only [onMessage, onNewBlock, hread]
    refine ⟨htakes, fun x => ?_⟩
    simp only [List.mem_singleton, exists_eq_left]
    rfl
  | newTransaction txData =>
    obtain ⟨tx, hdata⟩ := hgenuine
    have hitem : W.itemOf (.newTransaction txData) = some (.tx, tx.hash) := by
      rw [Wiring.itemOf, hdata.2]
      rfl
    have htakes := takes_onNewTx (fun m => node.broadcastWire (W.env l) m (some fromPeer)) hroom hdata
      (hknown _ hitem) (node.peerManager.touchPeer l.now fromPeer)
    have hread : (W.env l).json.txFromSlice txData = .ok tx := hdata.2
    rw [hitem]
    simp only [onMessage, onNewTransaction, hread]
    refine ⟨htakes, fun x => ?_⟩
    simp only [List.mem_singleton, exists_eq_left]
    rfl
  | consensusMsg msgData =>
    refine ⟨takes_consensusMsg _ hroom hgenuine (hknown _ rfl) _, fun x => ?_⟩
    obtain ⟨msg, hdata⟩ := hgenuine
    have hread : (W.env l).json.consensusFromSlice msgData = .ok msg := hdata.2
    simp only [onMessage, onConsensusMsg, hread, List.mem_singleton, exists_eq_left, Wiring.reported, hdata.1]
    rfl

theorem takes_broadcastConsensusMsg (hroom : node.Room known) (l : P2pLabel) {msg : ConsensusMessage}
    {data : List UInt8} (hdata : Wiring.RoundTrip W.consensusToVec W.json.consensusFromSlice msg data)
    (hmsg : W.sha256 data ∈ known .consensus) :
    W.Takes node (node.broadcastConsensusMsg (W.env l) W.consensusToVec msg).1
      (fun m => node.broadcastWire (W.env l) m none) (some (W.consensusItem data))
      (node.broadcastConsensusMsg (W.env l) W.consensusToVec msg).2 := by
  have hgenuine : W.Genuine (.consensusMsg data) := ⟨msg, hdata⟩
  have htakes := takes_consensusMsg (fun m => node.broadcastWire (W.env l) m none) hroom hgenuine hmsg
    node.peerManager
  unfold broadcastConsensusMsg
  rw [hdata.1]
  exact htakes

end P2pNode

/-! ### The network -/

namespace Wiring
variable (W : Wiring)

def packetOf (x : Letter) : Option (Flooding.Packet UInt64 Item) := (W.itemOf x.2.2).map fun item => (x.1, x.2.1, item)

/-- The network as a flooding protocol sees it. -/
def flooding (s : P2pNet) : Flooding.State UInt64 Item where
  seen i := {x | (s.nodes i).Has x}
  transit := ↑(s.wire.filterMap W.packetOf)
  sent := ↑(s.sent.filterMap W.packetOf)

/-- Every connection leads to the node whose id it is filed under. -/
def Wired (s : P2pNet) : Prop :=
  ∀ i peerId sender, (s.nodes i).peerSenders.lookup peerId = some sender → W.target i sender = peerId

end Wiring

/-- Whom a node has a connection to. -/
def P2pNet.links (s : P2pNet) (i : UInt64) : Finset UInt64 := (s.nodes i).peerSenders.keys.toFinset

theorem P2pNet.mem_links {s : P2pNet} {i j : UInt64} :
    j ∈ s.links i ↔ ∃ sender, (s.nodes i).peerSenders.lookup j = some sender := by
  rw [links, List.mem_toFinset, ← Option.isSome_iff_exists, AList.lookup_isSome]
  rfl

/-- No cache had to forget, the connections are those of `s₀`, and the messages on their way were written by nodes. -/
structure Floods (W : Wiring) (known : Kind → Finset B256) (s₀ s : P2pNet) : Prop where
  senders : ∀ i, (s.nodes i).peerSenders = (s₀.nodes i).peerSenders
  room : ∀ i, (s.nodes i).Room known
  genuine : ∀ x ∈ s.wire, W.Genuine x.2.2 ∧ ∀ item ∈ W.itemOf x.2.2, item.2 ∈ known item.1

variable {W : Wiring} {known : Kind → Finset B256} {s₀ s s' : P2pNet} {l : P2pLabel} {i : UInt64}

/-- The connections that a message goes to, each met once. -/
theorem coe_order_filter (l : P2pLabel) (except : Option UInt64) :
    ((((l.senders.order ((s.nodes i).peerSenders.entries.map fun e => (e.1, e.2))).filter
      fun e => except ≠ some e.1).map Prod.fst : List UInt64) : Multiset UInt64) =
        ((s.links i).filter fun j => except ≠ some j).val := by
  have hkeys : ((s.nodes i).peerSenders.entries.map fun e => (e.1, e.2)).map Prod.fst =
      (s.nodes i).peerSenders.keys := by
    rw [List.map_map]
    rfl
  have hfilter : ∀ es : List (UInt64 × Sender), (es.filter fun e => except ≠ some e.1).map Prod.fst =
      (es.map Prod.fst).filter fun j => except ≠ some j := by
    intro es
    rw [List.filter_map]
    rfl
  have hperm : ((l.senders.order ((s.nodes i).peerSenders.entries.map fun e => (e.1, e.2))).map Prod.fst).Perm
      (s.nodes i).peerSenders.keys := hkeys ▸ (l.senders.perm _).map _
  have hnodup : (s.nodes i).peerSenders.keys.Nodup := AList.keys_nodup _
  rw [hfilter, Finset.filter_val, P2pNet.links, List.toFinset_val, hnodup.dedup, Multiset.filter_coe, Multiset.coe_eq_coe]
  exact hperm.filter _

/-- The message goes to every connection but one, once each. -/
theorem packets_broadcastWire (hwired : W.Wired s) {message : WireMessage} {x : Item}
    (hitem : W.itemOf message = some x) (l : P2pLabel) (except : Option UInt64) :
    (((((s.nodes i).broadcastWire (W.env l) message except).map fun y => (i, W.target i y.1, y.2)).filterMap
      W.packetOf : List _) : Multiset (Flooding.Packet UInt64 Item)) =
        Flooding.packets i x ((s.links i).filter fun j => except ≠ some j) := by
  have hlist : ((((s.nodes i).broadcastWire (W.env l) message except).map fun y => (i, W.target i y.1, y.2)).filterMap
      W.packetOf) = (((l.senders.order ((s.nodes i).peerSenders.entries.map fun e => (e.1, e.2))).filter
        fun e => except ≠ some e.1).map Prod.fst).map fun j => (i, j, x) := by
    rw [P2pNode.broadcastWire, List.map_map, List.filterMap_map, List.map_map]
    rw [List.filterMap_congr (g := fun e => some (i, e.1, x)), List.filterMap_eq_map']
    · rfl
    intro e he
    obtain ⟨entry, hentry, rfl⟩ := List.mem_map.mp ((IterOrder.mem_order _).mp (List.mem_of_mem_filter he))
    have htarget := hwired i entry.1 entry.2 (AList.mem_lookup_iff.mpr hentry)
    simp only [Function.comp_apply, Wiring.packetOf, hitem, Option.map_some, htarget]
  rw [hlist, Flooding.packets, ← coe_order_filter]
  rfl

/-- What the other nodes see of a step of node `i`: it knows `item` now, and passes it on to `targets` if it is new. -/
structure Moves (W : Wiring) (s s' : P2pNet) (i : UInt64) (item : Option Item) (targets : Finset UInt64) : Prop where
  same : (∀ x ∈ item, (s.nodes i).Has x) → W.flooding s' = W.flooding s
  learn : ∀ x ∈ item, ¬ (s.nodes i).Has x → W.flooding s' = (W.flooding s).learn i x targets

theorem Moves.has {item : Option Item} {targets : Finset UInt64} (h : Moves W s s' i item targets) (j : UInt64)
    (y : Item) : (s'.nodes j).Has y ↔ (s.nodes j).Has y ∨ j = i ∧ item = some y := by
  have hseen : ∀ t : P2pNet, (t.nodes j).Has y ↔ y ∈ (W.flooding t).seen j := fun _ => Iff.rfl
  by_cases hold : ∀ x ∈ item, (s.nodes i).Has x
  · rw [hseen, h.same hold, ← hseen]
    refine (or_iff_left_of_imp ?_).symm
    rintro ⟨rfl, hy⟩
    exact hold y hy
  · push Not at hold
    obtain ⟨x, hx, hnew⟩ := hold
    rw [hseen, h.learn x hx hnew, Flooding.mem_seen_learn, Option.mem_def.mp hx, hseen s, Option.some_inj,
      eq_comm (a := y)]

theorem flooding_move {node : P2pNode} {out : List (Sender × WireMessage)} {events : List P2pEvent}
    (seen : UInt64 → Set Item) (hself : seen i = {x | node.Has x}) (hother : ∀ j ≠ i, seen j = {x | (s.nodes j).Has x}) :
    W.flooding (W.move s i node out events) =
      ⟨seen, (W.flooding s).transit + ↑((out.map fun y => (i, W.target i y.1, y.2)).filterMap W.packetOf),
        (W.flooding s).sent + ↑((out.map fun y => (i, W.target i y.1, y.2)).filterMap W.packetOf)⟩ := by
  have hseen : (fun j => {x | ((W.move s i node out events).nodes j).Has x}) = seen := by
    funext j
    by_cases hj : j = i
    · subst hj
      simp only [Wiring.move, Function.update_self, hself]
    · simp only [Wiring.move, Function.update_of_ne hj, hother j hj]
  unfold Wiring.flooding
  rw [hseen]
  simp only [Wiring.move, List.filterMap_append, Multiset.coe_add]

theorem Wiring.Takes.room {node node' : P2pNode} {relay : WireMessage → List (Sender × WireMessage)} {item : Option Item}
    {out : List (Sender × WireMessage)} (h : W.Takes node node' relay item out) (hroom : node.Room known)
    (hknown : ∀ x ∈ item, x.2 ∈ known x.1) : node'.Room known := by
  cases h with
  | nothing hcache | known _ hcache => exact ⟨hcache ▸ hroom.size, hcache ▸ hroom.seen⟩
  | fresh hx hhas hsize =>
    refine ⟨fun kind => (hroom.size kind).trans (hsize kind).ge, fun kind hash hseen => ?_⟩
    rcases (hhas (kind, hash)).mp hseen with hold | rfl
    · exact hroom.seen kind hold
    · exact hknown _ rfl

/-- What is sent was written by a node, and is the item. -/
theorem Wiring.Takes.genuine {node node' : P2pNode} {item : Option Item} {out : List (Sender × WireMessage)}
    {except : Option UInt64} (h : W.Takes node node' (fun m => node.broadcastWire (W.env l) m except) item out) :
    ∀ y ∈ out, W.Genuine y.2 ∧ ∀ x ∈ W.itemOf y.2, x ∈ item := by
  intro y hy
  cases h with
  | nothing hcache hsent =>
    obtain ⟨hgenuine, hnone⟩ := hsent y hy
    rw [hnone]
    exact ⟨hgenuine, nofun⟩
  | known => cases hy
  | fresh hx hhas hsize hmessage hitem =>
    rw [(P2pNode.mem_broadcastWire.mp hy).1, hitem]
    exact ⟨hmessage, fun x hx => hx⟩

theorem Floods.move (h : Floods W known s₀ s) {node : P2pNode} {out : List (Sender × WireMessage)}
    {except : Option UInt64} {item : Option Item}
    (htakes : W.Takes (s.nodes i) node (fun m => (s.nodes i).broadcastWire (W.env l) m except) item out)
    (hsenders : node.peerSenders = (s.nodes i).peerSenders) (hknown : ∀ x ∈ item, x.2 ∈ known x.1)
    (events : List P2pEvent) : Floods W known s₀ (W.move s i node out events) where
  senders j := by
    by_cases hj : j = i
    · subst hj
      simpa only [Wiring.move, Function.update_self, hsenders] using h.senders j
    · simpa only [Wiring.move, Function.update_of_ne hj] using h.senders j
  room j := by
    by_cases hj : j = i
    · subst hj
      simpa only [Wiring.move, Function.update_self] using htakes.room (h.room j) hknown
    · simpa only [Wiring.move, Function.update_of_ne hj] using h.room j
  genuine x hx := by
    rcases List.mem_append.mp hx with hx | hx
    · exact h.genuine x hx
    · obtain ⟨y, hy, rfl⟩ := List.mem_map.mp hx
      obtain ⟨hgenuine, hitem⟩ := htakes.genuine y hy
      exact ⟨hgenuine, fun item' hitem' => hknown _ (hitem _ hitem')⟩

/-- A node that takes an item moves the network on. -/
theorem Wiring.Takes.moves (hwired : W.Wired s) {node : P2pNode} {out : List (Sender × WireMessage)}
    {except : Option UInt64} {item : Option Item}
    (htakes : W.Takes (s.nodes i) node (fun m => (s.nodes i).broadcastWire (W.env l) m except) item out)
    (events : List P2pEvent) :
    Moves W s (W.move s i node out events) i item ((s.links i).filter fun j => except ≠ some j) := by
  have hquiet : ∀ {out : List (Sender × WireMessage)}, (∀ y ∈ out, W.itemOf y.2 = none) → node.cache = (s.nodes i).cache →
      W.flooding (W.move s i node out events) = W.flooding s := by
    intro out hout hcache
    have hnone : (out.map fun y => (i, W.target i y.1, y.2)).filterMap W.packetOf = [] := by
      rw [List.filterMap_map, List.filterMap_eq_nil_iff]
      intro y hy
      simp only [Function.comp_apply, Wiring.packetOf, hout y hy, Option.map_none]
    rw [flooding_move (W.flooding s).seen (by simp only [Wiring.flooding, P2pNode.Has, hcache]) fun j _ => rfl, hnone,
      Multiset.coe_nil, add_zero, add_zero]
  cases htakes with
  | nothing hcache hsent => exact ⟨fun _ => hquiet (fun y hy => (hsent y hy).2) hcache, nofun⟩
  | known hx hcache => exact ⟨fun _ => hquiet nofun hcache, fun x hx' hnew => absurd (Option.some_inj.mp hx' ▸ hx) hnew⟩
  | @fresh x message hx hhas hsize hmessage hitem =>
    refine ⟨fun hold => absurd (hold x rfl) hx, fun x' hx' _ => ?_⟩
    obtain rfl := Option.some_inj.mp hx'
    rw [flooding_move (Function.update (W.flooding s).seen i (insert x ((W.flooding s).seen i))),
      packets_broadcastWire hwired hitem]
    · rfl
    · ext y
      simp only [Function.update_self, Set.mem_insert_iff, Set.mem_ofPred_eq, hhas, Wiring.flooding, or_comm]
    · intro j hj
      rw [Function.update_of_ne hj]
      rfl

/-- Node `j` has reported the item. -/
def Wiring.Reports (W : Wiring) (s : P2pNet) (j : UInt64) (x : Item) : Prop :=
  ∃ e, (j, e) ∈ s.events ∧ W.reported e = some x

theorem reports_move {node : P2pNode} {out : List (Sender × WireMessage)} {events : List P2pEvent} {j : UInt64}
    {x : Item} : W.Reports (W.move s i node out events) j x ↔
      W.Reports s j x ∨ j = i ∧ ∃ e ∈ events, W.reported e = some x := by
  simp only [Wiring.Reports, Wiring.move, List.mem_append, List.mem_map, Prod.mk.injEq]
  constructor
  · rintro ⟨e, he | ⟨e', he', rfl, rfl⟩, hx⟩
    · exact .inl ⟨e, he, hx⟩
    · exact .inr ⟨rfl, e', he', hx⟩
  · rintro (⟨e, he, hx⟩ | ⟨rfl, e, he, hx⟩)
    · exact ⟨e, .inl he, hx⟩
    · exact ⟨e, .inr ⟨e, he, rfl, rfl⟩, hx⟩

/-- What a step of the network comes to: one step of the flooding protocol or none, in which a node hears of `item`. -/
structure Advances (W : Wiring) (s s' : P2pNet) (l : P2pLabel) (i : UInt64) (item : Option Item) : Prop where
  step : W.flooding s' = W.flooding s ∨ Flooding.Step s.links (W.flooding s) (W.flooding s')
  has : ∀ j y, (s'.nodes j).Has y ↔ (s.nodes j).Has y ∨ j = i ∧ item = some y
  told : ∀ j y, W.announced l.action = some (j, y) ∨ W.Reports s' j y ↔ W.Reports s j y ∨ j = i ∧ item = some y

/-- A broadcast of `item` by node `i`. -/
theorem advances_announce (h : Floods W known s₀ s) (hwired : W.Wired s) {node : P2pNode}
    {out : List (Sender × WireMessage)} {item : Item}
    (htakes : W.Takes (s.nodes i) node (fun m => (s.nodes i).broadcastWire (W.env l) m none) (some item) out)
    (hsenders : node.peerSenders = (s.nodes i).peerSenders) (hitem : item.2 ∈ known item.1)
    (hannounced : W.announced l.action = some (i, item)) :
    Floods W known s₀ (W.move s i node out []) ∧ Advances W s (W.move s i node out []) l i (some item) := by
  have hmoves := htakes.moves hwired []
  refine ⟨h.move htakes hsenders (fun x hx => Option.some_inj.mp hx ▸ hitem) [], ?_⟩
  rw [Finset.filter_true_of_mem fun _ _ => nofun] at hmoves
  refine ⟨?_, hmoves.has, fun j y => ?_⟩
  · by_cases hold : (s.nodes i).Has item
    · refine .inl (hmoves.same fun x hx => ?_)
      rwa [← Option.some_inj.mp hx]
    · refine .inr ?_
      rw [hmoves.learn item rfl hold]
      exact .announce i item hold
  · rw [hannounced, reports_move, Option.some_inj, Prod.mk.injEq, Option.some_inj]
    simp only [List.not_mem_nil, false_and, exists_false, and_false, or_false, eq_comm (a := i)]
    exact or_comm

theorem flooding_erase {x : Letter} (hx : x ∈ s.wire) :
    W.flooding { s with wire := s.wire.erase x } =
      (W.packetOf x).elim (W.flooding s) (W.flooding s).take := by
  have hperm : (s.wire.filterMap W.packetOf).Perm ((x :: s.wire.erase x).filterMap W.packetOf) :=
    (List.perm_cons_erase hx).filterMap _
  cases hpacket : W.packetOf x with
  | none =>
    rw [List.filterMap_cons_none hpacket] at hperm
    rw [Option.elim_none, Wiring.flooding, Wiring.flooding, Multiset.coe_eq_coe.mpr hperm]
  | some p =>
    rw [List.filterMap_cons_some hpacket] at hperm
    have htransit := Multiset.coe_eq_coe.mpr hperm
    rw [← Multiset.cons_coe] at htransit
    rw [Option.elim_some, Wiring.flooding, Flooding.State.take, Wiring.flooding, htransit, Multiset.erase_cons_head]

/-- A message from `fromPeer` arrives at node `i`. -/
theorem advances_deliver (h : Floods W known s₀ s) (hwired : W.Wired s) {fromPeer : UInt64} {message : WireMessage}
    (hmem : (fromPeer, i, message) ∈ s.wire) (hannounced : W.announced l.action = none) :
    let s' := W.handle l { s with wire := s.wire.erase (fromPeer, i, message) } i (.message fromPeer message)
    Floods W known s₀ s' ∧ Advances W s s' l i (W.itemOf message) := by
  intro s'
  set s₁ : P2pNet := { s with wire := s.wire.erase (fromPeer, i, message) } with hs₁
  have h₁ : Floods W known s₀ s₁ := ⟨h.senders, h.room, fun x hx => h.genuine x (List.mem_of_mem_erase hx)⟩
  have hwired₁ : W.Wired s₁ := hwired
  obtain ⟨hgenuine, hknown⟩ := h.genuine _ hmem
  obtain ⟨htakes, hevents⟩ := P2pNode.takes_onMessage (h.room i) l fromPeer hgenuine hknown
  have hmoves := htakes.moves (s := s₁) hwired₁ ((s.nodes i).onMessage (W.env l) fromPeer message).2.events
  refine ⟨h₁.move htakes (P2pNode.keepsTable_onMessage message).2.2.1 hknown _, ?_, hmoves.has, fun j y => ?_⟩
  · have herase : W.flooding s₁ = _ := flooding_erase hmem
    cases hitem : W.itemOf message with
    | none =>
      rw [Wiring.packetOf, hitem, Option.map_none, Option.elim_none] at herase
      refine .inl ((hmoves.same ?_).trans herase)
      rw [hitem]
      nofun
    | some x =>
      rw [Wiring.packetOf, hitem, Option.map_some, Option.elim_some] at herase
      have htransit : (fromPeer, i, x) ∈ (W.flooding s).transit := by
        refine Multiset.mem_coe.mpr (List.mem_filterMap.mpr ⟨_, hmem, ?_⟩)
        rw [Wiring.packetOf, hitem, Option.map_some]
      rw [hitem] at hmoves
      refine .inr ?_
      by_cases hold : (s.nodes i).Has x
      · rw [show W.flooding s' = W.flooding s₁ from hmoves.same fun y hy => Option.some_inj.mp hy ▸ hold, herase]
        exact .drop fromPeer i x htransit hold
      · rw [show W.flooding s' = _ from hmoves.learn x rfl hold, herase]
        have htargets : ((s₁.links i).filter fun j => some fromPeer ≠ some j) = (s.links i).erase fromPeer := by
          ext j
          simp only [ne_eq, Option.some.injEq, Finset.mem_filter, Finset.mem_erase, eq_comm (a := fromPeer)]
          exact and_comm
        rw [htargets]
        exact .receive fromPeer i x htransit hold
  · rw [hannounced]
    have hreports : W.Reports s' j y ↔ _ := reports_move
    rw [hreports]
    simp only [reduceCtorEq, false_or]
    exact or_congr Iff.rfl (and_congr Iff.rfl (hevents y))

theorem Floods.wired (h : Floods W known s₀ s) (hwired : W.Wired s₀) : W.Wired s :=
  fun i peerId sender hlookup => hwired i peerId sender (h.senders i ▸ hlookup)

theorem Floods.step (h : Floods W known s₀ s) (hwired : W.Wired s₀) (hlinks : l.action.KeepsLinks)
    (hread : W.ReadsBack l.action) (hknown : ∀ i x, W.announced l.action = some (i, x) → x.2 ∈ known x.1)
    (hl : W.step? s l = some s') : Floods W known s₀ s' ∧ ∃ i item, Advances W s s' l i item := by
  have hwired := h.wired hwired
  unfold Wiring.step? at hl
  cases haction : l.action with
  | peerConnected | peerDisconnected =>
    rw [haction] at hlinks
    exact hlinks.elim
  | deliver fromPeer i message =>
    rw [haction] at hl
    dsimp only at hl
    split_ifs at hl with hmem
    cases hl
    obtain ⟨hfloods, hadv⟩ := advances_deliver (l := l) h hwired hmem (by rw [haction]; rfl)
    exact ⟨hfloods, i, _, hadv⟩
  | broadcastBlock i block =>
    rw [haction] at hl hread hknown
    obtain ⟨data, hdata⟩ := hread
    have htakes := P2pNode.takes_onNewBlock (fun m => (s.nodes i).broadcastWire (W.env l) m none) (h.room i)
      hdata (hknown i _ rfl) (s.nodes i).peerManager
    cases hl
    obtain ⟨hfloods, hadv⟩ := advances_announce h hwired htakes rfl (hknown i _ rfl) (by rw [haction]; rfl)
    exact ⟨hfloods, i, _, hadv⟩
  | broadcastTx i tx =>
    rw [haction] at hl hread hknown
    obtain ⟨data, hdata⟩ := hread
    have htakes := P2pNode.takes_onNewTx (fun m => (s.nodes i).broadcastWire (W.env l) m none) (h.room i)
      hdata (hknown i _ rfl) (s.nodes i).peerManager
    cases hl
    obtain ⟨hfloods, hadv⟩ := advances_announce h hwired htakes rfl (hknown i _ rfl) (by rw [haction]; rfl)
    exact ⟨hfloods, i, _, hadv⟩
  | broadcastConsensusMsg i msg =>
    rw [haction] at hl hread hknown
    obtain ⟨data, hdata⟩ := hread
    have hannounced : W.announced (.broadcastConsensusMsg i msg) = some (i, W.consensusItem data) := by
      rw [Wiring.announced, hdata.1]
      rfl
    have htakes := P2pNode.takes_broadcastConsensusMsg (h.room i) l hdata (hknown i _ hannounced)
    have hsenders : ((s.nodes i).broadcastConsensusMsg (W.env l) W.consensusToVec msg).1.peerSenders =
        (s.nodes i).peerSenders := by
      unfold P2pNode.broadcastConsensusMsg
      split <;> rfl
    cases hl
    obtain ⟨hfloods, hadv⟩ := advances_announce h hwired htakes hsenders (hknown i _ hannounced)
      (by rw [haction, hannounced])
    exact ⟨hfloods, i, _, hadv⟩

/-- What a run from `s₀` has come to: a flooded state, in which the nodes know what they have broadcast or reported. -/
structure Flooded (W : Wiring) (known : Kind → Finset B256) (s₀ : P2pNet) (ls : List P2pLabel) (s : P2pNet) : Prop where
  floods : Floods W known s₀ s
  inv : Flooding.Inv s₀.links (W.flooding s)
  has : ∀ j y, (s.nodes j).Has y ↔ (∃ l ∈ ls, W.announced l.action = some (j, y)) ∨ W.Reports s j y

/-- The nodes have seen nothing yet and nothing is on its way; there is room for all hashes of `known`. -/
structure P2pNet.Fresh (W : Wiring) (known : Kind → Finset B256) (s : P2pNet) : Prop where
  wired : W.Wired s
  size : ∀ i kind, (known kind).card ≤ ((s.nodes i).cache kind).maxSize
  seen : ∀ i kind, ((s.nodes i).cache kind).seen = ∅
  wire : s.wire = []
  sent : s.sent = []
  events : s.events = []

/-- A run in which the connections stay and every broadcast is of a known hash and reads back. -/
def Wiring.Floodable (W : Wiring) (known : Kind → Finset B256) (ls : List P2pLabel) : Prop :=
  ∀ l ∈ ls, l.action.KeepsLinks ∧ W.ReadsBack l.action ∧
    ∀ i x, W.announced l.action = some (i, x) → x.2 ∈ known x.1

variable {ls : List P2pLabel}

theorem flooded_of_run (hfresh : s₀.Fresh W known) (hls : W.Floodable known ls) (hrun : Run.exec W.step? s₀ ls = some s) :
    Flooded W known s₀ ls s := by
  induction ls using List.reverseRecOn generalizing s with
  | nil =>
    obtain rfl := Option.some_inj.mp hrun
    have hnot : ∀ j y, ¬ (s₀.nodes j).Has y := fun j y hy => by
      rw [P2pNode.Has, hfresh.seen] at hy
      exact Finset.notMem_empty _ hy
    have hempty : W.flooding s₀ = ⟨fun _ => ∅, 0, 0⟩ := by
      simp only [Wiring.flooding, hnot, hfresh.wire, hfresh.sent]
      rfl
    refine ⟨⟨fun _ => rfl, fun i => ⟨hfresh.size i, fun kind => ?_⟩, ?_⟩, hempty ▸ Flooding.inv_start _, fun j y => ?_⟩
    · rw [hfresh.seen]
      exact Finset.empty_subset _
    · rw [hfresh.wire]
      nofun
    · simp [hnot, Wiring.Reports, hfresh.events]
  | append_singleton ls l ih =>
    obtain ⟨m, hm, hl⟩ := Run.exec_concat.mp hrun
    have h := ih (fun l hmem => hls l (List.mem_append_left _ hmem)) hm
    obtain ⟨hlinks, hread, hknown⟩ := hls l (List.mem_append_right _ (List.mem_singleton_self l))
    obtain ⟨hfloods, i, item, hadv⟩ := h.floods.step hfresh.wired hlinks hread hknown hl
    have hsame : m.links = s₀.links := by
      funext j
      rw [P2pNet.links, h.floods.senders, P2pNet.links]
    refine ⟨hfloods, ?_, fun j y => ?_⟩
    · rcases hadv.step with heq | hstep
      · rw [heq]
        exact h.inv
      · exact (hsame ▸ hstep).inv h.inv
    · simp only [List.mem_append, List.mem_singleton, or_and_right, exists_or, exists_eq_left]
      rw [hadv.has, h.has, or_assoc, or_assoc, hadv.told]

/-- Once an item is no longer on its way, everybody who can be reached from a node that broadcast it or got it has
broadcast it or got it too. -/
theorem flood_reaches (W : Wiring) (known : Kind → Finset B256) (s₀ s : P2pNet) (ls : List P2pLabel)
    (hfresh : s₀.Fresh W known) (hls : W.Floodable known ls) (hrun : Run.exec W.step? s₀ ls = some s) (x : Item)
    (hquiet : ∀ letter ∈ s.wire, W.itemOf letter.2.2 ≠ some x) (i j : UInt64)
    (hpath : Relation.ReflTransGen (fun a b => ∃ sender, (s₀.nodes a).peerSenders.lookup b = some sender) i j)
    (hi : (∃ l ∈ ls, W.announced l.action = some (i, x)) ∨ W.Reports s i x) :
    (∃ l ∈ ls, W.announced l.action = some (j, x)) ∨ W.Reports s j x := by
  have h := flooded_of_run hfresh hls hrun
  have hlinks : Relation.ReflTransGen (fun a b => b ∈ s₀.links a) i j := by
    simpa only [P2pNet.mem_links] using hpath
  refine (h.has j x).mp (h.inv.closed (fun p hp => ?_) ((h.has i x).mpr hi) hlinks)
  obtain ⟨letter, hletter, hp⟩ := List.mem_filterMap.mp (Multiset.mem_coe.mp hp)
  obtain ⟨item, hitem, rfl⟩ := Option.map_eq_some_iff.mp hp
  rintro rfl
  exact hquiet letter hletter hitem

/-- Nobody sends an item twice over one connection, so that there are no more packets than connections times items. -/
theorem flood_once (W : Wiring) (known : Kind → Finset B256) (s₀ s : P2pNet) (ls : List P2pLabel)
    (hfresh : s₀.Fresh W known) (hls : W.Floodable known ls) (hrun : Run.exec W.step? s₀ ls = some s)
    (V : Finset UInt64) (hV : ∀ i, (s₀.nodes i).peerSenders.keys ≠ [] → i ∈ V) :
    (s.sent.filterMap W.packetOf).Nodup ∧
      (s.sent.filterMap W.packetOf).length ≤
        (∑ i ∈ V, (s₀.nodes i).peerSenders.keys.length) * ∑ kind ∈ kinds, (known kind).card := by
  have h := flooded_of_run hfresh hls hrun
  have hlinks : ∀ i, (s₀.links i).card = (s₀.nodes i).peerSenders.keys.length := fun i =>
    List.toFinset_card_of_nodup (AList.keys_nodup _)
  have hcard := h.inv.card_sent_le (V := V) (K := (kinds.sigma known).map (Equiv.sigmaEquivProd Kind B256).toEmbedding)
    (fun i hi => hV i ?_) (fun p hp => ?_)
  · simp only [hlinks, Finset.card_map, Finset.card_sigma] at hcard
    exact ⟨Multiset.coe_nodup.mp h.inv.once, hcard⟩
  · rintro hnil
    rw [P2pNet.links, hnil] at hi
    exact Finset.not_nonempty_empty hi
  · refine Finset.mem_map.mpr ⟨⟨p.2.2.1, p.2.2.2⟩, Finset.mem_sigma.mpr ⟨mem_kinds _, ?_⟩, rfl⟩
    exact (h.floods.room p.1).seen _ (h.inv.link p hp).2

/-! ### A vote between two nodes -/

/-- Node 1 broadcasts the vote, and node 2 gets it. -/
def voteRun : List P2pLabel :=
  [⟨.broadcastConsensusMsg 1 (.prevote 1 0 none 1), 0, .stored⟩, ⟨.deliver 1 2 (.consensusMsg voteData), 0, .stored⟩]

/-- The hash of the vote. -/
def voteKnown : Kind → Finset B256
  | .consensus => {twoWiring.sha256 voteData}
  | _ => ∅

theorem fresh_twoNodes : twoNodes.Fresh twoWiring voteKnown where
  wired i peerId sender h := by
    simp only [twoNodes] at h
    split_ifs at h with h1 h2
    · have hkey : peerId ∈ (AList.singleton 2 0 : HashMap UInt64 Sender) := AList.lookup_isSome.mp (h ▸ rfl)
      rw [AList.mem_keys, AList.keys_singleton, List.mem_singleton] at hkey
      rw [hkey, h1]
      rfl
    · have hkey : peerId ∈ (AList.singleton 1 0 : HashMap UInt64 Sender) := AList.lookup_isSome.mp (h ▸ rfl)
      rw [AList.mem_keys, AList.keys_singleton, List.mem_singleton] at hkey
      rw [hkey, h2]
      rfl
    · cases h
  size i kind := by
    have hmax : ((twoNodes.nodes i).cache kind).maxSize = 1024 := by cases kind <;> rfl
    rw [hmax]
    cases kind <;> decide
  seen i kind := by
    cases kind <;> rfl
  wire := rfl
  sent := rfl
  events := rfl

theorem floodable_voteRun : twoWiring.Floodable voteKnown voteRun := by
  intro l hl
  rcases List.mem_pair.mp hl with rfl | rfl
  · refine ⟨trivial, ⟨voteData, rfl, rfl⟩, fun i x hx => ?_⟩
    cases hx
    exact Finset.mem_singleton_self _
  · exact ⟨trivial, trivial, nofun⟩

theorem flood_reaches_vote :
    ∃ s, Run.exec twoWiring.step? twoNodes voteRun = some s ∧
      ((∃ l ∈ voteRun, twoWiring.announced l.action = some (2, twoWiring.consensusItem voteData)) ∨
        twoWiring.Reports s 2 (twoWiring.consensusItem voteData)) := by
  have hwire : (Run.exec twoWiring.step? twoNodes voteRun).any (fun s => s.wire.length = 0) = true := by decide +kernel
  cases hs : Run.exec twoWiring.step? twoNodes voteRun with
  | none =>
    rw [hs] at hwire
    cases hwire
  | some s =>
    rw [hs] at hwire
    have hnil : s.wire = [] := List.eq_nil_of_length_eq_zero (of_decide_eq_true hwire)
    refine ⟨s, rfl, flood_reaches twoWiring voteKnown twoNodes s voteRun fresh_twoNodes floodable_voteRun hs
      (twoWiring.consensusItem voteData) (by rw [hnil]; nofun) 1 2 (.single ⟨0, rfl⟩) (.inl ?_)⟩
    exact ⟨_, List.mem_cons_self, rfl⟩

theorem flood_once_vote :
    ∃ s, Run.exec twoWiring.step? twoNodes voteRun = some s ∧ (s.sent.filterMap twoWiring.packetOf).length ≤ 2 := by
  cases hs : Run.exec twoWiring.step? twoNodes voteRun with
  | none =>
    have hsome : (Run.exec twoWiring.step? twoNodes voteRun).isSome = true := by decide +kernel
    rw [hs] at hsome
    cases hsome
  | some s =>
    have h := flood_once twoWiring voteKnown twoNodes s voteRun fresh_twoNodes floodable_voteRun hs {1, 2} ?_
    · exact ⟨s, rfl, h.2⟩
    · intro i hi
      by_contra hmem
      obtain ⟨h1, h2⟩ := not_or.mp (fun hor => hmem (Finset.mem_insert.mpr (hor.imp id Finset.mem_singleton.mpr)))
      simp only [twoNodes, h1, h2, if_false] at hi
      exact hi rfl

end P2p
end Eth2077
