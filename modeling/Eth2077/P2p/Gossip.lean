import Mathlib.Data.Finset.Card
import Eth2077.P2p.Codec
import Eth2077.Types.Canonical

/-!
# Gossip (`p2p/src/gossip.rs`, the relay cache of `node.rs`)

Blocks, transactions and consensus messages are each relayed once, as long as their hash is remembered.
The three caches have one form: a set, and the queue of its elements.
-/

namespace Eth2077

namespace P2p

/-- A set of hashes with the order of their arrival. -/
structure RelayCache where
  maxSize : ℕ
  seen : Finset B256
  order : List B256
  nodup : order.Nodup
  contents : order.toFinset = seen

namespace RelayCache

def new (maxSize : ℕ) : RelayCache := ⟨maxSize, ∅, [], List.nodup_nil, rfl⟩

/-- The loop that drops the oldest hashes. The queue cannot run out first, as it holds what the set holds. -/
def evict (c : RelayCache) : RelayCache :=
  if hfull : c.maxSize < c.seen.card then
    match horder : c.order with
    | [] => absurd hfull (by simp [← c.contents, horder])
    | oldest :: order =>
      evict
        { c with
          seen := c.seen.erase oldest
          order := order
          nodup := (List.nodup_cons.mp (horder ▸ c.nodup)).2
          contents := by
            have hnew := (List.nodup_cons.mp (horder ▸ c.nodup)).1
            rw [← c.contents, horder, List.toFinset_cons, Finset.erase_insert (by simpa using hnew)] }
  else c
termination_by c.order.length
decreasing_by simp [horder]

/-- Returns whether the hash is new. -/
def shouldRelay (c : RelayCache) (hash : B256) : Bool × RelayCache :=
  if h : hash ∈ c.seen then (false, c)
  else
    (true, evict
      { c with
        seen := insert hash c.seen
        order := c.order ++ [hash]
        nodup := by
          have : hash ∉ c.order := by rwa [← List.mem_toFinset, c.contents]
          exact List.nodup_append_comm.mp (List.nodup_cons.mpr ⟨this, c.nodup⟩)
        contents := by rw [List.toFinset_append, c.contents, Finset.union_comm]; rfl })

end RelayCache

structure GossipEngine where
  blocks : RelayCache
  txs : RelayCache

/-- `serde_json` for the payloads of wire messages. -/
structure PayloadJson (ConsensusMessage : Type) where
  blockToVec : Block → Except String (List UInt8)
  blockFromSlice : List UInt8 → Except String Block
  txToVec : Transaction → Except String (List UInt8)
  txFromSlice : List UInt8 → Except String Transaction
  consensusFromSlice : List UInt8 → Except String ConsensusMessage

namespace GossipEngine

variable {M : Type} (json : PayloadJson M)

/-- `GossipEngine::default`. -/
def new : GossipEngine := ⟨.new 1024, .new 1024⟩

def onNewBlock (keccak256 : List UInt8 → B256) (g : GossipEngine) (block : Block) :
    Option WireMessage × GossipEngine :=
  let (fresh, blocks) := g.blocks.shouldRelay (block.hash keccak256)
  let g := { g with blocks }
  if !fresh then (none, g)
  else
    match json.blockToVec block with
    | .error _ => (none, g)
    | .ok blockData => (some (.newBlock block.number blockData), g)

def onNewTx (g : GossipEngine) (tx : Transaction) : Option WireMessage × GossipEngine :=
  let (fresh, txs) := g.txs.shouldRelay tx.hash
  let g := { g with txs }
  if !fresh then (none, g)
  else
    match json.txToVec tx with
    | .error _ => (none, g)
    | .ok txData => (some (.newTransaction txData), g)

end GossipEngine

end P2p

end Eth2077
