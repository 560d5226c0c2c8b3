import Eth2077.Lib.FifoSet
import Eth2077.Lib.Runs
import Eth2077.P2p.Gossip

/-!
# What the relay caches remember (`p2p/src/gossip.rs`, `ConsensusRelayCache` of `node.rs`)

The caches as the source has them, a set and a queue each, with nothing said of how the two hang together, and their
eviction loops with a bound on the number of turns. Along every run of calls one turn is enough, and a hash is relayed
unless it is one of the last that were.
-/

namespace Eth2077
namespace P2p
namespace Raw

structure GossipConfig where
  seenCacheSize : ℕ

structure GossipEngine where
  config : GossipConfig
  -- `seen_blocks` and `seen_block_order`, `seen_txs` and `seen_tx_order`
  blocks : FifoSet B256
  txs : FifoSet B256

structure ConsensusRelayCache where
  cache : FifoSet B256
  maxSize : ℕ

namespace GossipEngine

def new (config : GossipConfig) : GossipEngine := ⟨config, .empty, .empty⟩

/-- If `evict_old_blocks` ends within `fuel` turns of its loop. -/
def shouldRelayBlock (fuel : ℕ) (g : GossipEngine) (hash : B256) : Option (Bool × GossipEngine) :=
  (g.blocks.offer g.config.seenCacheSize fuel hash).map fun r => (r.1, { g with blocks := r.2 })

def shouldRelayTx (fuel : ℕ) (g : GossipEngine) (hash : B256) : Option (Bool × GossipEngine) :=
  (g.txs.offer g.config.seenCacheSize fuel hash).map fun r => (r.1, { g with txs := r.2 })

end GossipEngine

namespace ConsensusRelayCache

def new (maxSize : ℕ) : ConsensusRelayCache := ⟨.empty, maxSize⟩

def shouldRelay (sha256 : List UInt8 → B256) (fuel : ℕ) (c : ConsensusRelayCache) (payload : List UInt8) :
    Option (Bool × ConsensusRelayCache) :=
  (c.cache.offer c.maxSize fuel (sha256 payload)).map fun r => (r.1, { c with cache := r.2 })

end ConsensusRelayCache

/-! ### Runs -/

/-- A call of the engine. -/
inductive GossipCall where
  | shouldRelayBlock (hash : B256)
  | shouldRelayTx (hash : B256)

def GossipEngine.call (fuel : ℕ) (g : GossipEngine) : GossipCall → Option (Bool × GossipEngine)
  | .shouldRelayBlock hash => g.shouldRelayBlock fuel hash
  | .shouldRelayTx hash => g.shouldRelayTx fuel hash

/-- A state with the calls and their answers so far. -/
def record {S L : Type} (call : S → L → Option (Bool × S)) (m : S × List (L × Bool)) (l : L) :
    Option (S × List (L × Bool)) :=
  (call m.1 l).map fun r => (r.2, m.2 ++ [(l, r.1)])

def GossipCall.blockHash : GossipCall → Option B256
  | .shouldRelayBlock hash => some hash
  | .shouldRelayTx _ => none

def GossipCall.txHash : GossipCall → Option B256
  | .shouldRelayBlock _ => none
  | .shouldRelayTx hash => some hash

/-- The answers to the calls that have a hash of the kind. -/
def answers (hash : GossipCall → Option B256) (t : List (GossipCall × Bool)) : List (B256 × Bool) :=
  t.filterMap fun x => (hash x.1).map fun h => (h, x.2)

/-- A run of calls that keeps `I` ends, with an answer to each. -/
theorem exec_record {S L : Type} {call : S → L → Option (Bool × S)} (I : S → List (L × Bool) → Prop)
    (hstep : ∀ s t l, I s t → ∃ b s', call s l = some (b, s') ∧ I s' (t ++ [(l, b)])) {s : S} {t : List (L × Bool)}
    (h : I s t) (ls : List L) :
    ∃ s' t', Run.exec (record call) (s, t) ls = some (s', t ++ t') ∧ t'.map Prod.fst = ls ∧ I s' (t ++ t') := by
  induction ls generalizing s t with
  | nil => exact ⟨s, [], by rw [List.append_nil]; rfl, rfl, by rwa [List.append_nil]⟩
  | cons l ls ih =>
    obtain ⟨b, s', hcall, hI⟩ := hstep s t l h
    obtain ⟨s'', t', hexec, hls, hI'⟩ := ih hI
    refine ⟨s'', (l, b) :: t', ?_, by rw [List.map_cons, hls], ?_⟩
    · have hrecord : record call (s, t) l = some (s', t ++ [(l, b)]) := by rw [record, hcall]; rfl
      rw [Run.exec, hrecord, Option.bind_some, hexec, List.append_assoc, List.singleton_append]
    · rwa [List.append_assoc, List.singleton_append] at hI'

/-- Both caches of an engine follow the answers it has given. -/
structure GossipEngine.Follows (config : GossipConfig) (g : GossipEngine) (t : List (GossipCall × Bool)) : Prop where
  configured : g.config = config
  blocks : FifoSet.Follows config.seenCacheSize (answers GossipCall.blockHash t) g.blocks
  txs : FifoSet.Follows config.seenCacheSize (answers GossipCall.txHash t) g.txs

variable {config : GossipConfig} {g : GossipEngine} {t : List (GossipCall × Bool)}

theorem GossipEngine.Follows.call (h : g.Follows config t) (fuel : ℕ) (c : GossipCall) :
    ∃ b g', g.call (fuel + 1) c = some (b, g') ∧ g'.Follows config (t ++ [(c, b)]) := by
  cases c with
  | shouldRelayBlock hash =>
    obtain ⟨b, blocks, hoffer, hblocks⟩ := h.blocks.offer fuel hash
    refine ⟨b, { g with blocks := blocks }, ?_, h.configured, ?_, ?_⟩
    · show (g.blocks.offer g.config.seenCacheSize (fuel + 1) hash).map _ = _
      rw [h.configured, hoffer]
      rfl
    · rw [answers, List.filterMap_append]
      exact hblocks
    · rw [answers, List.filterMap_append]
      exact (List.append_nil (answers GossipCall.txHash t)).symm ▸ h.txs
  | shouldRelayTx hash =>
    obtain ⟨b, txs, hoffer, htxs⟩ := h.txs.offer fuel hash
    refine ⟨b, { g with txs := txs }, ?_, h.configured, ?_, ?_⟩
    · show (g.txs.offer g.config.seenCacheSize (fuel + 1) hash).map _ = _
      rw [h.configured, hoffer]
      rfl
    · rw [answers, List.filterMap_append]
      exact (List.append_nil (answers GossipCall.blockHash t)).symm ▸ h.blocks
    · rw [answers, List.filterMap_append]
      exact htxs

/-- The cache follows the answers it has given. -/
structure ConsensusRelayCache.Follows (sha256 : List UInt8 → B256) (maxSize : ℕ) (c : ConsensusRelayCache)
    (t : List (List UInt8 × Bool)) : Prop where
  size : c.maxSize = maxSize
  cache : FifoSet.Follows maxSize (t.map fun x => (sha256 x.1, x.2)) c.cache

theorem ConsensusRelayCache.Follows.shouldRelay {sha256 : List UInt8 → B256} {maxSize : ℕ} {c : ConsensusRelayCache}
    {t : List (List UInt8 × Bool)} (h : c.Follows sha256 maxSize t) (fuel : ℕ) (payload : List UInt8) :
    ∃ b c', c.shouldRelay sha256 (fuel + 1) payload = some (b, c') ∧ c'.Follows sha256 maxSize (t ++ [(payload, b)]) := by
  obtain ⟨b, cache, hoffer, hcache⟩ := h.cache.offer fuel (sha256 payload)
  refine ⟨b, { c with cache := cache }, ?_, h.size, ?_⟩
  · rw [ConsensusRelayCache.shouldRelay, h.size, hoffer]
    rfl
  · rw [List.map_append]
    exact hcache

/-- One turn is enough for every eviction loop; what each cache remembers are the last hashes it has let pass, each
once, and it stops the others. -/
theorem relay_caches_remember_last (sha256 : List UInt8 → B256) (fuel : ℕ) :
    (∀ config calls, ∃ g t,
      Run.exec (record (GossipEngine.call (fuel + 1))) (.new config, []) calls = some (g, t) ∧
      t.map Prod.fst = calls ∧ g.Follows config t) ∧
    ∀ maxSize payloads, ∃ c t,
      Run.exec (record (ConsensusRelayCache.shouldRelay sha256 (fuel + 1))) (.new maxSize, []) payloads = some (c, t) ∧
      t.map Prod.fst = payloads ∧ c.Follows sha256 maxSize t := by
  constructor
  · intro config calls
    exact exec_record (GossipEngine.Follows config) (fun g t c h => h.call fuel c)
      ⟨rfl, FifoSet.follows_empty, FifoSet.follows_empty⟩ calls
  · intro maxSize payloads
    exact exec_record (ConsensusRelayCache.Follows sha256 maxSize) (fun c t payload h => h.shouldRelay fuel payload)
      ⟨rfl, FifoSet.follows_empty⟩ payloads

end Raw

/-! ### The caches that cannot run dry -/

namespace RelayCache
variable {c : RelayCache} {fuel : ℕ}

/-- What is in a cache. -/
def fifo (c : RelayCache) : FifoSet B256 := ⟨c.seen, c.order⟩

theorem fifo_eq (c : RelayCache) : c.fifo = .ofList c.order := by
  rw [fifo, FifoSet.ofList, c.contents]

theorem card_seen (c : RelayCache) : c.seen.card = c.order.length := by
  rw [← c.contents, List.toFinset_card_of_nodup c.nodup]

theorem order_evict (c : RelayCache) : c.evict.order = c.order.rtake c.maxSize := by
  fun_induction evict c with
  | case1 c hfull oldest order horder ih =>
    have hlen : c.maxSize < c.order.length := c.card_seen ▸ hfull
    rw [ih, ← FifoSet.rtake_tail hlen, horder]
    rfl
  | case2 c hfull =>
    rw [card_seen, not_lt] at hfull
    exact (FifoSet.rtake_of_length_le hfull).symm

/-- Where the loop of the source ends, it leaves what `evict` leaves. -/
theorem evict_fifo (h : c.order.length ≤ c.maxSize + fuel) :
    FifoSet.evict c.maxSize fuel c.fifo = some c.evict.fifo := by
  rw [fifo_eq, fifo_eq, FifoSet.evict_ofList c.nodup h, order_evict]

theorem shouldRelay_new {hash : B256} (h : hash ∉ c.seen) : ∃ c' : RelayCache,
    c.shouldRelay hash = (true, c'.evict) ∧ c'.maxSize = c.maxSize ∧
      c'.fifo = ⟨insert hash c.seen, c.order ++ [hash]⟩ := by
  unfold shouldRelay
  rw [dif_neg h]
  exact ⟨_, rfl, rfl, rfl⟩

theorem shouldRelay_fifo (h : c.order.length ≤ c.maxSize + fuel) (hash : B256) :
    c.fifo.offer c.maxSize (fuel + 1) hash = some ((c.shouldRelay hash).1, (c.shouldRelay hash).2.fifo) := by
  unfold FifoSet.offer
  by_cases hold : hash ∈ c.seen
  · rw [shouldRelay, dif_pos hold]
    exact if_pos hold
  · obtain ⟨c', hnew, hsize, hfifo⟩ := shouldRelay_new hold
    have hlen : c'.order.length ≤ c'.maxSize + (fuel + 1) := by
      rw [show c'.order = c.order ++ [hash] from congrArg FifoSet.order hfifo, List.length_append, List.length_singleton,
        hsize]
      omega
    rw [hnew, if_neg (show hash ∉ c.fifo.seen from hold), ← hsize]
    show (FifoSet.evict _ _ ⟨insert hash c.seen, c.order ++ [hash]⟩).map _ = _
    rw [← hfifo, evict_fifo hlen]
    rfl

end RelayCache

end P2p
end Eth2077
