import Eth2077.Oob.NetworkInv

/-!
# Agreement with the fast path on

All `3f + 1` members are correct and the fast path waits for every one of them. A node that has seen
all prevotes of a round finalises at once, but the others need not have locked when they leave that
round, and then nothing keeps them from finalising another block (`fast_path_splits`). If less than
a quorum of nodes leaves such a round without a lock, the two paths agree (`fast_engines_agree`).
-/

namespace Eth2077
open LockedVoting ConsensusEngine

namespace ValidatorSet
variable {vs : ValidatorSet}

theorem weightSum_of_unit (hw : ∀ v ∈ vs.validators, v.weight = 1) : vs.weightSum = vs.len := by
  unfold weightSum len
  rw [List.map_congr_left fun v hv => congrArg UInt64.toNat (hw v hv)]
  simp

theorem len_le (hd : vs.DistinctIndices) : vs.len ≤ 2 ^ 64 := by
  rw [← card_indices hd, ← Finset.card_range (2 ^ 64)]
  refine Finset.card_le_card_of_injOn UInt64.toNat (fun i _ => ?_) fun i _ j _ h => UInt64.toNat_inj.mp h
  exact Finset.mem_coe.mpr (Finset.mem_range.mpr i.toNat_lt)

/-- Two quorums of `3f + 1` unit members overlap, also where their number saturates the total. -/
theorem unit_quorum {f : ℕ} (hd : vs.DistinctIndices) (hw : ∀ v ∈ vs.validators, v.weight = 1)
    (hn : vs.len = 3 * f + 1) :
    vs.weights.total < 2 * vs.quorumWeight.toNat ∧ vs.quorumWeight.toNat ≤ vs.weights.total := by
  have hlen := len_le hd
  have htotal : vs.weights.total = vs.len := (weights_total hd).trans (weightSum_of_unit hw)
  have hq : vs.quorumWeight.toNat = 2 * ((min vs.len UInt64.maxNat - 1) / 3) + 1 := by
    rw [toNat_quorumWeight, toNat_totalWeight, weightSum_of_unit hw]
  rw [htotal, hq, UInt64.maxNat]
  omega

end ValidatorSet

/-! ### Rounds that are finalised by the fast path and left without a lock -/

/-- A timeout that moves an engine without a lock out of round `r`. -/
def LogEntry.leavesUnlocked (entry : LogEntry) (r : UInt32) : Bool :=
  match entry.call with
  | .onTimeout => entry.before.state.round == r && entry.before.state.step != .committed &&
      entry.before.state.lockedHash.isNone && decide (r.toNat < UInt32.maxNat)
  | _ => false

/-- The delivery of a prevote for `h` to an engine that has those of all other members of `vs`. -/
def LogEntry.LastPrevote (entry : LogEntry) (vs : ValidatorSet) (r : UInt32) : Prop :=
  ∃ ord height h v, entry.call = .onMessage ord (.prevote height r (some h) v) ∧
    entry.before.state.round = r ∧
    ∀ u ∈ vs.indices, u ≠ v → entry.before.state.prevotes.lookup (r, u) = some (some h)

namespace Net

def unlockedLeavers (s : Net) (r : UInt32) : Finset UInt64 :=
  ((s.log.filter fun entry => entry.leavesUnlocked r).map (·.node)).toFinset

/-- Where an engine has seen all prevotes of a round, less than a quorum leaves it without a lock. -/
def FastRoundsHold (vs : ValidatorSet) (s : Net) : Prop :=
  ∀ r, (∃ entry ∈ s.log, entry.LastPrevote vs r) → vs.weights.of (s.unlockedLeavers r) < vs.quorumWeight.toNat

end Net

namespace Network

/-- The leader of a round makes one proposal; all votes are the engines' own. -/
def oneProposal (prop : UInt32 → B256) : ConsensusMessage → Bool
  | .proposal _ round blockHash _ => blockHash == prop round
  | _ => false

def allHonest (vs : ValidatorSet) (cfg : FastPathConfig) (height : UInt64) (prop : UInt32 → B256) : Network where
  validatorSet := vs
  fastPathConfig := cfg
  height := height
  byzantine := ∅
  external := oneProposal prop

variable {vs : ValidatorSet} {cfg : FastPathConfig} {height : UInt64} {prop : UInt32 → B256} {s : Net}

theorem authentic_allHonest : (allHonest vs cfg height prop).Authentic := by
  intro msg v hext hv
  cases msg with
  | proposal => cases hv
  | prevote | precommit => cases hext

theorem quorumsMeet_allHonest (ht : vs.weights.total < 2 * vs.quorumWeight.toNat) :
    (allHonest vs cfg height prop).QuorumsMeet := by
  show vs.weights.total + vs.weights.of ∅ < 2 * vs.quorumWeight.toNat
  simpa [WeightedQuorum.Weights.of] using ht

theorem proposed_unique {r : ℕ} {h h' : B256} (h1 : (allHonest vs cfg height prop).Proposed r h)
    (h2 : (allHonest vs cfg height prop).Proposed r h') : h = h' := by
  obtain ⟨_, r₁, _, rfl, he₁⟩ := h1
  obtain ⟨_, r₂, _, hr, he₂⟩ := h2
  obtain rfl := UInt32.toNat_inj.mp hr
  rw [eq_of_beq he₁, eq_of_beq he₂]

theorem mem_honest {v : UInt64} : v ∈ (allHonest vs cfg height prop).honest ↔ v ∈ vs.indices := by
  show v ∈ vs.indices \ ∅ ↔ _
  rw [Finset.sdiff_empty]

section
variable {hm : (allHonest vs cfg height prop).QuorumsMeet} (hinv : NetInv hm s)
include hinv

theorem NetInv.of_deliverable {r : UInt32} {v : UInt64} {h : B256}
    (hdel : (allHonest vs cfg height prop).Deliverable s.sent (.prevote height r (some h) v)) :
    v ∈ vs.indices ∧ .prevote v r.toNat h ∈ history s.sent := by
  rcases hdel with hsent | hext
  · obtain ⟨u, hu, hv⟩ := hinv.votes _ hsent
    cases hv
    exact ⟨mem_honest.mp hu, mem_history_of_prevote hsent⟩
  · cases hext

theorem NetInv.of_lookup {e : ConsensusEngine} (hok : EngineOk (allHonest vs cfg height prop) s.sent e)
    {r : UInt32} {v : UInt64} {h : B256} (hl : e.state.prevotes.lookup (r, v) = some (some h)) :
    v ∈ vs.indices ∧ .prevote v r.toNat h ∈ history s.sent := by
  have hdel := hok.stored.prevotes r v _ hl
  rw [show e.state.height = height from hok.height] at hdel
  exact hinv.of_deliverable hdel

/-- A fast finalisation means that every member has prevoted the block, and the prevote just delivered
was the last to arrive. -/
theorem NetInv.fast_unanimous (hd : vs.DistinctIndices) (hthr : cfg.optimisticThreshold = vs.len)
    {entry : LogEntry} (hmem : entry ∈ s.log) {h : B256} {r : UInt32} {ord : TallyOrder} {v : UInt64}
    (hcall : entry.call = .onMessage ord (.prevote height r (some h) v)) (hround : entry.before.state.round = r)
    {A : Finset UInt64} (hcard : cfg.optimisticThreshold ≤ A.card)
    (hA : ∀ u ∈ A, (entry.before.storePrevote (some h) v).HasPrevote u h) :
    entry.LastPrevote vs r ∧ ∀ u ∈ vs.indices, .prevote u r.toNat h ∈ history s.sent := by
  have hent := hinv.log entry hmem
  have hself := hinv.of_deliverable (hent.message _ _ hcall)
  have hold : ∀ u ∈ A, u ≠ v → entry.before.state.prevotes.lookup (r, u) = some (some h) := by
    intro u hu huv
    have hp := hA u hu
    rcases Votes.lookup_insert_cases hp with ⟨hk, -⟩ | hp
    · exact absurd (congrArg Prod.snd hk) huv
    · rw [← hround]; exact hp
  have hsub : A ⊆ vs.indices := by
    intro u hu
    by_cases huv : u = v
    · rw [huv]; exact hself.1
    · exact (hinv.of_lookup hent.ok (hold u hu huv)).1
  have hAeq : A = vs.indices := by
    refine Finset.eq_of_subset_of_card_le hsub ?_
    rw [ValidatorSet.card_indices hd, ← hthr]; exact hcard
  subst hAeq
  refine ⟨⟨ord, height, h, v, hcall, hround, hold⟩, fun u hu => ?_⟩
  by_cases huv : u = v
  · rw [huv]; exact hself.2
  · exact (hinv.of_lookup hent.ok (hold u hu huv)).2

theorem NetInv.locked_of_left {r : UInt32} {r' : ℕ} {v : UInt64} {h' : B256} (hv : v ∈ vs.indices)
    (hU : v ∉ s.unlockedLeavers r) (hvote : .prevote v r' h' ∈ history s.sent) (hr : r.toNat < r') :
    ∃ r₁ h₁, r₁ ≤ r.toNat ∧ .precommit v r₁ h₁ ∈ history s.sent := by
  have hn := hinv.nodes v (mem_honest.mpr hv)
  have hle : r' ≤ (s.nodes v).engine.state.round.toNat := hn.rounds _ hvote rfl
  obtain ⟨entry, hmem, hnode, hcall, hround, hstep, hlocks⟩ := hn.left r (by omega)
  have hlt : r.toNat < UInt32.maxNat := by
    have := (s.nodes v).engine.state.round.toNat_le_maxNat
    omega
  cases hlh : entry.before.state.lockedHash with
  | none =>
    refine absurd (List.mem_toFinset.mpr (List.mem_map.mpr ⟨entry, List.mem_filter.mpr ⟨hmem, ?_⟩, hnode⟩)) hU
    simp [LogEntry.leavesUnlocked, hcall, hround, hstep, hlh, hlt]
  | some h₁ =>
    have hpair := (hinv.log entry hmem).ok.inv.pair
    rw [hlh, Option.isSome_some, eq_comm, Option.isSome_iff_exists] at hpair
    obtain ⟨r₁, hr₁⟩ := hpair
    exact ⟨_, h₁, hlocks r₁ h₁ ⟨hr₁, hlh⟩⟩

end

/-- The two paths agree in every run in which less than a quorum of nodes leaves, without a lock, a
round all of whose prevotes some node has seen. -/
theorem fast_engines_agree (vs : ValidatorSet) (cfg : FastPathConfig) (height : UInt64) (prop : UInt32 → B256)
    (f : ℕ) (hd : vs.DistinctIndices) (hw : ∀ v ∈ vs.validators, v.weight = 1) (hn : vs.len = 3 * f + 1)
    (hthr : cfg.optimisticThreshold = vs.len) (s : Net) (hs : (allHonest vs cfg height prop).Reachable s)
    (hfast : s.FastRoundsHold vs) (i j : UInt64) (h h' : B256) (r r' : UInt32)
    (hi : s.Finalized i height h r) (hj : s.Finalized j height h' r') : h = h' := by
  obtain ⟨hlt, hle⟩ := ValidatorSet.unit_quorum hd hw hn
  have hm : (allHonest vs cfg height prop).QuorumsMeet := quorumsMeet_allHonest hlt
  have hinv : NetInv hm s := hs.netInv authentic_allHonest hm
  have hp : ∀ r h h', ((allHonest vs cfg height prop).setting hm).Proposed r h →
      ((allHonest vs cfg height prop).setting hm).Proposed r h' → h = h' := fun _ _ _ => proposed_unique
  have hbacked : ∀ i h r, s.Finalized i height h r →
      ((allHonest vs cfg height prop).setting hm).PrecommitQuorum (history s.sent) r.toNat h ∨
        (∃ entry ∈ s.log, entry.LastPrevote vs r) ∧ ∀ u ∈ vs.indices, .prevote u r.toNat h ∈ history s.sent := by
    rintro i h r ⟨entry, hmem, -, hev⟩
    rcases (hinv.log entry hmem).finalized authentic_allHonest hev with
      hq | ⟨ord, v, hcall, hround, -, A, hcard, hA⟩
    · exact .inl hq
    · obtain ⟨hlast, hall⟩ := hinv.fast_unanimous hd hthr hmem hcall hround hcard hA
      exact .inr ⟨⟨entry, hmem, hlast⟩, hall⟩
  -- a unanimous round, seen as the abstract protocol sees it
  have hunan : ∀ {r : UInt32}, (∃ entry ∈ s.log, entry.LastPrevote vs r) →
      ((allHonest vs cfg height prop).setting hm).W.of (s.unlockedLeavers r) +
        ((allHonest vs cfg height prop).setting hm).W.of ∅ < vs.quorumWeight.toNat := by
    intro r hlast
    show vs.weights.of (s.unlockedLeavers r) + vs.weights.of ∅ < vs.quorumWeight.toNat
    simpa [WeightedQuorum.Weights.of] using hfast r hlast
  have hlock : ∀ (r : UInt32) v r' h', ((allHonest vs cfg height prop).setting hm).Correct v →
      v ∉ s.unlockedLeavers r → .prevote v r' h' ∈ history s.sent → r.toNat < r' →
      ∃ r₁ h₁, r₁ ≤ r.toNat ∧ .precommit v r₁ h₁ ∈ history s.sent :=
    fun r v r' h' hv hU hvote hr => hinv.locked_of_left (mem_honest.mp (correct_iff.mp hv)) hU hvote hr
  rcases hbacked i h r hi with h1 | ⟨hl1, h1⟩ <;> rcases hbacked j h' r' hj with h2 | ⟨hl2, h2⟩
  · exact hinv.justified.agreement h1 h2
  · exact Setting.Justified.unanimous_agreement hp (hunan hl2) hinv.justified
      (fun v hv => h2 v hv.1) (hlock r') hle h1
  · exact (Setting.Justified.unanimous_agreement hp (hunan hl1) hinv.justified
      (fun v hv => h1 v hv.1) (hlock r) hle h2).symm
  · rcases Nat.le_total r.toNat r'.toNat with hr | hr
    · exact (Setting.Justified.prevoteQuorum_of_unanimous hp (hunan hl1) hinv.justified
        (fun v hv => h1 v hv.1) (hlock r) hr ⟨vs.indices, hle, fun v hv _ => h2 v hv⟩).symm
    · exact Setting.Justified.prevoteQuorum_of_unanimous hp (hunan hl2) hinv.justified
        (fun v hv => h2 v hv.1) (hlock r') hr ⟨vs.indices, hle, fun v hv _ => h1 v hv⟩

def twoBlocks (r : UInt32) : B256 := if r = 0 then .repeatByte 1 else .repeatByte 2

def allPrevote : List Label :=
  [0, 1, 2, 3].map (fun i => Label.process i .stored) ++
  [0, 1, 2, 3].flatMap fun i => [.deliver i .stored (.proposal 1 0 (.repeatByte 1) 1), .process i .stored]

def lockWith (i j k : UInt64) (r : UInt32) (h : B256) : List Label :=
  [.deliver i .stored (.prevote 1 r (some h) j), .deliver i .stored (.prevote 1 r (some h) k),
    .process i .stored]

def commitWith (i j k : UInt64) (r : UInt32) (h : B256) : List Label :=
  [.deliver i .stored (.precommit 1 r (some h) j), .deliver i .stored (.precommit 1 r (some h) k)]

/-- Node 3 leaves round 0 without a lock, node 0 finalises on all prevotes, node 1 on precommits. -/
def oneLeaver : List Label :=
  allPrevote ++ lockWith 0 1 2 0 (.repeatByte 1) ++ lockWith 1 0 2 0 (.repeatByte 1) ++
  lockWith 2 0 1 0 (.repeatByte 1) ++ [.timeout 3] ++
  [.deliver 0 .stored (.prevote 1 0 (some (.repeatByte 1)) 3)] ++ commitWith 1 0 2 0 (.repeatByte 1)

def isTimeout : Call → Bool
  | .onTimeout => true
  | _ => false

theorem fast_engines_agree_run :
    let N := allHonest (.unitSet 4) ⟨3, 5000, 4⟩ 1 twoBlocks
    ∃ s, N.Reachable s ∧ s.Finalized 0 1 (.repeatByte 1) 0 ∧ s.Finalized 1 1 (.repeatByte 1) 0 ∧
      s.FastRoundsHold (.unitSet 4) ∧ ∀ i h r, s.Finalized i 1 h r → h = .repeatByte 1 := by
  intro N
  obtain ⟨s, hs, h0, h1, hleft⟩ := N.exists_of_exec oneLeaver
    (p := fun s => s.Finalized 0 1 (.repeatByte 1) 0 ∧ s.Finalized 1 1 (.repeatByte 1) 0 ∧
      ∀ entry ∈ s.log, isTimeout entry.call = true → entry.node = 3) (by decide +kernel)
  have hfast : s.FastRoundsHold (.unitSet 4) := by
    intro r _
    have hsub : s.unlockedLeavers r ⊆ {3} := by
      intro v hv
      obtain ⟨entry, hmem, rfl⟩ := List.mem_map.mp (List.mem_toFinset.mp hv)
      rw [Finset.mem_singleton]
      refine hleft entry (List.mem_filter.mp hmem).1 ?_
      have hl := (List.mem_filter.mp hmem).2
      unfold LogEntry.leavesUnlocked at hl
      split at hl
      · rename_i hc; rw [hc]; rfl
      · cases hl
    exact lt_of_le_of_lt ((ValidatorSet.unitSet 4).weights.of_mono hsub) (by decide)
  refine ⟨s, hs, h0, h1, hfast, fun i h r hi => ?_⟩
  exact fast_engines_agree (.unitSet 4) ⟨3, 5000, 4⟩ 1 twoBlocks 1 (by decide) (by decide) rfl rfl s hs hfast
    i 0 h _ r 0 hi h0

/-- Node 0 sees all prevotes of round 0 and finalises; the others see only their own, time out and
finalise the proposal of round 1. -/
def silentRound : List Label :=
  allPrevote ++ lockWith 0 1 2 0 (.repeatByte 1) ++
  [.deliver 0 .stored (.prevote 1 0 (some (.repeatByte 1)) 3)] ++
  [1, 2, 3].flatMap (fun i => [.timeout i, .process i .stored, .process i .stored,
    .deliver i .stored (.proposal 1 1 (.repeatByte 2) 2), .process i .stored]) ++
  lockWith 1 2 3 1 (.repeatByte 2) ++ lockWith 2 1 3 1 (.repeatByte 2) ++ lockWith 3 1 2 1 (.repeatByte 2) ++
  commitWith 1 2 3 1 (.repeatByte 2)

theorem fast_path_splits :
    ∃ s, (allHonest (.unitSet 4) ⟨3, 5000, 4⟩ 1 twoBlocks).Reachable s ∧
      s.Finalized 0 1 (.repeatByte 1) 0 ∧ s.Finalized 1 1 (.repeatByte 2) 1 ∧
      (.repeatByte 1 : B256) ≠ .repeatByte 2 := by
  obtain ⟨s, hs, h0, h1⟩ := (allHonest (.unitSet 4) ⟨3, 5000, 4⟩ 1 twoBlocks).exists_of_exec silentRound
    (p := fun s => s.Finalized 0 1 (.repeatByte 1) 0 ∧ s.Finalized 1 1 (.repeatByte 2) 1) (by decide +kernel)
  exact ⟨s, hs, h0, h1, by decide⟩

end Network

end Eth2077
