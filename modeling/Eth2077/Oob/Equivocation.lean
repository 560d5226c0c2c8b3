import Eth2077.Oob.EngineInv
import Eth2077.Oob.QuorumIntersection

/-!
# Equivocation of one engine

`on_proposal` answers every proposal of the expected leader with a prevote, whether or not the round
already has one, so a second proposal can make the engine vote twice (`two_proposals_equivocate`).
`no_equivocation` says when it does not: a further proposal of a round finds the engine unlocked and
repeats the first, or finds a lock taken since the first on what the engine voted for then; and no
two hashes of a round have a quorum of stored prevotes. A lock from an earlier round, or one taken
before the first proposal, needs no assumption.
-/

namespace Eth2077
namespace ConsensusEngine

variable {e e' e'' : ConsensusEngine} {msg : ConsensusMessage} {evs : List ConsensusEvent}
  {vs : ValidatorSet} {cfg : FastPathConfig} {cs : List Call} {c : Call} {r : UInt32} {h h' q q' : B256}

/-- The call delivers a proposal for `h` that the engine acts on. -/
def Accepts (e : ConsensusEngine) (h : B256) (c : Call) : Prop :=
  e.state.step ≠ .committed ∧ ∃ ord, c = .onMessage ord (.proposal e.state.height e.state.round h
    (e.validatorSet.leaderForRound e.state.height e.state.round))

/-- The first proposal of a round is `h`, accepted in `e`; a further one is `h'`, accepted in `e'`. -/
def Consistent (e : ConsensusEngine) (h : B256) (e' : ConsensusEngine) (h' : B256) : Prop :=
  (e'.state.lockedHash = none → h' = h) ∧
    ∀ q, e.state.lockedRound ≠ some e.state.round → e'.LockedOn e.state.round q →
      q = e.state.lockedHash.getD h

/-- Any two proposals the run accepts in one round are consistent. -/
def ConsistentProposals (e : ConsensusEngine) : List Call → Prop
  | [] => True
  | c :: cs => (∀ h, e.Accepts h c → AllCalls (fun e' c' => ∀ h', e'.Accepts h' c' →
      e'.state.round = e.state.round → Consistent e h e' h') (e.call c).1 cs) ∧
    ConsistentProposals (e.call c).1 cs

/-- At most one hash a round has stored prevotes of quorum weight. -/
def OneQuorum (e : ConsensusEngine) : Prop :=
  ∀ r q q', e.PrevotesReach r q → e.PrevotesReach r q' → q = q'

theorem oneQuorum_of_total (ht : e.validatorSet.weights.total < 2 * e.validatorSet.quorumWeight.toNat) :
    OneQuorum e := by
  intro r q q' hq hq'
  have ht' : e.validatorSet.weights.total + e.validatorSet.weights.of ∅ <
      2 * e.validatorSet.quorumWeight.toNat := by simpa [WeightedQuorum.Weights.of] using ht
  obtain ⟨v, hv, hv', -⟩ := e.validatorSet.weights.exists_common hq hq' ht'
  have h1 := Votes.mem_voters.mp hv
  have h2 := Votes.mem_voters.mp hv'
  rw [h1] at h2
  simpa using h2

/-! ### The lock within a round -/

/-- Later in the same height: the lock is still the same, or was taken in a round since. -/
structure Later (e e' : ConsensusEngine) : Prop where
  round : e.state.round.toNat ≤ e'.state.round.toNat
  lock : (e'.state.lockedRound = e.state.lockedRound ∧ e'.state.lockedHash = e.state.lockedHash) ∨
    ∃ r, e'.state.lockedRound = some r ∧ e.state.round.toNat ≤ r.toNat

theorem Later.refl (e : ConsensusEngine) : Later e e := ⟨le_rfl, .inl ⟨rfl, rfl⟩⟩

theorem Later.trans (h1 : Later e e') (h2 : Later e' e'') : Later e e'' where
  round := h1.round.trans h2.round
  lock := by
    rcases h2.lock with ⟨hr, hh⟩ | ⟨r, hr, hle⟩
    · rw [hr, hh]; exact h1.lock
    · exact .inr ⟨r, hr, h1.round.trans hle⟩

theorem MessageStep.later (hs : MessageStep e msg e' evs) : Later e e' := by
  refine ⟨by rw [hs.round_eq], ?_⟩
  cases hs with
  | lock | relock => exact .inr ⟨_, rfl, le_rfl⟩
  | _ => exact .inl ⟨rfl, rfl⟩

theorem CallStep.later (hs : CallStep e c e' evs) (hn : c.isStart = false) : Later e e' := by
  cases hs with
  | start => cases hn
  | message ord msg step => exact step.later
  | late => exact .refl e
  | timeout => exact ⟨UInt32.le_toNat_saturatingAdd _ _, .inl ⟨rfl, rfl⟩⟩

theorem later_after (e : ConsensusEngine) (hn : ∀ c ∈ cs, c.isStart = false) : Later e (e.after cs) := by
  induction cs generalizing e with
  | nil => exact .refl e
  | cons c cs ih =>
    exact ((e.call_step c).later (hn c (by simp))).trans (ih _ fun d hd => hn d (by simp [hd]))

theorem after_prevotesReach (hn : ∀ c ∈ cs, c.isStart = false) (hq : e.PrevotesReach r q) :
    (e.after cs).PrevotesReach r q := by
  induction cs generalizing e with
  | nil => exact hq
  | cons c cs ih =>
    exact ih (fun d hd => hn d (by simp [hd])) ((e.call_step c).prevotesReach (hn c (by simp)) hq)

theorem Inv.lockedRound_eq_none (hi : Inv e) (hn : e.state.lockedHash = none) :
    e.state.lockedRound = none := by
  have := hi.pair
  rwa [hn, Option.isSome_none, eq_comm, Option.isSome_eq_false_iff, Option.isNone_iff_eq_none] at this

theorem vote_eq (hi : Inv e) (hi' : Inv e') (hl : Later e e') (hr : e'.state.round = e.state.round)
    (hone : ∀ q q', e.LockedOn e.state.round q → e'.LockedOn e.state.round q' → q = q')
    (hc : Consistent e h e' h') : e'.state.lockedHash.getD h' = e.state.lockedHash.getD h := by
  cases hlh' : e'.state.lockedHash with
  | none =>
    -- a lock never goes away, so there was none before either
    have hnone : e.state.lockedHash = none := by
      rcases hl.lock with ⟨-, hh⟩ | ⟨r, hr, -⟩
      · rw [← hh, hlh']
      · rw [hi'.lockedRound_eq_none hlh'] at hr; cases hr
    rw [hnone, Option.getD_none, Option.getD_none, hc.1 hlh']
  | some q =>
    rw [Option.getD_some]
    rcases hl.lock with ⟨-, hh⟩ | ⟨r, hr', hle⟩
    · rw [← hh, hlh', Option.getD_some]
    · have hrr : r = e.state.round := by
        have := hi'.le_round r hr'
        rw [hr] at this
        exact UInt32.toNat_inj.mp (le_antisymm this hle)
      subst hrr
      by_cases hlr : e.state.lockedRound = some e.state.round
      · obtain ⟨q₀, hq₀⟩ := Option.isSome_iff_exists.mp (hi.pair.trans (by rw [hlr]; rfl))
        rw [hq₀, Option.getD_some]
        exact (hone q₀ q ⟨hlr, hq₀⟩ ⟨hr', hlh'⟩).symm
      · exact hc.2 q hlr ⟨hr', hlh'⟩

/-! ### Two events of one run -/

theorem ConsistentProposals.append {cs' : List Call} (hc : ConsistentProposals e (cs ++ cs')) :
    ConsistentProposals (e.after cs) cs' := by
  induction cs generalizing e with
  | nil => exact hc
  | cons c cs ih => exact ih hc.2

theorem sendPrevote_accepts {height : UInt64} {b : Option B256} (hm : .sendPrevote height r b ∈ (e.call c).2) :
    ∃ h, e.Accepts h c ∧ r = e.state.round ∧ b = some (e.state.lockedHash.getD h) := by
  obtain ⟨ord, msg, rfl, hs⟩ := (e.call_step c).of_mem hm rfl
  have hnc : e.state.step ≠ .committed := by
    intro hc
    rw [call, onMessage_of_committed hc] at hm
    cases hm
  obtain ⟨p, rfl, -, hr, hb, -⟩ := hs.sendPrevote hm
  exact ⟨p, ⟨hnc, ord, rfl⟩, hr, hb⟩

theorem sendPrevote_eq_of_cons (hi : Inv e) (hn : ∀ d ∈ c :: cs, d.isStart = false)
    (hone : OneQuorum (e.after (c :: cs))) (hcp : ConsistentProposals e (c :: cs))
    {height height' : UInt64} {b b' : Option B256} (hm : .sendPrevote height r b ∈ (e.call c).2)
    (hm' : .sendPrevote height' r b' ∈ (e.call c).1.emitted cs) : b' = b := by
  obtain ⟨h, hacc, rfl, rfl⟩ := sendPrevote_accepts hm
  obtain ⟨cs₁, c', cs₂, rfl, hev⟩ := mem_emitted.mp hm'
  obtain ⟨h', hacc', hr, rfl⟩ := sendPrevote_accepts hev
  have hn₁ : ∀ d ∈ c :: cs₁, d.isStart = false := fun d hd => hn d (by
    rcases List.mem_cons.mp hd with rfl | hd <;> simp [*])
  have hn₂ : ∀ d ∈ c' :: cs₂, d.isStart = false := fun d hd => hn d (by
    rcases List.mem_cons.mp hd with rfl | hd <;> simp [*])
  have hall := hcp.1 h hacc
  rw [allCalls_append] at hall
  have hcons : Consistent e h ((e.call c).1.after cs₁) h' := hall.2.1 h' hacc' hr.symm
  have hi' : Inv ((e.call c).1.after cs₁) := inv_after (inv_call hi c) cs₁
  have hlater : Later e ((e.call c).1.after cs₁) := later_after e hn₁
  refine congrArg some (vote_eq hi hi' hlater hr.symm (fun q q' hq hq' => ?_) hcons)
  -- both locks rest on quorums still stored at the end
  refine hone e.state.round q q' ?_ ?_
  · exact after_prevotesReach hn (hi.quorum _ _ hq)
  · have := after_prevotesReach hn₂ (hi'.quorum _ _ hq')
    rwa [← after_append] at this

theorem sendPrevote_eq (hi : Inv e) (hn : ∀ d ∈ cs, d.isStart = false) (hone : OneQuorum (e.after cs))
    (hcp : ConsistentProposals e cs) {height height' : UInt64} {b b' : Option B256}
    (hm : .sendPrevote height r b ∈ e.emitted cs) (hm' : .sendPrevote height' r b' ∈ e.emitted cs) :
    b = b' := by
  induction cs generalizing e with
  | nil => cases hm
  | cons c cs ih =>
    rcases List.mem_append.mp hm with h1 | h1 <;> rcases List.mem_append.mp hm' with h2 | h2
    · obtain ⟨h, ⟨-, ord, hc⟩, -, rfl⟩ := sendPrevote_accepts h1
      obtain ⟨h', ⟨-, ord', hc'⟩, -, rfl⟩ := sendPrevote_accepts h2
      rw [hc] at hc'; cases hc'; rfl
    · exact (sendPrevote_eq_of_cons hi hn hone hcp h1 h2).symm
    · exact sendPrevote_eq_of_cons hi hn hone hcp h2 h1
    · exact ih (inv_call hi c) (fun d hd => hn d (by simp [hd])) hone hcp.2 h1 h2

theorem sendPrecommit_reach (hn : ∀ d ∈ cs, d.isStart = false) {height : UInt64} {b : Option B256}
    (hm : .sendPrecommit height r b ∈ e.emitted cs) : ∃ q, b = some q ∧ (e.after cs).PrevotesReach r q := by
  obtain ⟨cs₁, c, cs₂, rfl, hev⟩ := mem_emitted.mp hm
  obtain ⟨q, rfl, hq⟩ := sendPrecommit_quorum hev
  refine ⟨q, rfl, ?_⟩
  rw [after_append, after_cons]
  exact after_prevotesReach (fun d hd => hn d (by simp [hd])) hq

/-- An engine in a run between two `start_height` never emits two different prevotes or precommits for
a round, if the proposals it accepts are consistent and no two hashes of a round reach a quorum. -/
theorem no_equivocation (vs : ValidatorSet) (cfg : FastPathConfig) (calls : List Call) (height : UInt64)
    (cs : List Call) (hn : ∀ c ∈ cs, c.isStart = false)
    (hcp : ConsistentProposals (((new vs cfg).after calls).startHeight height).1 cs)
    (hone : OneQuorum ((((new vs cfg).after calls).startHeight height).1.after cs)) :
    let evs := (((new vs cfg).after calls).startHeight height).1.emitted cs
    ∀ r height₁ height₂ b₁ b₂,
      (.sendPrevote height₁ r b₁ ∈ evs → .sendPrevote height₂ r b₂ ∈ evs → b₁ = b₂) ∧
      (.sendPrecommit height₁ r b₁ ∈ evs → .sendPrecommit height₂ r b₂ ∈ evs → b₁ = b₂) := by
  intro evs r height₁ height₂ b₁ b₂
  refine ⟨fun h1 h2 => ?_, fun h1 h2 => ?_⟩
  · exact sendPrevote_eq (inv_startHeight _ _) hn hone hcp h1 h2
  · obtain ⟨q₁, rfl, hq₁⟩ := sendPrecommit_reach hn h1
    obtain ⟨q₂, rfl, hq₂⟩ := sendPrecommit_reach hn h2
    rw [hone r q₁ q₂ hq₁ hq₂]

theorem not_accepts_prevote {ord : TallyOrder} {height : UInt64} {b : Option B256} {v : UInt64} :
    ¬ e.Accepts h (.onMessage ord (.prevote height r b v)) := by
  rintro ⟨-, ord', hc⟩; cases hc

theorem Accepts.hash_eq {ord : TallyOrder} {height proposer : UInt64}
    (ha : e.Accepts h (.onMessage ord (.proposal height r h' proposer))) : h = h' := by
  obtain ⟨-, ord', hc⟩ := ha
  cases hc; rfl

/-- A leader that repeats its proposal after the round's lock gets the same prevote again. -/
def repeatedProposal (h : B256) : List Call :=
  let deliver := Call.onMessage .stored
  [deliver (.proposal 1 0 h 1), deliver (.prevote 1 0 (some h) 0), deliver (.prevote 1 0 (some h) 1),
    deliver (.prevote 1 0 (some h) 2), deliver (.proposal 1 0 h 1)]

theorem repeatedProposal_no_equivocation :
    let evs := ((new (.unitSet 4) ⟨3, 5000, 4⟩).startHeight 1).1.emitted (repeatedProposal (.repeatByte 1))
    ∀ r height₁ height₂ b₁ b₂,
      (.sendPrevote height₁ r b₁ ∈ evs → .sendPrevote height₂ r b₂ ∈ evs → b₁ = b₂) ∧
      (.sendPrecommit height₁ r b₁ ∈ evs → .sendPrecommit height₂ r b₂ ∈ evs → b₁ = b₂) := by
  refine no_equivocation (.unitSet 4) ⟨3, 5000, 4⟩ [] 1 _ (by decide) ?_ (oneQuorum_of_total (by decide))
  have hno : ∀ {e : ConsensusEngine} {v : UInt64} {h : B256},
      ¬ e.Accepts h (.onMessage .stored (.prevote 1 0 (some (.repeatByte 1)) v)) := not_accepts_prevote
  refine ⟨fun h ha => ?_, fun h ha => absurd ha hno, fun h ha => absurd ha hno, fun h ha => absurd ha hno,
    fun _ _ => trivial, trivial⟩
  refine ⟨fun h ha => absurd ha hno, fun h ha => absurd ha hno, fun h ha => absurd ha hno,
    fun h' ha' _ => ⟨fun _ => ha'.hash_eq.trans ha.hash_eq.symm, fun q _ hl => ?_⟩, trivial⟩
  rw [ha.hash_eq]
  exact (Option.some.inj hl.2).symm

theorem two_proposals_equivocate :
    let evs := ((new (.unitSet 4) ⟨3, 5000, 4⟩).startHeight 1).1.emitted
      [.onMessage .stored (.proposal 1 0 (.repeatByte 1) 1), .onMessage .stored (.proposal 1 0 (.repeatByte 2) 1)]
    ∃ b₁ b₂, .sendPrevote 1 0 b₁ ∈ evs ∧ .sendPrevote 1 0 b₂ ∈ evs ∧ b₁ ≠ b₂ :=
  ⟨some (.repeatByte 1), some (.repeatByte 2), by decide, by decide, by decide⟩

end ConsensusEngine
end Eth2077
