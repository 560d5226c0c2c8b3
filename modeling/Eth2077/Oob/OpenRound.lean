import Eth2077.Oob.EngineInv
import Eth2077.Oob.FastPathRound

/-!
# A round in which everybody votes for one block

`ConsensusEngine.Open` is the state of an engine that has heard votes for one block only in its round, and
not enough of them to finalise it. Each message of such a round either leaves the engine open or makes it
finalise the block (`Open.onPrevote`, `Open.onPrecommit`, `Open.onProposal`).
-/

namespace Eth2077

namespace ConsensusMessage

def height : ConsensusMessage → UInt64
  | .proposal height _ _ _ | .prevote height _ _ _ | .precommit height _ _ _ => height

def round : ConsensusMessage → UInt32
  | .proposal _ round _ _ | .prevote _ round _ _ | .precommit _ round _ _ => round

end ConsensusMessage

namespace FastPathAccumulator

/-- All attestations since the last reset name `h` at the time `clock`; `A` are those who made them. -/
def Unanimous (h : B256) (clock : UInt64) (A : Finset UInt64) (acc : FastPathAccumulator) : Prop :=
  ∃ round, Accumulates acc.config round acc ∧ (∀ a ∈ round, a.blockHash = h ∧ a.receivedAtMs = clock) ∧
    ∀ i, i ∈ A ↔ ∃ a ∈ round, a.attesterIndex = i

namespace Unanimous
variable {h : B256} {clock : UInt64} {A : Finset UInt64} {acc : FastPathAccumulator} {a : FastPathAttestation}
  {cfg : FastPathConfig} {round : List FastPathAttestation}

theorem inTime (hall : ∀ a ∈ round, a.blockHash = h ∧ a.receivedAtMs = clock) (ha : a ∈ round) :
    InTime cfg round a := by
  intro first hfirst
  rw [(hall a ha).2, (hall first (List.mem_of_mem_head? hfirst)).2]
  exact Nat.le_add_right _ _

theorem not_conflicting (hall : ∀ a ∈ round, a.blockHash = h ∧ a.receivedAtMs = clock) (ha : a ∈ round) :
    ¬ Conflicting cfg round a := by
  rintro ⟨-, hne⟩
  obtain ⟨first, rest, rfl⟩ := List.exists_cons_of_ne_nil (List.ne_nil_of_mem ha)
  refine hne ?_
  rw [(hall a ha).1, ← (hall first (List.mem_cons_self ..)).1]
  rfl

theorem start (h : B256) (clock : UInt64) (hempty : acc.attestations = []) (hhash : acc.roundBlockHash = none)
    (hstart : acc.roundStartMs = none) (hconflict : acc.conflictDetected = false) :
    Unanimous h clock ∅ acc := by
  refine ⟨[], ⟨rfl, hstart, hhash, ?_, ?_, ?_, ?_⟩, nofun, by simp⟩
  · simp [hconflict]
  · simp [hempty]
  · simp [hempty]
  · simp [hempty]

/-- Another voice for `h`: it is counted, and the fast path has its proof if the count is high enough. -/
theorem addAttestation (hu : Unanimous h clock A acc) (hh : a.blockHash = h) (ht : a.receivedAtMs = clock) :
    Unanimous h clock (insert a.attesterIndex A) (acc.addAttestation a).1 ∧
    ((∃ p, (acc.addAttestation a).2 = some (.fastFinalized p)) ↔ 0 < acc.config.optimisticThreshold ∧
      acc.config.optimisticThreshold ≤ (insert a.attesterIndex A).card) := by
  obtain ⟨round, hacc, hall, hA⟩ := hu
  have hall' : ∀ x ∈ round ++ [a], x.blockHash = h ∧ x.receivedAtMs = clock := by
    intro x hx
    rcases List.mem_append.mp hx with hx | hx
    · exact hall x hx
    · rw [List.mem_singleton.mp hx]
      exact ⟨hh, ht⟩
  have hA' : ∀ i, i ∈ insert a.attesterIndex A ↔ ∃ x ∈ round ++ [a], x.attesterIndex = i := by
    intro i
    rw [Finset.mem_insert, hA]
    constructor
    · rintro (rfl | ⟨x, hx, rfl⟩)
      · exact ⟨a, by simp, rfl⟩
      · exact ⟨x, by simp [hx], rfl⟩
    · rintro ⟨x, hx, rfl⟩
      rcases List.mem_append.mp hx with hx | hx
      · exact .inr ⟨x, hx, rfl⟩
      · exact .inl (by rw [List.mem_singleton.mp hx])
  have hquiet : acc.conflictDetected = false := by
    rw [Bool.eq_false_iff, ne_eq, hacc.conflict]
    rintro ⟨x, hx, hconflict⟩
    exact not_conflicting hall hx hconflict
  have hb : ∀ b ∈ acc.roundBlockHash, b = a.blockHash := by
    intro b hb
    rw [hacc.hash, roundHash, Option.mem_def, Option.map_eq_some_iff] at hb
    obtain ⟨first, hfirst, rfl⟩ := hb
    rw [(hall first (List.mem_of_mem_head? hfirst)).1, hh]
  -- an attestation at the time of the first is never late
  have hin : InTime acc.config (round ++ [a]) a := inTime hall' (by simp)
  have hnext := hacc.addAttestation_agree hquiet hin hb
  have hconfig : (acc.store a).config = acc.config := hnext.config
  have hcount : (acc.store a).agreementCount = (insert a.attesterIndex A).card := by
    rw [agreementCount_eq (hnext.agree hquiet), ← List.length_map (·.attesterIndex),
      ← List.toFinset_card_of_nodup (hnext.nodup hquiet)]
    congr 1
    ext i
    rw [List.mem_toFinset, hnext.attesters hquiet, hA']
    constructor
    · rintro ⟨x, hx, -, hi⟩
      exact ⟨x, hx, hi⟩
    · rintro ⟨x, hx, hi⟩
      exact ⟨x, hx, inTime hall' hx, hi⟩
  rw [addAttestation_of_agree hquiet (hacc.inTime_iff.mp hin) (hacc.agree hquiet) hb]
  refine ⟨⟨round ++ [a], by rwa [hconfig], hall', hA'⟩, ?_⟩
  simp only [outcome, hconfig, hcount]
  constructor
  · rintro ⟨p, hp⟩
    by_contra hfew
    rw [if_neg hfew] at hp
    split_ifs at hp
    cases hp
  · intro hreached
    rw [if_pos hreached]
    exact ⟨_, rfl⟩

end Unanimous
end FastPathAccumulator

namespace ConsensusEngine

/-- The time that the fast path is told in the engine's round. -/
def clock (e : ConsensusEngine) : UInt64 :=
  (e.state.height.saturatingMul 1000).saturatingAdd e.state.round.toUInt64

/-- The prevotes the engine has stored are enough for the fast path. -/
def FastReach (e : ConsensusEngine) (h : B256) : Prop :=
  0 < e.fastPath.config.optimisticThreshold ∧
    e.fastPath.config.optimisticThreshold ≤ (e.state.prevotes.voters e.state.round h).card

/-- The engine has heard votes for `h` only in its round, and has not finalised it. -/
structure Open (h : B256) (e : ConsensusEngine) : Prop where
  step : e.state.step ≠ .committed
  lockedHash : ∀ h', e.state.lockedHash = some h' → h' = h
  prevotes : ∀ v b, e.state.prevotes.lookup (e.state.round, v) = some b → b = some h
  precommits : ∀ v b, e.state.precommits.lookup (e.state.round, v) = some b → b = some h
  fast : e.fastPath.Unanimous h e.clock (e.state.prevotes.voters e.state.round h)
  slow : ¬ e.FastReach h
  locked : e.PrevotesReach e.state.round h → e.LockedOn e.state.round h
  uncommitted : ¬ e.PrecommitsReach e.state.round h

variable {e : ConsensusEngine} {h : B256} {ord : TallyOrder} {v : UInt64} {msg : ConsensusMessage}

/-- Messages of other heights and rounds are dropped. -/
theorem onMessage_of_elsewhere (h : ¬ (msg.height = e.state.height ∧ msg.round = e.state.round)) :
    e.onMessage ord msg = (e, []) := by
  have hor : msg.height ≠ e.state.height ∨ msg.round ≠ e.state.round := by
    by_contra hne
    push Not at hne
    exact h hne
  unfold onMessage
  split_ifs
  · rfl
  · cases msg with
    | proposal height round b p => exact if_pos hor
    | prevote height round b v => exact if_pos hor
    | precommit height round b v => exact if_pos hor

/-! ### Votes for one block -/

theorem voters_insert (votes : Votes) (r : UInt32) (fresh : (r, v) ∉ votes) :
    Votes.voters (AList.insert (r, v) (some h) votes) r h = insert v (votes.voters r h) := by
  ext u
  rw [Finset.mem_insert, Votes.mem_voters, Votes.mem_voters]
  by_cases hu : u = v
  · subst hu
    simp [AList.lookup_insert]
  · rw [AList.lookup_insert_ne (by simpa using hu)]
    simp [hu]

theorem lookup_insert_for {votes : Votes} {r : UInt32}
    (hall : ∀ v b, votes.lookup (r, v) = some b → b = some h) (u : UInt64) (b : Option B256)
    (hl : (AList.insert (r, v) (some h) votes).lookup (r, u) = some b) : b = some h := by
  rcases Votes.lookup_insert_cases hl with ⟨-, rfl⟩ | hl
  · rfl
  · exact hall u b hl

/-- Where all stored votes are for `h`, no other hash can be picked. -/
theorem quorumHash_of_all {votes : Votes} {r : UInt32} {vs : ValidatorSet}
    (hall : ∀ v b, votes.lookup (r, v) = some b → b = some h) :
    RoundState.quorumHash ord (votes.tally r vs) vs.quorumWeight =
      if vs.quorumWeight.toNat ≤ vs.weights.of (votes.voters r h) then some h else none := by
  have hpick : ∀ q, RoundState.quorumHash ord (votes.tally r vs) vs.quorumWeight = some q → q = h := by
    intro q hq
    have hle := Votes.quorum_of_quorumHash hq
    have hne : (votes.voters r q).Nonempty := by
      rw [Finset.nonempty_iff_ne_empty]
      intro hempty
      have hpos := vs.quorumWeight_pos
      rw [hempty, WeightedQuorum.Weights.of, Finset.sum_empty] at hle
      omega
    obtain ⟨u, hu⟩ := hne
    exact Option.some_inj.mp (hall u _ (Votes.mem_voters.mp hu))
  split_ifs with hle
  · obtain ⟨q, hq⟩ := Votes.exists_quorumHash ord vs.quorumWeight_pos hle
    rw [hq, hpick q hq]
  · cases hq : RoundState.quorumHash ord (votes.tally r vs) vs.quorumWeight with
    | none => rfl
    | some q =>
      have := Votes.quorum_of_quorumHash hq
      rw [hpick q hq] at this
      exact absurd this hle

/-! ### What a message of the round does -/

/-- The engine has entered its round and heard nothing in it. -/
structure Entered (h : B256) (e : ConsensusEngine) : Prop where
  step : e.state.step ≠ .committed
  lockedHash : ∀ h', e.state.lockedHash = some h' → h' = h
  lockedRound : e.state.lockedRound ≠ some e.state.round
  prevotes : ∀ v, (e.state.round, v) ∉ e.state.prevotes
  precommits : ∀ v, (e.state.round, v) ∉ e.state.precommits
  fast : e.fastPath = e.fastPath.reset

theorem lookup_ne_some {votes : Votes} {r : UInt32} (hnone : ∀ v, (r, v) ∉ votes) (v : UInt64) (b : Option B256) :
    votes.lookup (r, v) ≠ some b := fun hl => hnone v (mem_iff_exists_lookup.mpr ⟨b, hl⟩)

theorem voters_eq_empty {votes : Votes} {r : UInt32} (hnone : ∀ v, (r, v) ∉ votes) : votes.voters r h = ∅ := by
  rw [Finset.eq_empty_iff_forall_notMem]
  intro v hv
  exact lookup_ne_some hnone v _ (Votes.mem_voters.mp hv)

theorem not_reach_empty (vs : ValidatorSet) : ¬ vs.quorumWeight.toNat ≤ vs.weights.of ∅ := by
  have hpos := vs.quorumWeight_pos
  rw [WeightedQuorum.Weights.of, Finset.sum_empty]
  omega

theorem Entered.open (he : e.Entered h) : Open h e where
  step := he.step
  lockedHash := he.lockedHash
  prevotes v b hl := absurd hl (lookup_ne_some he.prevotes v b)
  precommits v b hl := absurd hl (lookup_ne_some he.precommits v b)
  fast := by
    rw [voters_eq_empty he.prevotes, he.fast]
    exact .start h e.clock rfl rfl rfl rfl
  slow := by
    rw [FastReach, voters_eq_empty he.prevotes, Finset.card_empty]
    omega
  locked hr := by
    rw [PrevotesReach, voters_eq_empty he.prevotes] at hr
    exact absurd hr (not_reach_empty _)
  uncommitted hr := by
    rw [PrecommitsReach, voters_eq_empty he.precommits] at hr
    exact not_reach_empty _ hr

variable (ho : e.Open h)
include ho

theorem Open.onProposal (ord : TallyOrder) : e.onMessage ord (.proposal e.state.height e.state.round h
      (e.validatorSet.leaderForRound e.state.height e.state.round)) =
    (e.acceptProposal h, [.sendPrevote e.state.height e.state.round (some h)]) ∧ Open h (e.acceptProposal h) := by
  have hvote : e.state.lockedHash.or (some h) = some h := by
    cases hl : e.state.lockedHash with
    | none => rfl
    | some h' => rw [ho.lockedHash h' hl]; rfl
  constructor
  · rw [onMessage, if_neg ho.step]
    simp only [ConsensusEngine.onProposal, ne_eq, not_true_eq_false, or_self, if_false, hvote]
    rfl
  · exact ⟨by rintro ⟨⟩, ho.lockedHash, ho.prevotes, ho.precommits, ho.fast, ho.slow, ho.locked, ho.uncommitted⟩

theorem Open.attest_storePrevote (fresh : (e.state.round, v) ∉ e.state.prevotes) :
    (e.storePrevote (some h) v).fastPath.Unanimous h e.clock
      ((e.storePrevote (some h) v).state.prevotes.voters e.state.round h) ∧
    ((∃ p, (e.fastPath.addAttestation (e.attestation h v)).2 = some (.fastFinalized p)) ↔
      (e.storePrevote (some h) v).FastReach h) := by
  have hvoters : (e.storePrevote (some h) v).state.prevotes.voters e.state.round h =
      insert v (e.state.prevotes.voters e.state.round h) := voters_insert _ _ fresh
  have hconfig : (e.storePrevote (some h) v).fastPath.config = e.fastPath.config :=
    FastPathAccumulator.addAttestation_config _ _
  obtain ⟨hu, hf⟩ := ho.fast.addAttestation (a := e.attestation h v) rfl rfl
  refine ⟨?_, ?_⟩
  · rw [hvoters]
    exact hu
  · rw [FastReach, hconfig]
    show _ ↔ _ ∧ _ ≤ ((e.storePrevote (some h) v).state.prevotes.voters e.state.round h).card
    rw [hvoters]
    exact hf

/-- A prevote that is new to the round: the engine finalises on the fast path, or goes on, locking and asking
for its precommit when the quorum is there. -/
theorem Open.onPrevote (ord : TallyOrder) (fresh : (e.state.round, v) ∉ e.state.prevotes)
    {r : ConsensusEngine × List ConsensusEvent}
    (hr : r = e.onMessage ord (.prevote e.state.height e.state.round (some h) v)) :
    (r.1.state.step = .committed ∧ r.2 = [.blockFinalized e.state.height h e.state.round] ∧
      (e.storePrevote (some h) v).FastReach h) ∨
    (r.1.Open h ∧ r.1.state.prevotes = AList.insert (e.state.round, v) (some h) e.state.prevotes ∧
      r.1.state.precommits = e.state.precommits ∧
      (r.2 = [] ∧ (r.1.LockedOn e.state.round h → e.LockedOn e.state.round h) ∨
        r.2 = [.sendPrecommit e.state.height e.state.round (some h)])) := by
  obtain ⟨hu, hfast⟩ := ho.attest_storePrevote fresh
  have hstored : ∀ u b, (e.storePrevote (some h) v).state.prevotes.lookup (e.state.round, u) = some b → b = some h :=
    lookup_insert_for ho.prevotes
  rw [onMessage, if_neg ho.step] at hr
  simp only [ConsensusEngine.onPrevote, RoundState.insertPrevote, Votes.insertVote_of_notMem fresh, ne_eq,
    not_true_eq_false, or_self, if_false] at hr
  by_cases hreach : (e.storePrevote (some h) v).FastReach h
  · left
    obtain ⟨p, hp⟩ := hfast.mpr hreach
    split at hr
    · rw [hr]
      exact ⟨rfl, rfl, hreach⟩
    · rename_i fp o hno hsplit
      exact absurd ((congrArg Prod.snd hsplit).symm.trans hp) (hno p)
  · right
    have hnot : ∀ p, (e.fastPath.addAttestation (e.attestation h v)).2 ≠ some (.fastFinalized p) :=
      fun p hp => hreach (hfast.mp ⟨p, hp⟩)
    have hlock : r = (e.storePrevote (some h) v).lockOnQuorum ord e.state.height e.state.round := by
      rw [hr]
      split
      · rename_i fp p hsplit
        exact absurd (congrArg Prod.snd hsplit) (hnot p)
      · rename_i fp o _ hsplit
        have hfp : fp = (e.fastPath.addAttestation (e.attestation h v)).1 := (congrArg Prod.fst hsplit).symm
        rw [hfp]
        rfl
    rw [lockOnQuorum, RoundState.tallyPrevotes, quorumHash_of_all hstored] at hlock
    split_ifs at hlock with hq
    · simp only at hlock
      refine ⟨?_, by rw [hlock]; rfl, by rw [hlock]; rfl, ?_⟩
      · rw [hlock]
        exact ⟨by rintro ⟨⟩, fun h' hh' => (Option.some_inj.mp hh').symm, hstored, ho.precommits, hu, hreach,
          fun _ => ⟨rfl, rfl⟩, ho.uncommitted⟩
      · rw [hlock]
        simp only
        split_ifs with hemit
        · exact .inr rfl
        · simp only [not_or, not_not] at hemit
          exact .inl ⟨rfl, fun _ => ⟨hemit.2.2, hemit.2.1⟩⟩
    · rw [hlock]
      refine ⟨⟨ho.step, ho.lockedHash, hstored, ho.precommits, hu, hreach, fun hq' => absurd hq' hq, ho.uncommitted⟩,
        rfl, rfl, .inl ⟨rfl, fun hl => hl⟩⟩

/-- A precommit that is new to the round: the engine finalises if it completes the quorum. -/
theorem Open.onPrecommit (ord : TallyOrder) (fresh : (e.state.round, v) ∉ e.state.precommits)
    {r : ConsensusEngine × List ConsensusEvent}
    (hr : r = e.onMessage ord (.precommit e.state.height e.state.round (some h) v)) :
    (r.1.state.step = .committed ∧ r.2 = [.blockFinalized e.state.height h e.state.round] ∧
      (e.storePrecommit (some h) v).PrecommitsReach e.state.round h) ∨
    (r.1 = e.storePrecommit (some h) v ∧ r.1.Open h ∧ r.2 = []) := by
  have hstored : ∀ u b, (AList.insert (e.state.round, v) (some h) e.state.precommits).lookup (e.state.round, u) =
      some b → b = some h := lookup_insert_for ho.precommits
  rw [onMessage, if_neg ho.step] at hr
  simp only [ConsensusEngine.onPrecommit, RoundState.insertPrecommit, Votes.insertVote_of_notMem fresh, ne_eq,
    not_true_eq_false, or_self, if_false, RoundState.tallyPrecommits] at hr
  rw [quorumHash_of_all hstored] at hr
  split_ifs at hr with hq
  · rw [hr]
    exact .inl ⟨rfl, rfl, hq⟩
  · rw [hr]
    exact .inr ⟨rfl, ⟨ho.step, ho.lockedHash, ho.prevotes, hstored, ho.fast, ho.slow, ho.locked, hq⟩, rfl⟩

end ConsensusEngine

end Eth2077
