import Eth2077.Oob.Consensus

/-!
# What one call of the engine can do

`Votes.quorum_of_quorumHash` reads the tally back: a hash that `quorum_hash` picks is backed by
stored votes of quorum weight. `MessageStep` lists every outcome of `on_message` once, `CallStep` those
of all three entry points, so that the invariants below never unfold a handler.
-/

namespace Eth2077

/-! ### Stored votes and their weight -/

namespace Votes
variable {votes : Votes} {r : UInt32} {h : B256} {v : UInt64} {vs : ValidatorSet}

def isVoteFor (r : UInt32) (h : B256) (e : Sigma fun _ : UInt32 × UInt64 => Option B256) : Bool :=
  e.1.1 == r && e.2 == some h

def voters (votes : Votes) (r : UInt32) (h : B256) : Finset UInt64 :=
  ((votes.entries.filter (isVoteFor r h)).map (·.1.2)).toFinset

theorem mem_voters : v ∈ votes.voters r h ↔ votes.lookup (r, v) = some (some h) := by
  rw [← Option.mem_def, AList.mem_lookup_iff]
  simp only [voters, List.mem_toFinset, List.mem_map, List.mem_filter, isVoteFor, Bool.and_eq_true,
    beq_iff_eq]
  constructor
  · rintro ⟨⟨⟨r', v'⟩, b⟩, ⟨hm, hr, hb⟩, hv⟩
    simp only at hr hb hv
    subst hr hb hv; exact hm
  · intro hm; exact ⟨_, ⟨hm, rfl, rfl⟩, rfl⟩

theorem nodup_voters (votes : Votes) (r : UInt32) (h : B256) :
    ((votes.entries.filter (isVoteFor r h)).map (·.1.2)).Nodup := by
  have hk : ((votes.entries.filter (isVoteFor r h)).map (·.1)).Nodup :=
    votes.nodupKeys.sublist List.filter_sublist
  refine List.Nodup.of_map (fun v => (r, v)) ?_
  rw [List.map_map]
  convert hk using 1
  refine List.map_congr_left fun e he => ?_
  have hr := (List.mem_filter.mp he).2
  simp only [isVoteFor, Bool.and_eq_true, beq_iff_eq] at hr
  exact Prod.ext hr.1.symm rfl

theorem weight_voters (votes : Votes) (r : UInt32) (h : B256) (vs : ValidatorSet) :
    vs.weights.of (votes.voters r h) =
      ((votes.entries.filter (isVoteFor r h)).map fun e => (vs.weightOf e.1.2).toNat).sum := by
  show ∑ i ∈ votes.voters r h, (vs.weightOf i).toNat = _
  rw [voters, List.sum_toFinset _ (nodup_voters votes r h), List.map_map]
  rfl

/-- The tally loop adds up the votes for `h`, saturating. -/
theorem foldl_tallyVote (l : List (Sigma fun _ : UInt32 × UInt64 => Option B256)) (t : Tally) :
    (((l.foldl (tallyVote r vs) t).lookup h).getD 0).toNat =
      min (((t.lookup h).getD 0).toNat +
        ((l.filter (isVoteFor r h)).map fun e => (vs.weightOf e.1.2).toNat).sum) UInt64.maxNat := by
  induction l generalizing t with
  | nil =>
    have := ((t.lookup h).getD 0).toNat_le_maxNat
    simp only [List.foldl_nil, List.filter_nil, List.map_nil, List.sum_nil]; omega
  | cons e l ih =>
    obtain ⟨⟨r', v⟩, b⟩ := e
    rw [List.foldl_cons, ih]
    by_cases hr : r' = r
    · subst hr
      cases b with
      | none => simp [tallyVote, isVoteFor]
      | some h' =>
        by_cases hw : vs.weightOf v = 0
        · by_cases hh : h' = h <;> simp [tallyVote, isVoteFor, hw, hh]
        · by_cases hh : h' = h
          · subst hh
            simp only [tallyVote, hw, isVoteFor, ne_eq, not_true_eq_false, if_false, AList.lookup_insert,
              Option.getD_some, UInt64.toNat_saturatingAdd, List.filter_cons, beq_self_eq_true,
              Bool.and_self, if_true, List.map_cons, List.sum_cons]
            omega
          · have hne : h ≠ h' := fun heq => hh heq.symm
            simp [tallyVote, isVoteFor, hw, hh, AList.lookup_insert_ne hne]
    · simp [tallyVote, isVoteFor, hr]

theorem toNat_tally (votes : Votes) (r : UInt32) (h : B256) (vs : ValidatorSet) :
    (((votes.tally r vs).lookup h).getD 0).toNat =
      min (vs.weights.of (votes.voters r h)) UInt64.maxNat := by
  rw [tally, foldl_tallyVote, weight_voters]; simp

/-- A hash picked by `quorum_hash` has votes of quorum weight, whatever the order of the visit. -/
theorem quorum_of_quorumHash {ord : TallyOrder} {q : UInt64}
    (hq : RoundState.quorumHash ord (votes.tally r vs) q = some h) :
    q.toNat ≤ vs.weights.of (votes.voters r h) := by
  obtain ⟨⟨h', w⟩, hmem, hw⟩ := List.exists_of_findSome?_eq_some hq
  simp only at hw
  split_ifs at hw with hle
  cases hw
  have hlook : (votes.tally r vs).lookup h = some w :=
    AList.mem_lookup_iff.mpr ((ord.mem_order).mp hmem)
  have := toNat_tally votes r h vs
  rw [hlook, Option.getD_some] at this
  have := UInt64.le_iff_toNat_le.mp hle
  omega

/-- The converse: where a hash has votes of quorum weight, some hash is picked. -/
theorem exists_quorumHash (ord : TallyOrder) {q : UInt64} (hpos : 0 < q.toNat)
    (hq : q.toNat ≤ vs.weights.of (votes.voters r h)) :
    ∃ h', RoundState.quorumHash ord (votes.tally r vs) q = some h' := by
  have ht := toNat_tally votes r h vs
  have hle := q.toNat_le_maxNat
  cases hlook : (votes.tally r vs).lookup h with
  | none =>
    rw [hlook, Option.getD_none, show (0 : UInt64).toNat = 0 from rfl] at ht
    omega
  | some w =>
    rw [hlook, Option.getD_some] at ht
    have hw : q ≤ w := UInt64.le_iff_toNat_le.mpr (by omega)
    refine Option.isSome_iff_exists.mp (List.findSome?_isSome_iff.mpr ⟨⟨h, w⟩, ?_, ?_⟩)
    · exact ord.mem_order.mpr (AList.mem_lookup_iff.mp hlook)
    · simp [hw]

theorem insertVote_of_notMem {b : Option B256} (hn : (r, v) ∉ votes) :
    votes.insertVote r v b = (AList.insert (r, v) b votes, true) := if_neg hn

theorem insertVote_of_mem {b : Option B256} (hm : (r, v) ∈ votes) :
    votes.insertVote r v b = (votes, false) := if_pos hm

theorem lookup_insert_of_lookup {b b' : Option B256} {k : UInt32 × UInt64} (hn : (r, v) ∉ votes)
    (hk : votes.lookup k = some b') : (AList.insert (r, v) b votes).lookup k = some b' := by
  have hne : k ≠ (r, v) := by
    rintro rfl
    exact hn (mem_iff_exists_lookup.mpr ⟨_, hk⟩)
  rw [AList.lookup_insert_ne hne, hk]

theorem voters_subset_insert {b : Option B256} (hn : (r, v) ∉ votes) (r' : UInt32) (h : B256) :
    votes.voters r' h ⊆ voters (AList.insert (r, v) b votes) r' h := by
  intro u hu
  rw [mem_voters] at hu ⊢
  exact lookup_insert_of_lookup hn hu

theorem lookup_insert_cases {b b' : Option B256} {k : UInt32 × UInt64}
    (hk : (AList.insert (r, v) b votes).lookup k = some b') :
    (k = (r, v) ∧ b' = b) ∨ votes.lookup k = some b' := by
  by_cases hkv : k = (r, v)
  · subst hkv
    rw [AList.lookup_insert] at hk
    exact .inl ⟨rfl, (Option.some.inj hk).symm⟩
  · rw [AList.lookup_insert_ne hkv] at hk
    exact .inr hk

end Votes

namespace ConsensusEngine
variable {e e' : ConsensusEngine} {ord : TallyOrder} {msg : ConsensusMessage} {evs : List ConsensusEvent}

/-! ### The outcomes of `on_message` -/

def attest (e : ConsensusEngine) (b : Option B256) (v : UInt64) :
    FastPathAccumulator × Option FastPathOutcome :=
  match b with
  | none => (e.fastPath, none)
  | some h => e.fastPath.addAttestation (e.attestation h v)

def acceptProposal (e : ConsensusEngine) (h : B256) : ConsensusEngine :=
  { e with state := { e.state with
      proposals := AList.insert e.state.round h e.state.proposals, step := .prevote } }

def storePrevote (e : ConsensusEngine) (b : Option B256) (v : UInt64) : ConsensusEngine :=
  { e with
    state := { e.state with prevotes := AList.insert (e.state.round, v) b e.state.prevotes }
    fastPath := (e.attest b v).1 }

def storePrecommit (e : ConsensusEngine) (b : Option B256) (v : UInt64) : ConsensusEngine :=
  { e with state := { e.state with precommits := AList.insert (e.state.round, v) b e.state.precommits } }

def lockOn (e : ConsensusEngine) (q : B256) : ConsensusEngine :=
  { e with state := { e.state with
      lockedRound := some e.state.round, lockedHash := some q, step := .precommit } }

def commit (e : ConsensusEngine) : ConsensusEngine :=
  { e with state := { e.state with step := .committed } }

def LockedOn (e : ConsensusEngine) (r : UInt32) (h : B256) : Prop :=
  e.state.lockedRound = some r ∧ e.state.lockedHash = some h

def PrevotesReach (e : ConsensusEngine) (r : UInt32) (h : B256) : Prop :=
  e.validatorSet.quorumWeight.toNat ≤ e.validatorSet.weights.of (e.state.prevotes.voters r h)

def PrecommitsReach (e : ConsensusEngine) (r : UInt32) (h : B256) : Prop :=
  e.validatorSet.quorumWeight.toNat ≤ e.validatorSet.weights.of (e.state.precommits.voters r h)

/-- Every outcome of a call of `on_message`: the new engine and the emitted events. -/
inductive MessageStep (e : ConsensusEngine) (msg : ConsensusMessage) :
    ConsensusEngine → List ConsensusEvent → Prop
  | ignored : MessageStep e msg e []
  | proposal (h : B256)
      (hmsg : msg = .proposal e.state.height e.state.round h
        (e.validatorSet.leaderForRound e.state.height e.state.round)) :
      MessageStep e msg (e.acceptProposal h)
        [.sendPrevote e.state.height e.state.round (some (e.state.lockedHash.getD h))]
  | prevote (b : Option B256) (v : UInt64) (hmsg : msg = .prevote e.state.height e.state.round b v)
      (fresh : (e.state.round, v) ∉ e.state.prevotes) : MessageStep e msg (e.storePrevote b v) []
  | lock (b : Option B256) (v : UInt64) (q : B256)
      (hmsg : msg = .prevote e.state.height e.state.round b v)
      (fresh : (e.state.round, v) ∉ e.state.prevotes)
      (quorum : (e.storePrevote b v).PrevotesReach e.state.round q) :
      MessageStep e msg ((e.storePrevote b v).lockOn q)
        [.sendPrecommit e.state.height e.state.round (some q)]
  | relock (b : Option B256) (v : UInt64) (q : B256)
      (hmsg : msg = .prevote e.state.height e.state.round b v)
      (fresh : (e.state.round, v) ∉ e.state.prevotes)
      (quorum : (e.storePrevote b v).PrevotesReach e.state.round q)
      (locked : e.LockedOn e.state.round q) (step : e.state.step = .precommit) :
      MessageStep e msg ((e.storePrevote b v).lockOn q) []
  | fastFinalize (h : B256) (v : UInt64) (p : FinalityProof)
      (hmsg : msg = .prevote e.state.height e.state.round (some h) v)
      (fresh : (e.state.round, v) ∉ e.state.prevotes)
      (fast : (e.fastPath.addAttestation (e.attestation h v)).2 = some (.fastFinalized p)) :
      MessageStep e msg (e.storePrevote (some h) v).commit
        [.blockFinalized e.state.height h e.state.round]
  | precommit (b : Option B256) (v : UInt64) (hmsg : msg = .precommit e.state.height e.state.round b v)
      (fresh : (e.state.round, v) ∉ e.state.precommits) : MessageStep e msg (e.storePrecommit b v) []
  | commit (b : Option B256) (v : UInt64) (q : B256)
      (hmsg : msg = .precommit e.state.height e.state.round b v)
      (fresh : (e.state.round, v) ∉ e.state.precommits)
      (quorum : (e.storePrecommit b v).PrecommitsReach e.state.round q) :
      MessageStep e msg (e.storePrecommit b v).commit
        [.blockFinalized e.state.height q e.state.round]

theorem lockOnQuorum_step {b : Option B256} {v : UInt64}
    (hmsg : msg = .prevote e.state.height e.state.round b v)
    (fresh : (e.state.round, v) ∉ e.state.prevotes) :
    MessageStep e msg ((e.storePrevote b v).lockOnQuorum ord e.state.height e.state.round).1
      ((e.storePrevote b v).lockOnQuorum ord e.state.height e.state.round).2 := by
  unfold lockOnQuorum
  simp only
  split
  · exact .prevote b v hmsg fresh
  · rename_i q hq
    have quorum : (e.storePrevote b v).PrevotesReach e.state.round q := Votes.quorum_of_quorumHash hq
    split_ifs with hemit
    · exact .lock b v q hmsg fresh quorum
    · simp only [not_or, not_not] at hemit
      exact .relock b v q hmsg fresh quorum ⟨hemit.2.2, hemit.2.1⟩ hemit.1

theorem onPrevote_step (b : Option B256) (v : UInt64)
    (hmsg : msg = .prevote e.state.height e.state.round b v) :
    MessageStep e msg (e.onPrevote ord e.state.height e.state.round b v).1
      (e.onPrevote ord e.state.height e.state.round b v).2 := by
  unfold onPrevote RoundState.insertPrevote
  by_cases hm : (e.state.round, v) ∈ e.state.prevotes
  · simp only [ne_eq, not_true_eq_false, or_self, if_false, Votes.insertVote_of_mem hm]
    exact .ignored
  · simp only [ne_eq, not_true_eq_false, or_self, if_false, Votes.insertVote_of_notMem hm]
    cases b with
    | none => exact lockOnQuorum_step hmsg hm
    | some h =>
      simp only
      split
      · rename_i fp p hfast
        have hp : (e.fastPath.addAttestation (e.attestation h v)).2 = some (.fastFinalized p) :=
          congrArg Prod.snd hfast
        have hfp : fp = (e.attest (some h) v).1 := (congrArg Prod.fst hfast).symm
        subst hfp
        exact .fastFinalize h v p hmsg hm hp
      · rename_i fp o _ hslow
        have hfp : fp = (e.attest (some h) v).1 := (congrArg Prod.fst hslow).symm
        subst hfp
        exact lockOnQuorum_step hmsg hm

theorem onPrecommit_step (b : Option B256) (v : UInt64)
    (hmsg : msg = .precommit e.state.height e.state.round b v) :
    MessageStep e msg (e.onPrecommit ord e.state.height e.state.round b v).1
      (e.onPrecommit ord e.state.height e.state.round b v).2 := by
  unfold onPrecommit RoundState.insertPrecommit
  by_cases hm : (e.state.round, v) ∈ e.state.precommits
  · simp only [ne_eq, not_true_eq_false, or_self, if_false, Votes.insertVote_of_mem hm]
    exact .ignored
  · simp only [ne_eq, not_true_eq_false, or_self, if_false, Votes.insertVote_of_notMem hm]
    split
    · exact .precommit b v hmsg hm
    · rename_i q hq
      exact .commit b v q hmsg hm (Votes.quorum_of_quorumHash hq)

theorem onMessage_step (e : ConsensusEngine) (ord : TallyOrder) (msg : ConsensusMessage) :
    MessageStep e msg (e.onMessage ord msg).1 (e.onMessage ord msg).2 := by
  unfold onMessage
  split_ifs with hc
  · exact .ignored
  cases msg with
  | proposal height round h proposer =>
    simp only [onProposal]
    split_ifs with h1 h2
    · exact .ignored
    · exact .ignored
    · simp only [not_or, not_not] at h1 h2
      obtain ⟨rfl, rfl⟩ := h1
      subst h2
      have hvote : e.state.lockedHash.or (some h) = some (e.state.lockedHash.getD h) := by
        cases e.state.lockedHash <;> rfl
      rw [hvote]
      exact .proposal h rfl
  | prevote height round b v =>
    by_cases h1 : height ≠ e.state.height ∨ round ≠ e.state.round
    · simp only [onPrevote, h1, if_true]; exact .ignored
    · simp only [not_or, not_not] at h1
      obtain ⟨rfl, rfl⟩ := h1
      exact onPrevote_step b v rfl
  | precommit height round b v =>
    by_cases h1 : height ≠ e.state.height ∨ round ≠ e.state.round
    · simp only [onPrecommit, h1, if_true]; exact .ignored
    · simp only [not_or, not_not] at h1
      obtain ⟨rfl, rfl⟩ := h1
      exact onPrecommit_step b v rfl

def nextRound (e : ConsensusEngine) : ConsensusEngine :=
  { e with state := e.state.advanceRound, fastPath := e.fastPath.reset }

/-- Everything one call can do. -/
inductive CallStep (e : ConsensusEngine) : Call → ConsensusEngine → List ConsensusEvent → Prop
  | start (height : UInt64) : CallStep e (.startHeight height) (e.startHeight height).1
      [.needProposal height 0 (e.validatorSet.leaderForRound height 0)]
  | message (ord : TallyOrder) (msg : ConsensusMessage) {e' : ConsensusEngine} {evs : List ConsensusEvent}
      (step : MessageStep e msg e' evs) : CallStep e (.onMessage ord msg) e' evs
  | late (hc : e.state.step = .committed) : CallStep e .onTimeout e []
  | timeout (hc : e.state.step ≠ .committed) : CallStep e .onTimeout e.nextRound
      [.roundTimeout e.state.height e.state.round,
       .needProposal e.state.height (e.state.round.saturatingAdd 1)
        (e.validatorSet.leaderForRound e.state.height (e.state.round.saturatingAdd 1))]

theorem call_step (e : ConsensusEngine) (c : Call) : CallStep e c (e.call c).1 (e.call c).2 := by
  cases c with
  | startHeight height => exact .start height
  | onMessage ord msg => exact .message ord msg (e.onMessage_step ord msg)
  | onTimeout =>
    by_cases hc : e.state.step = .committed
    · simp only [call, onTimeout, if_pos hc]; exact .late hc
    · simp only [call, onTimeout, if_neg hc]; exact .timeout hc

end ConsensusEngine

end Eth2077
