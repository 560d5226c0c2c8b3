import Eth2077.Oob.EngineInv

/-!
# What backs a finalised block

The precommit path weighs votes; the fast path counts attesters. `finality_backed` says when both
meet the same bar: with the fast path on, the prevotes that reach it must come from members of the
set, and the set must have weight. `add_attestation` checks neither, so one prevote from an unknown
index is enough on a one-validator devnet (`outsider_finalizes`).
-/

namespace Eth2077
namespace ConsensusEngine

variable {e e' : ConsensusEngine} {msg : ConsensusMessage} {evs : List ConsensusEvent}
  {vs : ValidatorSet} {cfg : FastPathConfig} {cs : List Call} {c : Call}

def received (cs : List Call) : List ConsensusMessage :=
  cs.filterMap fun c => match c with
    | .onMessage _ msg => some msg
    | _ => none

theorem received_append (cs cs' : List Call) : received (cs ++ cs') = received cs ++ received cs' :=
  List.filterMap_append

/-- The votes that justify finalising `h` at `height` and `r`: precommits or prevotes among `msgs` from
distinct members of quorum weight. -/
def Backed (vs : ValidatorSet) (msgs : List ConsensusMessage) (height : UInt64) (r : UInt32) (h : B256) :
    Prop :=
  (vs.Quorum fun v => .precommit height r (some h) v ∈ msgs) ∨
    vs.Quorum fun v => .prevote height r (some h) v ∈ msgs

/-- A prevote for a block that reaches the fast path names a member of the set. -/
def MemberPrevote (e : ConsensusEngine) : Call → Prop
  | .onMessage _ (.prevote height round (some _) voter) =>
    height = e.state.height → round = e.state.round → voter ∈ e.validatorSet.indices
  | _ => True

theorem stored_run (vs : ValidatorSet) (cfg : FastPathConfig) (cs : List Call) :
    Stored ((new vs cfg).after cs) (· ∈ received cs) := by
  induction cs using List.reverseRecOn with
  | nil => exact .of_empty rfl rfl
  | append_singleton cs c ih =>
    rw [after_concat, received_append]
    refine (ih.mono fun m hm => List.mem_append_left _ hm).call (call_step _ c) fun ord m hc => ?_
    subst hc
    simp [received]

/-! ### Members -/

def MembersOnly (e : ConsensusEngine) : Prop :=
  ∀ r v h, e.state.prevotes.lookup (r, v) = some (some h) → v ∈ e.validatorSet.indices

theorem MembersOnly.storePrevote (hm : MembersOnly e) {b : Option B256} {v : UInt64}
    (hv : ∀ h, b = some h → v ∈ e.validatorSet.indices) : MembersOnly (e.storePrevote b v) := by
  intro r u h hl
  rcases Votes.lookup_insert_cases hl with ⟨hk, hb⟩ | hl
  · cases hk; exact hv h hb.symm
  · exact hm r u h hl

theorem MembersOnly.call (hm : MembersOnly e) (hs : CallStep e c e' evs) (hc : MemberPrevote e c) :
    MembersOnly e' := by
  cases hs with
  | start height => intro r v h hl; cases hl
  | late | timeout => exact hm
  | message ord msg step =>
    have hv : ∀ b v, msg = .prevote e.state.height e.state.round b v →
        ∀ h, b = some h → v ∈ e.validatorSet.indices := by
      rintro b v rfl h rfl
      exact hc rfl rfl
    cases step with
    | ignored | proposal | precommit | commit => exact hm
    | prevote b v hmsg | lock b v q hmsg | relock b v q hmsg => exact hm.storePrevote (hv b v hmsg)
    | fastFinalize h v p hmsg => exact hm.storePrevote (hv _ v hmsg)

theorem membersOnly_run (hall : AllCalls MemberPrevote (new vs cfg) cs) :
    MembersOnly ((new vs cfg).after cs) := by
  induction cs using List.reverseRecOn with
  | nil => intro r v h hl; cases hl
  | append_singleton cs c ih =>
    rw [allCalls_concat] at hall
    rw [after_concat]
    exact (ih hall.1).call (call_step _ c) hall.2

/-! ### The configuration of the fast path -/

theorem MessageStep.config_eq (hs : MessageStep e msg e' evs) :
    e'.fastPath.config = e.fastPath.config := by
  have hst : ∀ b v, (e.storePrevote b v).fastPath.config = e.fastPath.config := by
    intro b v
    cases b with
    | none => rfl
    | some h => exact FastPathAccumulator.addAttestation_config _ _
  cases hs with
  | ignored | proposal | precommit | commit => rfl
  | prevote b v | lock b v | relock b v | fastFinalize b v => exact hst _ v

theorem CallStep.config_eq (hs : CallStep e c e' evs) : e'.fastPath.config = e.fastPath.config := by
  cases hs with
  | message ord msg step => exact step.config_eq
  | start | late | timeout => rfl

theorem after_config (e : ConsensusEngine) (cs : List Call) :
    (e.after cs).fastPath.config = e.fastPath.config := by
  induction cs generalizing e with
  | nil => rfl
  | cons c cs ih => rw [after_cons, ih, (e.call_step c).config_eq]

/-! ### Backing of finalised blocks -/

/-- A fast finalisation has `optimistic_threshold` distinct prevotes of the round behind it. -/
theorem Inv.fast_quorum (hi : Inv e) {h : B256} {v : UInt64} {p : FinalityProof}
    (fresh : (e.state.round, v) ∉ e.state.prevotes)
    (fast : (e.fastPath.addAttestation (e.attestation h v)).2 = some (.fastFinalized p)) :
    0 < e.fastPath.config.optimisticThreshold ∧ ∃ A : Finset UInt64,
      e.fastPath.config.optimisticThreshold ≤ A.card ∧ ∀ i ∈ A, (e.storePrevote (some h) v).HasPrevote i h := by
  cases hc : e.fastPath.conflictDetected with
  | true => simp [FastPathAccumulator.addAttestation, hc] at fast
  | false =>
    have hold : e.fastPath.Ok (e.storePrevote (some h) v).HasPrevote :=
      hi.fast.mono fun i b hp => hasPrevote_storePrevote fresh hp
    exact hold.fastFinalized (hasPrevote_storePrevote_self h v) (hi.attester_ne fresh hc) fast

theorem quorum_of_card (hd : vs.DistinctIndices) (hw : vs.totalWeight ≠ 0) {A : Finset UInt64}
    (hA : A ⊆ vs.indices) (hcard : vs.len ≤ A.card) : vs.quorumWeight.toNat ≤ vs.weights.of A := by
  have hlen : vs.indices.card = vs.len := ValidatorSet.card_indices hd
  have hAeq : A = vs.indices := Finset.eq_of_subset_of_card_le hA (by omega)
  have htot : vs.weights.of A = vs.weightSum := by rw [hAeq]; exact ValidatorSet.weights_total hd
  have := ValidatorSet.quorumWeight_le hw
  have : vs.totalWeight.toNat = min vs.weightSum UInt64.maxNat := ValidatorSet.toNat_totalWeight
  omega

variable {height : UInt64} {r : UInt32} {h : B256}

/-- Every finalised block is backed by received votes of quorum weight, in every run in which the fast
path is off, or the set has weight and the prevotes that reach the fast path are members'. -/
theorem finality_backed (vs : ValidatorSet) (cfg : FastPathConfig) (cs : List Call) (c : Call)
    (hd : vs.DistinctIndices)
    (hthr : cfg.optimisticThreshold = 0 ∨ vs.len ≤ cfg.optimisticThreshold)
    (hcond : cfg.optimisticThreshold = 0 ∨
      (vs.totalWeight ≠ 0 ∧ AllCalls MemberPrevote (new vs cfg) (cs ++ [c])))
    (hm : .blockFinalized height h r ∈ (((new vs cfg).after cs).call c).2) :
    Backed vs (received (cs ++ [c])) height r h := by
  have hi : Inv ((new vs cfg).after cs) := inv_run vs cfg cs
  have hcfg : ((new vs cfg).after cs).fastPath.config = cfg := after_config _ cs
  have hvs : ((new vs cfg).after cs).validatorSet = vs := after_validatorSet _ cs
  have hst : Stored (((new vs cfg).after cs).call c).1 (· ∈ received (cs ++ [c])) := by
    have := stored_run vs cfg (cs ++ [c])
    rwa [after_concat] at this
  have hmem : cfg.optimisticThreshold ≠ 0 → MembersOnly (((new vs cfg).after cs).call c).1 := by
    intro h0
    have := membersOnly_run (hcond.resolve_left h0).2
    rwa [after_concat] at this
  generalize (new vs cfg).after cs = e at *
  obtain ⟨ord, msg, -, hs⟩ := (e.call_step c).of_mem hm rfl
  generalize (e.call c).1 = e' at *
  generalize (e.call c).2 = evs at *
  obtain ⟨rfl, rfl, hq | ⟨v, p, -, fresh, fast, rfl⟩⟩ := hs.finalized hm
  · left
    rw [PrecommitsReach, hs.validatorSet_eq, hvs] at hq
    refine ValidatorSet.quorum_of_weights hq fun u hu => ?_
    rw [← hs.height_eq]
    exact hst.precommits _ _ _ (Votes.mem_voters.mp hu)
  · right
    obtain ⟨hpos, A, hcard, hA⟩ := hi.fast_quorum fresh fast
    rw [hcfg] at hpos hcard
    have h0 : cfg.optimisticThreshold ≠ 0 := by omega
    have hsub : A ⊆ vs.indices := by
      intro i hiA
      have := hmem h0 _ i h (hA i hiA)
      rwa [show (e.storePrevote (some h) v).commit.validatorSet = vs from hvs] at this
    have hq := quorum_of_card hd (hcond.resolve_left h0).1 hsub ((hthr.resolve_left h0).trans hcard)
    exact ValidatorSet.quorum_of_weights hq fun u hu => hst.prevotes _ _ _ (hA u hu)

/-! ### The devnet configuration -/

/-- The validator set of the devnet binary: the node itself. -/
def devnetValidatorSet (peerId : UInt64) : ValidatorSet := .new [⟨peerId, 1, FixedBytes.zero⟩]

def devnetFastPathConfig : FastPathConfig where
  quorumThreshold := 1
  timeoutMs := 5000
  optimisticThreshold := 1

theorem finality_backed_devnet :
    Backed (devnetValidatorSet 1) [.prevote 1 0 (some FixedBytes.zero) 1] 1 0 FixedBytes.zero :=
  finality_backed (devnetValidatorSet 1) devnetFastPathConfig [.startHeight 1]
    (.onMessage .stored (.prevote 1 0 (some FixedBytes.zero) 1)) (by decide) (.inr (by decide))
    (.inr ⟨by decide, trivial, fun _ _ => by decide, trivial⟩) (by decide)

/-- The devnet node finalises any hash that an unknown index prevotes, with no member behind it. -/
theorem outsider_finalizes :
    (devnetValidatorSet 1).DistinctIndices ∧
    (devnetValidatorSet 1).len ≤ devnetFastPathConfig.optimisticThreshold ∧
    .blockFinalized 1 FixedBytes.zero 0 ∈
      (((new (devnetValidatorSet 1) devnetFastPathConfig).after [.startHeight 1]).call
        (.onMessage .stored (.prevote 1 0 (some FixedBytes.zero) 99))).2 ∧
    ¬ Backed (devnetValidatorSet 1)
      (received [.startHeight 1, .onMessage .stored (.prevote 1 0 (some FixedBytes.zero) 99)])
      1 0 FixedBytes.zero := by
  refine ⟨by decide, by decide, by decide, ?_⟩
  have hno : ∀ (P : UInt64 → Prop), (∀ v, P v → v = 99) → ¬ (devnetValidatorSet 1).Quorum P := by
    rintro P hP ⟨A, hA, hv, hq⟩
    have hA0 : A = ∅ := by
      refine Finset.eq_empty_of_forall_notMem fun v hvA => ?_
      have hmem := hA hvA
      rw [hP v (hv v hvA)] at hmem
      exact absurd hmem (by decide)
    rw [hA0] at hq
    exact absurd hq (by decide)
  rintro (hq | hq)
  · exact hno _ (fun v hv => by simp [received] at hv) hq
  · exact hno _ (fun v hv => by simpa [received] using hv) hq

end ConsensusEngine
end Eth2077
