import Eth2077.Types.Eip7999

/-!
# Base fees that follow the load (`types/src/eip7999.rs`, `update_base_fees`)

An update raises the base fee of a dimension by an eighth if its usage was above the target, lowers it by an eighth if it
was below, and lifts a fee of zero to one. The eighth is rounded down.
-/

namespace Eth2077
namespace Eip7999

def usageOf (actualUsage : List (ResourceDimension × UInt64)) (dimension : ResourceDimension) : UInt64 :=
  ((actualUsage.find? fun u => u.1 = dimension).map Prod.snd).getD 0

def DimensionParams.adjustedFee (p : DimensionParams) (usage : UInt64) : U128 :=
  let adjustment := p.baseFee / 8
  if p.targetUsage < usage then p.baseFee.saturatingAdd adjustment
  else if usage < p.targetUsage then p.baseFee.saturatingSub adjustment
  else p.baseFee

/-- The body of the loop of `update_base_fees`. -/
def DimensionParams.updateBaseFee (actualUsage : List (ResourceDimension × UInt64)) (p : DimensionParams) :
    DimensionParams :=
  let fee := p.adjustedFee (usageOf actualUsage p.dimension)
  { p with baseFee := if fee = 0 then 1 else fee }

def updateBaseFees (params : List DimensionParams) (actualUsage : List (ResourceDimension × UInt64)) :
    List DimensionParams :=
  params.map (·.updateBaseFee actualUsage)

/-- The parameters after some updates. -/
def afterUpdates (params : List DimensionParams) (usages : List (List (ResourceDimension × UInt64))) :
    List DimensionParams :=
  usages.foldl updateBaseFees params

/-- How an update answers to the usage of a dimension. -/
structure Responds (usage : UInt64) (p p' : DimensionParams) : Prop where
  kept : p' = { p with baseFee := p'.baseFee }
  floor : p'.baseFee ≠ 0
  above : p.targetUsage < usage → p.baseFee = 0 ∨ 8 ≤ p.baseFee → p.baseFee ≠ .allOnes 128 → p.baseFee < p'.baseFee
  below : usage < p.targetUsage → p.baseFee ≠ 0 → p'.baseFee ≤ p.baseFee
  atTarget : usage = p.targetUsage → p.baseFee ≠ 0 → p'.baseFee = p.baseFee
  lifted : p.baseFee = 0 → p'.baseFee = 1
  eighth : 8 ≤ p.baseFee → 8 * (p'.baseFee.toNat - p.baseFee.toNat) ≤ p.baseFee.toNat ∧
    8 * (p.baseFee.toNat - p'.baseFee.toNat) ≤ p.baseFee.toNat

section Step
variable {p : DimensionParams} {usage : UInt64}

theorem toNat_eighth (fee : U128) : (fee / 8).toNat = fee.toNat / 8 := by
  rw [BitVec.toNat_udiv]
  rfl

theorem toNat_adjustedFee_above (h : p.targetUsage < usage) :
    (p.adjustedFee usage).toNat = min (p.baseFee.toNat + p.baseFee.toNat / 8) (BitVec.maxNat 128) := by
  unfold DimensionParams.adjustedFee
  dsimp only
  rw [if_pos h, BitVec.toNat_saturatingAdd, toNat_eighth]

theorem toNat_adjustedFee_below (h : usage < p.targetUsage) :
    (p.adjustedFee usage).toNat = p.baseFee.toNat - p.baseFee.toNat / 8 := by
  unfold DimensionParams.adjustedFee
  dsimp only
  rw [if_neg (UInt64.lt_asymm h), if_pos h, BitVec.toNat_saturatingSub, toNat_eighth]

theorem adjustedFee_atTarget (h : usage = p.targetUsage) : p.adjustedFee usage = p.baseFee := by
  subst h
  unfold DimensionParams.adjustedFee
  simp

theorem above_or_below_or_atTarget (usage target : UInt64) : target < usage ∨ usage < target ∨ usage = target := by
  rw [UInt64.lt_iff_toNat_lt, UInt64.lt_iff_toNat_lt, ← UInt64.toNat_inj]
  omega

/-- Zero is what only zero is adjusted to. -/
theorem adjustedFee_eq_zero : p.adjustedFee usage = 0 ↔ p.baseFee = 0 := by
  rw [← BitVec.toNat_inj, ← BitVec.toNat_inj, show (0 : U128).toNat = 0 from rfl]
  have hmax : 0 < BitVec.maxNat 128 := by decide
  rcases above_or_below_or_atTarget usage p.targetUsage with habove | hbelow | hat
  · rw [toNat_adjustedFee_above habove]
    omega
  · rw [toNat_adjustedFee_below hbelow]
    omega
  · rw [adjustedFee_atTarget hat]

end Step

theorem baseFee_updateBaseFee_zero (actualUsage : List (ResourceDimension × UInt64)) {p : DimensionParams}
    (h : p.baseFee = 0) : (p.updateBaseFee actualUsage).baseFee = 1 := if_pos (adjustedFee_eq_zero.mpr h)

theorem baseFee_updateBaseFee (actualUsage : List (ResourceDimension × UInt64)) {p : DimensionParams}
    (h : p.baseFee ≠ 0) :
    (p.updateBaseFee actualUsage).baseFee = p.adjustedFee (usageOf actualUsage p.dimension) :=
  if_neg fun hzero => h (adjustedFee_eq_zero.mp hzero)

/-- One update. -/
theorem responds_updateBaseFee (actualUsage : List (ResourceDimension × UInt64)) (p : DimensionParams) :
    Responds (usageOf actualUsage p.dimension) p (p.updateBaseFee actualUsage) := by
  have hle := p.baseFee.toNat_le_maxNat
  by_cases hzero : p.baseFee = 0
  · have hone := baseFee_updateBaseFee_zero actualUsage hzero
    have hnot : ¬ 8 ≤ p.baseFee := by
      rw [hzero]
      decide
    refine ⟨rfl, ?_, ?_, fun _ h => absurd hzero h, fun _ h => absurd hzero h, fun _ => hone, fun h => absurd h hnot⟩
    · rw [hone]
      decide
    · rw [hone, hzero]
      intros
      decide
  · have hfee := baseFee_updateBaseFee actualUsage hzero
    refine ⟨rfl, ?_, ?_, ?_, ?_, fun h => absurd h hzero, ?_⟩
    · rw [hfee]
      exact fun h => hzero (adjustedFee_eq_zero.mp h)
    · intro habove hlarge hmax
      have hlarge : 8 ≤ p.baseFee.toNat := BitVec.le_def.mp (hlarge.resolve_left hzero)
      have hmax : p.baseFee.toNat ≠ BitVec.maxNat 128 := fun h => hmax (BitVec.eq_of_toNat_eq h)
      rw [hfee, BitVec.lt_def, toNat_adjustedFee_above habove]
      omega
    · intro hbelow _
      rw [hfee, BitVec.le_def, toNat_adjustedFee_below hbelow]
      exact Nat.sub_le _ _
    · intro hat _
      rw [hfee, adjustedFee_atTarget hat]
    · intro _
      rw [hfee]
      rcases above_or_below_or_atTarget (usageOf actualUsage p.dimension) p.targetUsage with habove | hbelow | hat
      · rw [toNat_adjustedFee_above habove]
        omega
      · rw [toNat_adjustedFee_below hbelow]
        omega
      · rw [adjustedFee_atTarget hat]
        omega

theorem afterUpdates_append (params : List DimensionParams) (usages : List (List (ResourceDimension × UInt64)))
    (usage : List (ResourceDimension × UInt64)) :
    afterUpdates params (usages ++ [usage]) = updateBaseFees (afterUpdates params usages) usage := by
  rw [afterUpdates, List.foldl_append]
  rfl

/-- Every update of a run answers to the usages it is given, and no fee is zero after it. -/
theorem base_fees_respond (params : List DimensionParams) (usages : List (List (ResourceDimension × UInt64)))
    (usage : List (ResourceDimension × UInt64)) :
    List.Forall₂ (fun p p' => Responds (usageOf usage p.dimension) p p')
      (afterUpdates params usages) (afterUpdates params (usages ++ [usage])) ∧
    ∀ p ∈ afterUpdates params (usages ++ [usage]), p.baseFee ≠ 0 := by
  rw [afterUpdates_append]
  constructor
  · rw [updateBaseFees, List.forall₂_map_right_iff, List.forall₂_same]
    exact fun p _ => responds_updateBaseFee usage p
  · rintro p' hp'
    obtain ⟨p, -, rfl⟩ := List.mem_map.mp hp'
    exact (responds_updateBaseFee usage p).floor

/-- A fee of zero rises below the target, and a fee of seven does not rise above it. -/
theorem base_fees_not_always_respond :
    updateBaseFees [⟨.computation, 0, 10, 20, 2⟩] [(.computation, 9)] = [⟨.computation, 1, 10, 20, 2⟩] ∧
    updateBaseFees [⟨.computation, 7, 10, 20, 2⟩] [(.computation, 11)] = [⟨.computation, 7, 10, 20, 2⟩] :=
  ⟨rfl, rfl⟩

end Eip7999
end Eth2077
