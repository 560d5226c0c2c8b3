import Eth2077.Oob.Validator

/-!
# Quorum intersection

Two sets of quorum weight share more than the fault budget when the total weight is `3f + 1`. For
`3f + 2` and `3f + 3` the quorum `2f + 1` is too small, and whether it shows depends on how finely
the weight is spread: `quorumsIntersect_iff` names the divisions of the members that break it.
-/

namespace Eth2077
namespace ValidatorSet
open WeightedQuorum

variable {vs : ValidatorSet} {A B X Y Z : Finset UInt64} {x y z : ℕ}

/-- Any two sets of quorum weight have more than the fault budget in common. -/
def QuorumsIntersect (vs : ValidatorSet) : Prop :=
  ∀ A B : Finset UInt64, A ⊆ vs.indices → B ⊆ vs.indices →
    vs.quorumWeight.toNat ≤ vs.weights.of A → vs.quorumWeight.toNat ≤ vs.weights.of B →
    vs.faultBudget < vs.weights.of (A ∩ B)

/-- The members fall into three groups of the given weights. -/
def DividesInto (vs : ValidatorSet) (x y z : ℕ) : Prop :=
  ∃ X Y Z : Finset UInt64, Disjoint X Y ∧ Disjoint X Z ∧ Disjoint Y Z ∧ X ∪ Y ∪ Z = vs.indices ∧
    vs.weights.of X = x ∧ vs.weights.of Y = y ∧ vs.weights.of Z = z

/-- The divisions that leave two groups able to reach a quorum with the help of the third, whose
weight is within the fault budget. -/
def Splits (vs : ValidatorSet) : Prop :=
  let f := vs.faultBudget
  (vs.weightSum = 3 * f + 2 ∧ vs.DividesInto (f + 1) (f + 1) f) ∨
    (vs.weightSum = 3 * f + 3 ∧
      (vs.DividesInto (f + 1) (f + 2) f ∨ 1 ≤ f ∧ vs.DividesInto (f + 2) (f + 2) (f - 1)))

theorem DividesInto.swap (h : vs.DividesInto x y z) : vs.DividesInto y x z := by
  obtain ⟨X, Y, Z, hXY, hXZ, hYZ, hU, hx, hy, hz⟩ := h
  exact ⟨Y, X, Z, hXY.symm, hYZ, hXZ, by rw [Finset.union_comm Y X, hU], hy, hx, hz⟩

theorem weights_of_union (h : Disjoint A B) : vs.weights.of (A ∪ B) = vs.weights.of A + vs.weights.of B :=
  Finset.sum_union h

theorem exists_division (hd : vs.DistinctIndices) (hA : A ⊆ vs.indices) (hB : B ⊆ vs.indices) :
    ∃ x y, vs.DividesInto x y (vs.weights.of (A ∩ B)) ∧
      vs.weights.of A = x + vs.weights.of (A ∩ B) ∧ vs.weights.of B ≤ y + vs.weights.of (A ∩ B) ∧
      x + y + vs.weights.of (A ∩ B) = vs.weightSum := by
  have hXZ : Disjoint (A \ B) (A ∩ B) := Finset.disjoint_sdiff_inter A B
  have hAY : Disjoint A (vs.indices \ A) := Finset.disjoint_sdiff
  have hAeq : A \ B ∪ A ∩ B = A := Finset.sdiff_union_inter A B
  have hwA : vs.weights.of A = vs.weights.of (A \ B) + vs.weights.of (A ∩ B) := by
    rw [← weights_of_union hXZ, hAeq]
  have hU : A ∪ vs.indices \ A = vs.indices := Finset.union_sdiff_of_subset hA
  refine ⟨_, _, ⟨A \ B, vs.indices \ A, A ∩ B, ?_, hXZ, ?_, ?_, rfl, rfl, rfl⟩, hwA, ?_, ?_⟩
  · exact hAY.mono_left Finset.sdiff_subset
  · exact (hAY.mono_left Finset.inter_subset_left).symm
  · rw [Finset.union_right_comm, hAeq, hU]
  · have hsub : B ⊆ vs.indices \ A ∪ A ∩ B := by
      intro v hv
      by_cases hvA : v ∈ A
      · exact Finset.mem_union_right _ (Finset.mem_inter.mpr ⟨hvA, hv⟩)
      · exact Finset.mem_union_left _ (Finset.mem_sdiff.mpr ⟨hB hv, hvA⟩)
    refine (vs.weights.of_mono hsub).trans_eq (weights_of_union ?_)
    exact (hAY.mono_left Finset.inter_subset_left).symm
  · have htot : vs.weights.of A + vs.weights.of (vs.indices \ A) = vs.weightSum := by
      rw [← weights_of_union hAY, hU]
      exact weights_total hd
    omega

theorem not_quorumsIntersect (h : vs.DividesInto x y z) (hx : vs.quorumWeight.toNat ≤ x + z)
    (hy : vs.quorumWeight.toNat ≤ y + z) (hz : z ≤ vs.faultBudget) : ¬ vs.QuorumsIntersect := by
  obtain ⟨X, Y, Z, hXY, hXZ, hYZ, hU, rfl, rfl, rfl⟩ := h
  intro hint
  have hXU : X ∪ Z ⊆ vs.indices := by
    rw [← hU, Finset.union_right_comm]; exact Finset.subset_union_left
  have hYU : Y ∪ Z ⊆ vs.indices := by
    rw [← hU, Finset.union_assoc]; exact Finset.subset_union_right
  have hcommon : (X ∪ Z) ∩ (Y ∪ Z) = Z := by
    rw [← Finset.inter_union_distrib_right, Finset.disjoint_iff_inter_eq_empty.mp hXY, Finset.empty_union]
  have := hint (X ∪ Z) (Y ∪ Z) hXU hYU (by rwa [weights_of_union hXZ]) (by rwa [weights_of_union hYZ])
  rw [hcommon] at this
  omega

theorem toNat_totalWeight_of_le (hW : vs.weightSum ≤ UInt64.maxNat) : vs.totalWeight.toNat = vs.weightSum := by
  rw [toNat_totalWeight, min_eq_left hW]

/-- Exactly the sets that split break quorum intersection. In particular none does whose total is
zero or of the form `3f + 1`. -/
theorem quorumsIntersect_iff (hd : vs.DistinctIndices) (hW : vs.weightSum ≤ UInt64.maxNat) :
    vs.QuorumsIntersect ↔ ¬ vs.Splits := by
  have hq : vs.quorumWeight.toNat = 2 * vs.faultBudget + 1 := toNat_quorumWeight
  have hf : vs.faultBudget = (vs.weightSum - 1) / 3 := by rw [faultBudget, toNat_totalWeight_of_le hW]
  constructor
  · rintro hint (⟨-, h⟩ | ⟨-, h | ⟨hf1, h⟩⟩)
    · exact not_quorumsIntersect h (by omega) (by omega) le_rfl hint
    · exact not_quorumsIntersect h (by omega) (by omega) le_rfl hint
    · exact not_quorumsIntersect h (by omega) (by omega) (by omega) hint
  · intro hns A B hA hB hwA hwB
    by_contra hle
    obtain ⟨x, y, hdiv, hx, hy, hsum⟩ := exists_division hd hA hB
    generalize vs.weights.of (A ∩ B) = z at *
    generalize hfb : vs.faultBudget = f at *
    apply hns
    rw [Splits, hfb]
    have hcase : vs.weightSum = 3 * f + 2 ∨ vs.weightSum = 3 * f + 3 := by omega
    rcases hcase with h2 | h3
    · obtain ⟨rfl, rfl, rfl⟩ : x = f + 1 ∧ y = f + 1 ∧ z = f := by omega
      exact .inl ⟨h2, hdiv⟩
    · refine .inr ⟨h3, ?_⟩
      by_cases hz : z = f
      · subst hz
        rcases (by omega : x = z + 1 ∧ y = z + 2 ∨ x = z + 2 ∧ y = z + 1) with ⟨rfl, rfl⟩ | ⟨rfl, rfl⟩
        · exact .inl hdiv
        · exact .inl hdiv.swap
      · obtain ⟨rfl, rfl, rfl, hf1⟩ : x = f + 2 ∧ y = f + 2 ∧ z = f - 1 ∧ 1 ≤ f := by omega
        exact .inr ⟨hf1, hdiv⟩

/-- `n` validators of weight one, as the testnet and the tests build them. -/
def unitSet (n : Nat) : ValidatorSet :=
  .new ((List.range n).map fun i => ⟨UInt64.ofNat i, 1, FixedBytes.zero⟩)

theorem quorumsIntersect_four : (unitSet 4).QuorumsIntersect :=
  (quorumsIntersect_iff (by decide) (by decide)).mpr
    (by rintro (⟨h, -⟩ | ⟨h, -⟩) <;> exact absurd h (by decide))

theorem not_quorumsIntersect_two : (unitSet 2).DistinctIndices ∧ (unitSet 2).weightSum ≤ UInt64.maxNat ∧
    ¬ (unitSet 2).QuorumsIntersect := by
  refine ⟨by decide, by decide, fun hint => ?_⟩
  have := hint {0} {1} (by decide) (by decide) (by decide) (by decide)
  exact absurd this (by decide)

end ValidatorSet
end Eth2077
