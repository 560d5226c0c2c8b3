import Mathlib.Algebra.BigOperators.Group.Finset.Basic
import Mathlib.Algebra.Order.BigOperators.Group.Finset

/-!
# Weighted quorums

Vote weights on an arbitrary type of voters and the one counting fact everything rests on: two
sets of voters overlap in at least the weight by which they exceed the total.
-/

namespace WeightedQuorum

/-- Vote weights; only the finitely many `members` carry any. -/
structure Weights (V : Type*) where
  members : Finset V
  weight : V → ℕ
  supp : ∀ v, v ∉ members → weight v = 0

namespace Weights

variable {V : Type*} (W : Weights V) {A B byz : Finset V} {q : ℕ}

def of (A : Finset V) : ℕ := ∑ v ∈ A, W.weight v

def total : ℕ := W.of W.members

theorem of_mono (h : A ⊆ B) : W.of A ≤ W.of B := Finset.sum_le_sum_of_subset h

variable [DecidableEq V]

theorem of_inter_members (A : Finset V) : W.of (A ∩ W.members) = W.of A :=
  Finset.sum_subset Finset.inter_subset_left fun v hA hv =>
    W.supp v fun hm => hv (Finset.mem_inter.mpr ⟨hA, hm⟩)

theorem of_le_total (A : Finset V) : W.of A ≤ W.total := by
  rw [← W.of_inter_members A]
  exact W.of_mono Finset.inter_subset_right

theorem of_union_add_of_inter (A B : Finset V) : W.of (A ∪ B) + W.of (A ∩ B) = W.of A + W.of B :=
  Finset.sum_union_inter

theorem of_add_of_le (A B : Finset V) : W.of A + W.of B ≤ W.total + W.of (A ∩ B) := by
  rw [← W.of_union_add_of_inter A B]
  exact Nat.add_le_add_right (W.of_le_total _) _

/-- Two quorums whose weights exceed the total by more than `byz` weighs share a member outside
`byz`. -/
theorem exists_common (hA : q ≤ W.of A) (hB : q ≤ W.of B) (hq : W.total + W.of byz < 2 * q) :
    ∃ v, v ∈ A ∧ v ∈ B ∧ v ∈ W.members ∧ v ∉ byz := by
  by_contra hne
  have hsub : A ∩ B ∩ W.members ⊆ byz := by
    intro v hv
    simp only [Finset.mem_inter] at hv
    by_contra hb
    exact hne ⟨v, hv.1.1, hv.1.2, hv.2, hb⟩
  have h1 := W.of_add_of_le A B
  have h2 := W.of_mono hsub
  rw [W.of_inter_members] at h2
  omega

theorem exists_mem_of_lt (h : W.of B < W.of A) : ∃ v, v ∈ A ∧ v ∈ W.members ∧ v ∉ B := by
  by_contra hne
  have hsub : A ∩ W.members ⊆ B := by
    intro v hv
    by_contra hb
    exact hne ⟨v, (Finset.mem_inter.mp hv).1, (Finset.mem_inter.mp hv).2, hb⟩
  have := W.of_mono hsub
  rw [W.of_inter_members] at this
  omega

theorem exists_mem (hA : q ≤ W.of A) (hq : W.total + W.of byz < 2 * q) :
    ∃ v, v ∈ A ∧ v ∈ W.members ∧ v ∉ byz := by
  obtain ⟨v, hv, -, hm, hb⟩ := W.exists_common hA hA hq
  exact ⟨v, hv, hm, hb⟩

end Weights

end WeightedQuorum
