import Mathlib.Algebra.BigOperators.Ring.List
import Mathlib.Algebra.Order.BigOperators.Group.List
import Mathlib.Algebra.Order.Ring.Nat

/-!
# Shares in proportion

An amount is split in proportion to costs, and every share is rounded down. The shares never add up to more than the
amount, so what is left over can be handed to someone.
-/

namespace ProRata

variable {amount : ℕ} {costs : List ℕ} {share : ℕ → ℕ}

theorem sum_shares_le (h : ∀ c ∈ costs, share c ≤ amount * c / costs.sum) : (costs.map share).sum ≤ amount := by
  rcases Nat.eq_zero_or_pos costs.sum with hzero | hpos
  · have hnone : (costs.map share).sum = 0 := by
      refine List.sum_eq_zero fun s hs => ?_
      obtain ⟨c, hc, rfl⟩ := List.mem_map.mp hs
      have := h c hc
      rwa [hzero, Nat.div_zero, Nat.le_zero] at this
    omega
  · have hscaled : costs.sum * (costs.map share).sum ≤ costs.sum * amount :=
      calc costs.sum * (costs.map share).sum = (costs.map fun c => costs.sum * share c).sum :=
            (List.sum_map_mul_left ..).symm
        _ ≤ (costs.map fun c => amount * c).sum := List.sum_le_sum fun c hc =>
            (Nat.mul_le_mul_left _ (h c hc)).trans (Nat.mul_div_le _ _)
        _ = costs.sum * amount := by rw [List.sum_map_mul_left, List.map_id', Nat.mul_comm]
    exact Nat.le_of_mul_le_mul_left hscaled hpos

end ProRata
