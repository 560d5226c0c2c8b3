import Mathlib.Algebra.GroupWithZero.Action.Defs
import Mathlib.Algebra.Order.BigOperators.Group.List
import Mathlib.Algebra.Order.Ring.Nat

/-!
# Work lists

A loop pops an item off a list, and handling it may put new items on. If every item weighs more than all that its
handling puts on, the loop ends, after no more rounds than the items weigh together. What else the state holds, and what
is chosen anew in each round, does not matter.
-/

namespace Worklist
variable {S A C : Type*}

/-- `while let Some(item) = pending.pop()`, for at most so many rounds; `none` if it has not ended by then. -/
def loop (pending : S → List A) (handle : C → S → A → S) : (ℕ → C) → ℕ → S → Option S
  | _, 0, s => if pending s = [] then some s else none
  | choices, rounds + 1, s =>
    match (pending s).getLast? with
    | none => some s
    | some item => loop pending handle (fun n => choices (n + 1)) rounds (handle (choices 0) s item)

variable {pending : S → List A} {handle : C → S → A → S} {weight : A → ℕ}

/-- Handling an item takes it off the list and puts on what weighs less. -/
def Lightens (pending : S → List A) (handle : C → S → A → S) (weight : A → ℕ) : Prop :=
  ∀ c s item, (pending s).getLast? = some item → ∃ more, pending (handle c s item) = (pending s).dropLast ++ more ∧
    (more.map weight).sum < weight item

def load (pending : S → List A) (weight : A → ℕ) (s : S) : ℕ := ((pending s).map weight).sum

theorem load_le {bound : ℕ} (hbound : ∀ item, weight item ≤ bound) (s : S) :
    load pending weight s ≤ bound * (pending s).length := by
  have h := List.sum_le_card_nsmul ((pending s).map weight) bound (by simpa using fun item _ => hbound item)
  rwa [List.length_map, smul_eq_mul, Nat.mul_comm] at h

theorem Lightens.load_lt (h : Lightens pending handle weight) {c : C} {s : S} {item : A}
    (hitem : (pending s).getLast? = some item) : load pending weight (handle c s item) < load pending weight s := by
  obtain ⟨more, hmore, hlt⟩ := h c s item hitem
  have hs : pending s = (pending s).dropLast ++ [item] := (List.dropLast_append_getLast? item hitem).symm
  have hload : load pending weight s = ((pending s).dropLast.map weight).sum + weight item := by
    rw [load, hs]
    simp
  rw [hload, load, hmore, List.map_append, List.sum_append]
  omega

/-- The loop ends with an empty list, and more rounds change nothing. -/
theorem Lightens.loop_ends (h : Lightens pending handle weight) (choices : ℕ → C) (s : S) :
    ∃ t, pending t = [] ∧ ∀ rounds ≥ load pending weight s, loop pending handle choices rounds s = some t := by
  induction hn : load pending weight s using Nat.strong_induction_on generalizing choices s with
  | _ n ih =>
    cases hlast : (pending s).getLast? with
    | none =>
      have hnil : pending s = [] := List.getLast?_eq_none_iff.mp hlast
      refine ⟨s, hnil, fun rounds _ => ?_⟩
      cases rounds with
      | zero => rw [loop, if_pos hnil]
      | succ rounds => rw [loop, hlast]
    | some item =>
      have hlt : load pending weight (handle (choices 0) s item) < n := hn ▸ h.load_lt hlast
      obtain ⟨t, ht, hrounds⟩ := ih _ hlt (fun n => choices (n + 1)) (handle (choices 0) s item) rfl
      refine ⟨t, ht, fun rounds hle => ?_⟩
      obtain ⟨rounds, rfl⟩ : ∃ m, rounds = m + 1 := ⟨rounds - 1, by omega⟩
      rw [loop, hlast]
      exact hrounds rounds (by omega)

end Worklist
