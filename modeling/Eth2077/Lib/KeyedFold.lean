import Mathlib.Data.List.Nodup
import Mathlib.Tactic.Common

/-!
# Loops that write at keys

A loop over items each of which has a key, and whose step changes what is stored at the key of its item and nothing
else. What a key has in the end is then made of the items with that key alone, in their order, and if the keys are
distinct the order of the items does not matter.
-/

namespace KeyedFold
variable {S K W α : Type*}

/-- A step writes at the key of its item and nowhere else. -/
structure Local (view : S → K → W) (key : α → K) (write : α → W → W) (step : S → α → S) : Prop where
  self : ∀ s a, view (step s a) (key a) = write a (view s (key a))
  other : ∀ s a k, k ≠ key a → view (step s a) k = view s k

variable {view : S → K → W} {key : α → K} {write : α → W → W} {step : S → α → S} {l : List α} {s : S} {k : K} {a : α}

/-- Nothing is written at a key that no item has, also where what is written depends on more than the view. -/
theorem foldl_of_notMem (view : S → K → W) (hother : ∀ s a k, k ≠ key a → view (step s a) k = view s k)
    (hk : ∀ a ∈ l, key a ≠ k) : view (l.foldl step s) k = view s k := by
  induction l generalizing s with
  | nil => rfl
  | cons a l ih =>
    rw [List.foldl_cons, ih fun b hb => hk b (List.mem_cons_of_mem a hb)]
    exact hother s a k (hk a List.mem_cons_self).symm

/-- The items with other keys may be left out. -/
theorem Local.foldl_filter [DecidableEq K] (h : Local view key write step) :
    view (l.foldl step s) k = (l.filter fun a => key a = k).foldl (fun w a => write a w) (view s k) := by
  induction l generalizing s with
  | nil => rfl
  | cons a l ih =>
    rw [List.foldl_cons, ih]
    by_cases hk : key a = k
    · subst hk
      rw [List.filter_cons_of_pos (by simp), List.foldl_cons, h.self]
    · rw [List.filter_cons_of_neg (by simpa using hk), h.other s a k (Ne.symm hk)]

/-- At distinct keys each item writes once. -/
theorem Local.foldl_of_mem (h : Local view key write step) (hkeys : (l.map key).Nodup) (ha : a ∈ l) :
    view (l.foldl step s) (key a) = write a (view s (key a)) := by
  induction l generalizing s with
  | nil => cases ha
  | cons b l ih =>
    rw [List.map_cons, List.nodup_cons] at hkeys
    rw [List.foldl_cons]
    rcases List.mem_cons.mp ha with rfl | ha
    · rw [foldl_of_notMem view h.other fun c hc heq => hkeys.1 (List.mem_map.mpr ⟨c, hc, heq⟩), h.self]
    · have hne : key a ≠ key b := fun heq => hkeys.1 (heq ▸ List.mem_map_of_mem ha)
      rw [ih hkeys.2 ha, h.other s b (key a) hne]

/-- Where each item writes itself whatever was there, the last one stays. -/
theorem foldl_last {β : Type*} {f : α → β} {w : Option β} :
    l.foldl (fun _ a => some (f a)) w = (l.getLast?.map f).or w := by
  induction l generalizing w with
  | nil => rfl
  | cons a l ih =>
    rw [List.foldl_cons, ih, List.getLast?_cons]
    cases l.getLast? <;> rfl

/-- Where each item is appended to what is there, all of them are there in the end. -/
theorem foldl_push {β : Type*} {f : α → β} {w : Option (List β)} :
    l.foldl (fun w a => some (w.getD [] ++ [f a])) w = if l = [] then w else some (w.getD [] ++ l.map f) := by
  induction l generalizing w with
  | nil => rfl
  | cons a l ih =>
    rw [List.foldl_cons, ih, if_neg (List.cons_ne_nil a l), Option.getD_some, List.append_assoc]
    split_ifs with hnil
    · rw [hnil]
      rfl
    · rfl

end KeyedFold
