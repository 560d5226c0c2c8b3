import Mathlib.Data.Finset.Insert
import Mathlib.Data.List.Nodup

/-!
# Loops that collect complaints

A validator goes through a list and complains about each item by itself and about an item whose key it has seen
before, in a set that it fills on its way. It has nothing to say if and only if no key comes twice and every item is
well by itself. What it has to say is reported at the end, all at once.
-/

namespace Seen
variable {α K E : Type*} [DecidableEq K]

/-- `complain` is told whether the key of the item was seen before. -/
def collect (key : α → K) (complain : Bool → α → List E) : Finset K → List α → List E
  | _, [] => []
  | seen, a :: l => complain (key a ∈ seen) a ++ collect key complain (insert (key a) seen) l

variable {key : α → K} {complain : Bool → α → List E} {seen : Finset K} {l : List α}

theorem collect_eq_nil (hdup : ∀ a, complain true a ≠ []) : collect key complain seen l = [] ↔
    ((l.map key).Nodup ∧ ∀ a ∈ l, key a ∉ seen) ∧ ∀ a ∈ l, complain false a = [] := by
  induction l generalizing seen with
  | nil => simp [collect]
  | cons a l ih =>
    rw [collect, List.append_eq_nil_iff, ih, List.map_cons, List.nodup_cons]
    simp only [List.forall_mem_cons, Finset.mem_insert, not_or, forall_and]
    by_cases ha : key a ∈ seen
    · simp [ha, hdup a]
    · have hne : (∀ b ∈ l, ¬ key b = key a) ↔ key a ∉ l.map key := by simp [eq_comm]
      simp only [ha, decide_false, hne, not_false_eq_true, true_and]
      tauto

/-- Nothing was seen before the first item. -/
theorem collect_empty_eq_nil (hdup : ∀ a, complain true a ≠ []) : collect key complain ∅ l = [] ↔
    (l.map key).Nodup ∧ ∀ a ∈ l, complain false a = [] := by
  rw [collect_eq_nil hdup]
  simp

/-- All complaints, if there are any. -/
def report : List E → Except (List E) Unit
  | [] => .ok ()
  | errors => .error errors

theorem report_eq_ok {errors : List E} : report errors = .ok () ↔ errors = [] := by
  cases errors with
  | nil => simp [report]
  | cons e errors => simp [report]

/-- What is reported is what was collected. -/
theorem mem_report {errors : List E} {e : E} : (∃ reported, report errors = .error reported ∧ e ∈ reported) ↔ e ∈ errors := by
  cases errors with
  | nil => simp [report]
  | cons e errors => simp [report]

/-! ### The first of each key -/

/-- The items whose key was not seen before. -/
def keepFirst (key : α → K) : Finset K → List α → List α
  | _, [] => []
  | seen, a :: l =>
    if key a ∈ seen then keepFirst key seen l else a :: keepFirst key (insert (key a) seen) l

variable {a : α} {seen' : Finset K} {l' : List α}

theorem mem_keepFirst : a ∈ keepFirst key seen l ↔ key a ∉ seen ∧ l.find? (fun b => key b = key a) = some a := by
  induction l generalizing seen with
  | nil => simp [keepFirst]
  | cons b l ih =>
    rw [keepFirst, List.find?_cons]
    by_cases hab : key b = key a
    · simp only [hab, decide_true, Option.some.injEq]
      split_ifs with hseen
      · simp [ih, hseen]
      · rw [List.mem_cons, ih]
        simp [hseen, eq_comm]
    · simp only [hab, decide_false]
      split_ifs with hseen
      · exact ih
      · have hne : a ≠ b := fun heq => hab (heq ▸ rfl)
        rw [List.mem_cons, ih]
        simp [hne, Ne.symm hab]

/-- No key is lost. -/
theorem mem_map_keepFirst {k : K} : k ∈ (keepFirst key seen l).map key ↔ k ∉ seen ∧ k ∈ l.map key := by
  induction l generalizing seen with
  | nil => simp [keepFirst]
  | cons b l ih =>
    rw [keepFirst, List.map_cons, List.mem_cons]
    split_ifs with hseen
    · rw [ih]
      refine and_congr_right fun hk => (or_iff_right ?_).symm
      rintro rfl
      exact hk hseen
    · rw [List.map_cons, List.mem_cons, ih, Finset.mem_insert]
      by_cases hk : k = key b
      · subst hk
        simp [hseen]
      · simp [hk]

variable (key seen l) in
/-- The items come in the order in which their keys were seen first. -/
theorem keepFirst_pairwise :
    (keepFirst key seen l).Pairwise fun a b => (l.map key).idxOf (key a) < (l.map key).idxOf (key b) := by
  induction l generalizing seen with
  | nil => exact .nil
  | cons b l ih =>
    -- behind an item with another key every index is one more
    have hshift : ∀ {seen : Finset K}, key b ∈ seen → (keepFirst key seen l).Pairwise fun a c =>
        ((b :: l).map key).idxOf (key a) < ((b :: l).map key).idxOf (key c) := by
      intro seen hb
      refine (ih seen).imp_of_mem fun {a c} ha hc hlt => ?_
      have hab : key b ≠ key a := fun heq => (mem_keepFirst.mp ha).1 (heq ▸ hb)
      have hcb : key b ≠ key c := fun heq => (mem_keepFirst.mp hc).1 (heq ▸ hb)
      rw [List.map_cons, List.idxOf_cons_ne _ hab, List.idxOf_cons_ne _ hcb]
      omega
    rw [keepFirst]
    split_ifs with hseen
    · exact hshift hseen
    · refine List.pairwise_cons.mpr ⟨fun c hc => ?_, hshift (Finset.mem_insert_self _ _)⟩
      have hcb : key b ≠ key c := fun heq => (mem_keepFirst.mp hc).1 (heq ▸ Finset.mem_insert_self _ _)
      rw [List.map_cons, List.idxOf_cons_self, List.idxOf_cons_ne _ hcb]
      omega

/-- Going through a part before the whole changes nothing. -/
theorem keepFirst_keepFirst_append (h : seen' ⊆ seen) :
    keepFirst key seen (keepFirst key seen' l ++ l') = keepFirst key seen (l ++ l') := by
  induction l generalizing seen seen' with
  | nil => rfl
  | cons b l ih =>
    rw [keepFirst, List.cons_append, keepFirst]
    by_cases hb' : key b ∈ seen'
    · rw [if_pos hb', if_pos (h hb'), ih h]
    · rw [if_neg hb', List.cons_append, keepFirst]
      by_cases hb : key b ∈ seen
      · rw [if_pos hb, if_pos hb, ih (Finset.insert_subset hb h)]
      · rw [if_neg hb, if_neg hb, ih (Finset.insert_subset_insert _ h)]

theorem keepFirst_append_congr {r r' : List α}
    (h : ∀ seen, keepFirst key seen r = keepFirst key seen r') (seen : Finset K) :
    keepFirst key seen (l ++ r) = keepFirst key seen (l ++ r') := by
  induction l generalizing seen with
  | nil => exact h seen
  | cons b l ih => rw [List.cons_append, List.cons_append, keepFirst, keepFirst, ih, ih]

variable (key) in
/-- Groups may be gone through one by one before they are put together. -/
theorem keepFirst_flatMap_keepFirst (seen : Finset K) (groups : List (List α)) :
    keepFirst key seen (groups.flatMap (keepFirst key ∅)) = keepFirst key seen groups.flatten := by
  induction groups generalizing seen with
  | nil => rfl
  | cons group groups ih =>
    rw [List.flatMap_cons, List.flatten_cons, keepFirst_keepFirst_append (Finset.empty_subset _)]
    exact keepFirst_append_congr ih seen

end Seen
