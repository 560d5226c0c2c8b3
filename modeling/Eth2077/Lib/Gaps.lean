import Mathlib.Order.SuccPred.Basic
import Mathlib.Data.List.Basic

/-!
# Gaps in a sorted list

A pass over the neighbours in a sorted list finds the gaps, where the next element is not the successor of the one
before. It finds them all and nothing else if and only if no element comes twice, but for the largest there is: that is
its own successor.
-/

namespace Gaps
variable {α : Type*}

/-- `windows(2)` -/
def windows : List α → List (α × α)
  | a :: b :: l => (a, b) :: windows (b :: l)
  | _ => []

variable [LinearOrder α] [SuccOrder α]

/-- The windows that leave something out, with what was expected in the place of the second element. -/
def gaps (l : List α) : List (α × α) :=
  ((windows l).filter fun w => w.2 ≠ Order.succ w.1).map fun w => (Order.succ w.1, w.2)

/-- Between two elements of the list there is something that is not in it. -/
def Missing (l : List α) : Prop := ∃ k, k ∉ l ∧ (∃ a ∈ l, a < k) ∧ ∃ b ∈ l, k < b

/-- From `e` on nothing is in the list until `b`, and `e` comes after an element. -/
structure IsGap (l : List α) (e b : α) : Prop where
  before : ∃ a ∈ l, a < e ∧ e = Order.succ a
  next : b ∈ l
  lt : e < b
  missing : ∀ k, e ≤ k → k < b → k ∉ l

/-- Sorted, and only the largest there is comes twice. -/
def Spread (l : List α) : Prop := l.Pairwise fun a b => a < b ∨ (a = b ∧ IsMax a)

variable {l : List α} {a b e : α}

theorem gaps_cons_cons (a b : α) (l : List α) :
    gaps (a :: b :: l) = (if b ≠ Order.succ a then [(Order.succ a, b)] else []) ++ gaps (b :: l) := by
  rw [gaps, windows, List.filter_cons]
  split_ifs with h h' h'
  · rfl
  · exact absurd (of_decide_eq_true h) h'
  · exact absurd (decide_eq_true h') h
  · rfl

omit [SuccOrder α] in
theorem Spread.le (h : Spread (a :: l)) (hb : b ∈ l) : a ≤ b := by
  rcases (List.pairwise_cons.mp h).1 b hb with hlt | ⟨rfl, -⟩
  · exact hlt.le
  · exact le_rfl

/-- A window that is no step up by one is a step over a gap. -/
theorem Spread.lt_of_ne_succ (h : Spread (a :: l)) (hb : b ∈ l) (hne : b ≠ Order.succ a) :
    a < Order.succ a ∧ Order.succ a < b := by
  rcases (List.pairwise_cons.mp h).1 b hb with hlt | ⟨rfl, hmax⟩
  · exact ⟨Order.lt_succ_of_not_isMax fun hmax => hlt.not_ge (hmax hlt.le),
      lt_of_le_of_ne (Order.succ_le_of_lt hlt) hne.symm⟩
  · exact absurd hmax.succ_eq.symm hne

theorem IsGap.cons (h : IsGap (b :: l) e a) {c : α} (hc : ∀ x ∈ b :: l, c ≤ x) : IsGap (c :: b :: l) e a := by
  obtain ⟨⟨x, hx, hxe, hsucc⟩, hnext, hlt, hmissing⟩ := h
  refine ⟨⟨x, List.mem_cons_of_mem c hx, hxe, hsucc⟩, List.mem_cons_of_mem c hnext, hlt, fun k hek hka hk => ?_⟩
  rcases List.mem_cons.mp hk with rfl | hk
  · exact (hxe.trans_le hek).not_ge (hc x hx)
  · exact hmissing k hek hka hk

theorem isGap_of_mem (h : Spread l) (hmem : (e, b) ∈ gaps l) : IsGap l e b := by
  induction l with
  | nil => cases hmem
  | cons a l ih =>
    cases l with
    | nil => cases hmem
    | cons c l =>
      have htail : Spread (c :: l) := (List.pairwise_cons.mp h).2
      rw [gaps_cons_cons, List.mem_append] at hmem
      rcases hmem with hmem | hmem
      · obtain ⟨hne, heq⟩ := List.mem_ite_nil_right.mp hmem
        obtain ⟨rfl, rfl⟩ := Prod.mk.inj (List.mem_singleton.mp heq)
        obtain ⟨hlt, hgap⟩ := h.lt_of_ne_succ List.mem_cons_self hne
        refine ⟨⟨a, List.mem_cons_self, hlt, rfl⟩, by simp, hgap, fun k hle hk hmem => ?_⟩
        rcases List.mem_cons.mp hmem with rfl | hmem
        · exact hlt.not_ge hle
        · rcases List.mem_cons.mp hmem with rfl | hmem
          · exact lt_irrefl _ hk
          · exact hk.not_ge (htail.le hmem)
      · exact (ih htail hmem).cons fun x hx => h.le hx

theorem IsGap.missing_mem (h : IsGap l e b) : Missing l := by
  obtain ⟨⟨a, ha, hae, -⟩, hb, hlt, hmissing⟩ := h
  exact ⟨e, hmissing e le_rfl hlt, ⟨a, ha, hae⟩, b, hb, hlt⟩

/-- Without a window over a gap everything between two elements is there. -/
theorem not_missing_of_gaps_eq_nil (h : l.Pairwise (· ≤ ·)) (hgaps : gaps l = []) : ¬ Missing l := by
  rintro ⟨k, hk, ⟨x, hx, hxk⟩, y, hy, hky⟩
  induction l generalizing x with
  | nil => cases hx
  | cons a l ih =>
    have hak : a < k := by
      rcases List.mem_cons.mp hx with rfl | hx
      · exact hxk
      · exact ((List.pairwise_cons.mp h).1 x hx).trans_lt hxk
    have hy : y ∈ l := (List.mem_cons.mp hy).resolve_left fun heq => (hak.trans hky).ne heq.symm
    cases l with
    | nil => cases hy
    | cons b l =>
      rw [gaps_cons_cons, List.append_eq_nil_iff, ite_eq_right_iff] at hgaps
      obtain ⟨hwindow, hrest⟩ := hgaps
      have hb : b = Order.succ a := by
        by_contra hne
        exact List.cons_ne_nil _ _ (hwindow hne)
      have hne : b ≠ k := fun heq => hk (heq ▸ by simp)
      have hbk : b < k := lt_of_le_of_ne (hb ▸ Order.succ_le_of_lt hak) hne
      exact ih (List.pairwise_cons.mp h).2 hrest (fun hmem => hk (List.mem_cons_of_mem a hmem)) b List.mem_cons_self hbk hy

omit [SuccOrder α] in
theorem Spread.pairwise_le (h : Spread l) : l.Pairwise (· ≤ ·) :=
  h.imp fun hab => hab.elim le_of_lt fun heq => heq.1.le

omit [SuccOrder α] in
/-- In a sorted list only the largest there is comes twice if the others are all different. -/
theorem spread_iff_nodup {p : α → Bool} (hp : ∀ a, p a = true ↔ ¬ IsMax a) (h : l.Pairwise (· ≤ ·)) :
    Spread l ↔ (l.filter p).Nodup := by
  rw [List.Nodup, List.pairwise_filter]
  refine ⟨fun hspread => hspread.imp fun {a b} hab ha hb => ?_, fun hnodup => h.imp₂ (fun {a b} hle hne => ?_) hnodup⟩
  · rcases hab with hlt | ⟨-, hmax⟩
    · exact hlt.ne
    · exact absurd hmax ((hp a).mp ha)
  · rcases hle.lt_or_eq with hlt | rfl
    · exact .inl hlt
    · refine .inr ⟨rfl, ?_⟩
      by_contra hmax
      exact hne ((hp a).mpr hmax) ((hp a).mpr hmax) rfl

theorem gaps_eq_nil_iff (h : Spread l) : gaps l = [] ↔ ¬ Missing l := by
  refine ⟨not_missing_of_gaps_eq_nil h.pairwise_le, fun hmissing => ?_⟩
  rw [List.eq_nil_iff_forall_not_mem]
  exact fun w hw => hmissing (isGap_of_mem h hw).missing_mem

/-- If the windows found are over gaps, nothing but the largest there is comes twice. -/
theorem spread_of_isGap (h : l.Pairwise (· ≤ ·)) (hgaps : ∀ w ∈ gaps l, w.1 < w.2) : Spread l := by
  induction l with
  | nil => exact .nil
  | cons a l ih =>
    obtain ⟨hle, htail⟩ := List.pairwise_cons.mp h
    cases l with
    | nil => exact List.pairwise_singleton _ a
    | cons b l =>
      rw [gaps_cons_cons, List.forall_mem_append] at hgaps
      obtain ⟨hwindow, hrest⟩ := hgaps
      have hspread : Spread (b :: l) := ih htail hrest
      refine List.pairwise_cons.mpr ⟨fun x hx => ?_, hspread⟩
      have hbx : b ≤ x := by
        rcases List.mem_cons.mp hx with rfl | hx
        · exact le_rfl
        · exact hspread.le hx
      by_cases hmax : IsMax a
      · have hax := hle x hx
        exact .inr ⟨le_antisymm hax (hmax hax), hmax⟩
      · refine .inl (lt_of_lt_of_le ?_ hbx)
        by_cases hb : b = Order.succ a
        · rw [hb]
          exact Order.lt_succ_of_not_isMax hmax
        · rw [if_pos hb, List.forall_mem_singleton] at hwindow
          exact (Order.le_succ a).trans_lt hwindow

end Gaps
