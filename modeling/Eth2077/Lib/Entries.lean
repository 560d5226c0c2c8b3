import Eth2077.Lib.PrefixCode
import Mathlib.Data.Set.List

/-!
# Lines of named values

A text with one line for each entry: the name, a sign, the value and a stop. Nothing is escaped. The entries can be told
from the text where names have no sign and values no stop: it is read from the front, a name up to the first sign and a
value up to the first stop. Where names have no stop and values no sign it is read from the end.
-/

namespace Entries
open PrefixCode

variable {α : Type*}

section Text
variable {sign stop : α} {l l' : List (List α × List α)}

def line (sign stop : α) (entry : List α × List α) : List α := entry.1 ++ sign :: (entry.2 ++ [stop])

def text (sign stop : α) (l : List (List α × List α)) : List α := l.flatMap (line sign stop)

theorem line_ne_nil (entry : List α × List α) : line sign stop entry ≠ [] :=
  List.append_ne_nil_of_right_ne_nil _ (List.cons_ne_nil _ _)

theorem isPrefixCode_line :
    IsPrefixCode fun entry : { entry : List α × List α // sign ∉ entry.1 ∧ stop ∉ entry.2 } =>
      line sign stop entry.1 := by
  rintro ⟨⟨name, value⟩, hname, hvalue⟩ ⟨⟨name', value'⟩, hname', hvalue'⟩ xs ys h
  have hsign : name ++ [sign] ++ ((value ++ [stop]) ++ xs) = name' ++ [sign] ++ ((value' ++ [stop]) ++ ys) := by
    simpa [line] using h
  obtain ⟨hnames, hrest⟩ := terminated sign (a := ⟨name, hname⟩) (b := ⟨name', hname'⟩) hsign
  obtain ⟨hvalues, hxs⟩ := terminated stop (a := ⟨value, hvalue⟩) (b := ⟨value', hvalue'⟩) hrest
  exact ⟨Subtype.ext (Prod.ext (Subtype.mk.inj hnames) (Subtype.mk.inj hvalues)), hxs⟩

/-- From the front. -/
theorem eq_of_text_eq (hl : ∀ entry ∈ l, sign ∉ entry.1 ∧ stop ∉ entry.2)
    (hl' : ∀ entry ∈ l', sign ∉ entry.1 ∧ stop ∉ entry.2) (h : text sign stop l = text sign stop l') : l = l' := by
  lift l to List { entry : List α × List α // sign ∉ entry.1 ∧ stop ∉ entry.2 } using hl
  lift l' to List { entry : List α × List α // sign ∉ entry.1 ∧ stop ∉ entry.2 } using hl'
  rw [text, text, List.flatMap_map, List.flatMap_map] at h
  exact congrArg _ (isPrefixCode_line.flatMap_injective (fun entry => line_ne_nil entry.1) h)

/-- The entries from the last to the first, with every value in the place of its name. -/
def mirror (l : List (List α × List α)) : List (List α × List α) :=
  (l.map fun entry => (entry.2.reverse, entry.1.reverse)).reverse

theorem mirror_mirror (l : List (List α × List α)) : mirror (mirror l) = l := by
  simp [mirror, Function.comp_def]

theorem reverse_text (l : List (List α × List α)) :
    (stop :: text sign stop l).reverse = stop :: text sign stop (mirror l) := by
  induction l with
  | nil => rfl
  | cons entry l ih =>
    have hmirror : mirror (entry :: l) = mirror l ++ [(entry.2.reverse, entry.1.reverse)] := by
      simp [mirror]
    have hline : stop :: text sign stop (entry :: l) =
        (stop :: entry.1 ++ sign :: entry.2) ++ (stop :: text sign stop l) := by
      simp [text, line]
    rw [hline, List.reverse_append, ih, hmirror, text, text, List.flatMap_append]
    simp [line]

/-- From the end. -/
theorem eq_of_text_eq_mirror (hl : ∀ entry ∈ l, stop ∉ entry.1 ∧ sign ∉ entry.2)
    (hl' : ∀ entry ∈ l', stop ∉ entry.1 ∧ sign ∉ entry.2) (h : text sign stop l = text sign stop l') : l = l' := by
  have hmirror : ∀ {l : List (List α × List α)}, (∀ entry ∈ l, stop ∉ entry.1 ∧ sign ∉ entry.2) →
      ∀ entry ∈ mirror l, sign ∉ entry.1 ∧ stop ∉ entry.2 := by
    intro l hl entry hentry
    obtain ⟨entry', hentry', rfl⟩ := List.mem_map.mp (List.mem_reverse.mp hentry)
    simpa using (hl entry' hentry').symm
  have hreverse : stop :: text sign stop (mirror l) = stop :: text sign stop (mirror l') := by
    rw [← reverse_text, ← reverse_text, h]
  have heq := eq_of_text_eq (hmirror hl) (hmirror hl') (List.cons.inj hreverse).2
  rw [← mirror_mirror l, ← mirror_mirror l', heq]

end Text

/-! ### Parts -/

/-- Two parts are told apart by what holds in the first and not in the second. -/
theorem append_inj_of_forall {p : α → Prop} {l l' r r' : List α} (hl : ∀ a ∈ l, p a) (hl' : ∀ a ∈ l', p a)
    (hr : ∀ a ∈ r, ¬ p a) (hr' : ∀ a ∈ r', ¬ p a) (h : l ++ r = l' ++ r') : l = l' ∧ r = r' := by
  rcases List.append_eq_append_iff.mp h with ⟨mid, hmid, hrest⟩ | ⟨mid, hmid, hrest⟩
  · have hnil : mid = [] := List.eq_nil_iff_forall_not_mem.mpr fun a ha =>
      hr a (hrest ▸ List.mem_append_left _ ha) (hl' a (hmid ▸ List.mem_append_right _ ha))
    subst hnil
    exact ⟨by simpa using hmid.symm, by simpa using hrest⟩
  · have hnil : mid = [] := List.eq_nil_iff_forall_not_mem.mpr fun a ha =>
      hr' a (hrest ▸ List.mem_append_left _ ha) (hl a (hmid ▸ List.mem_append_right _ ha))
    subst hnil
    exact ⟨by simpa using hmid, by simpa using hrest.symm⟩

end Entries
