import Mathlib.Data.List.Basic

/-!
# Fields between delimiters

A text cut at a delimiter into the fields between, none of which has it.
-/

namespace Delimited

variable {α : Type*} [BEq α] [LawfulBEq α] {stop : α}

theorem notMem_of_mem_splitOn {l field : List α} (h : field ∈ l.splitOn stop) : stop ∉ field := by
  induction l generalizing field with
  | nil =>
    rw [List.splitOn_nil, List.mem_singleton] at h
    simp [h]
  | cons a l ih =>
    rw [List.splitOn_cons_eq_if_modifyHead] at h
    split_ifs at h with ha
    · rcases List.mem_cons.mp h with rfl | h
      · exact List.not_mem_nil
      · exact ih h
    · obtain ⟨first, rest, hsplit⟩ := List.exists_cons_of_ne_nil (List.splitOn_ne_nil stop l)
      rw [hsplit, List.modifyHead_cons] at h
      rw [hsplit] at ih
      rcases List.mem_cons.mp h with rfl | h
      · intro hmem
        rcases List.mem_cons.mp hmem with rfl | hmem
        · exact ha (beq_self_eq_true _)
        · exact ih List.mem_cons_self hmem
      · exact ih (List.mem_cons_of_mem _ h)

theorem splitOn_injective : Function.Injective fun l : List α => l.splitOn stop := by
  intro l l' h
  have hl : [stop].intercalate (l.splitOn stop) = l := List.intercalate_splitOn stop
  have hl' : [stop].intercalate (l'.splitOn stop) = l' := List.intercalate_splitOn stop
  rw [← hl, ← hl']
  exact congrArg _ h

/-- Other items are in the fields. -/
theorem mem_iff_exists_field {a : α} (ha : a ≠ stop) {l : List α} : a ∈ l ↔ ∃ field ∈ l.splitOn stop, a ∈ field := by
  induction l with
  | nil => simp [List.splitOn_nil]
  | cons b l ih =>
    rw [List.splitOn_cons_eq_if_modifyHead, List.mem_cons, ih]
    split_ifs with hb
    · obtain rfl := eq_of_beq hb
      simp [ha]
    · obtain ⟨first, rest, hsplit⟩ := List.exists_cons_of_ne_nil (List.splitOn_ne_nil stop l)
      rw [hsplit, List.modifyHead_cons]
      simp [or_assoc]

end Delimited
