import Mathlib.Data.Finset.SymmDiff
import Mathlib.Data.Multiset.Fold
import Mathlib.Data.Vector.Basic

/-!
# Exclusive or

An operation like exclusive or is commutative and associative, has a zero, and takes itself back. A total over it does
not depend on an order, and what comes twice drops out: the totals of two sets differ by the total of what is in one of
them only. Where a list is folded into columns, a block that comes twice in the same columns drops out.
-/

/-- Every element is its own inverse. -/
class XorLike {α : Type*} (op : α → α → α) (zero : outParam α) : Prop extends Std.Commutative op, Std.Associative op where
  op_zero : ∀ a, op a zero = a
  op_self : ∀ a, op a a = zero

namespace XorLike
variable {α : Type*} {op : α → α → α} {zero : α} [h : XorLike op zero]

include h in
variable (op) in
theorem op_op_self (a b : α) : op (op a b) b = a :=
  calc op (op a b) b = op a (op b b) := h.assoc a b b
    _ = a := by rw [h.op_self, h.op_zero]

theorem op_eq_zero_iff {a b : α} : op a b = zero ↔ a = b := by
  constructor
  · intro hzero
    calc a = op (op a b) b := (op_op_self op a b).symm
      _ = b := by rw [hzero, h.comm, h.op_zero]
  · rintro rfl
    exact h.op_self a

instance uint8 : XorLike (α := UInt8) (· ^^^ ·) 0 where
  op_zero := fun _ => UInt8.xor_zero
  op_self := fun _ => UInt8.xor_self

/-- Byte by byte, and so on: the operation on vectors. -/
instance vector {n : ℕ} : XorLike (α := List.Vector α n) (List.Vector.map₂ op) (List.Vector.replicate n zero) where
  comm := fun a b => List.Vector.ext fun i => by rw [List.Vector.get_map₂, List.Vector.get_map₂, h.comm]
  assoc := fun a b c => List.Vector.ext fun i => by
    rw [List.Vector.get_map₂, List.Vector.get_map₂, List.Vector.get_map₂, List.Vector.get_map₂, h.assoc]
  op_zero := fun a => List.Vector.ext fun i => by rw [List.Vector.get_map₂, List.Vector.get_replicate, h.op_zero]
  op_self := fun a => List.Vector.ext fun i => by rw [List.Vector.get_map₂, List.Vector.get_replicate, h.op_self]

/-! ### Totals -/

section Total
variable (op zero)

/-- All elements of a collection together. -/
def total (s : Multiset α) : α := s.fold op zero

variable {op zero}

theorem total_cons (a : α) (s : Multiset α) : total op zero (a ::ₘ s) = op (total op zero s) a :=
  Multiset.fold_cons_right ..

theorem total_add (s t : Multiset α) : total op zero (s + t) = op (total op zero s) (total op zero t) := by
  have hfold := Multiset.fold_add op zero zero s t
  rwa [h.op_zero] at hfold

/-- What is taken out is taken back. -/
theorem total_erase [DecidableEq α] {a : α} {s : Multiset α} (ha : a ∈ s) :
    total op zero (s.erase a) = op (total op zero s) a := by
  conv_rhs => rw [← Multiset.cons_erase ha, total_cons, op_op_self op]

/-- What two sets share drops out. -/
theorem op_total [DecidableEq α] (s t : Finset α) :
    op (total op zero s.val) (total op zero t.val) = total op zero (symmDiff s t).val := by
  have hs : s.val = (s \ t).val + (s ∩ t).val := by
    rw [Finset.sdiff_val, Finset.inter_val, Multiset.sub_add_inter]
  have ht : t.val = (t \ s).val + (s ∩ t).val := by
    rw [Finset.inter_comm, Finset.sdiff_val, Finset.inter_val, Multiset.sub_add_inter]
  have hsymm : (symmDiff s t).val = (s \ t).val + (t \ s).val := by
    have hdisjoint : Disjoint (s \ t).val (t \ s).val := Finset.disjoint_val.mpr disjoint_sdiff_sdiff
    rw [Multiset.add_eq_union_iff_disjoint.mpr hdisjoint, ← Finset.union_val]
    rfl
  conv_lhs => rw [hs, ht]
  rw [hsymm, total_add, total_add, total_add]
  generalize total op zero (s \ t).val = a
  generalize total op zero (t \ s).val = b
  generalize total op zero (s ∩ t).val = c
  calc op (op a c) (op b c) = op (op (op a b) c) c := by ac_rfl
    _ = op a b := op_op_self op _ _

theorem foldl_eq (a : α) (l : List α) : l.foldl op a = op a (total op zero l) := by
  induction l generalizing a with
  | nil => exact (h.op_zero a).symm
  | cons b l ih =>
    rw [List.foldl_cons, ih, ← Multiset.cons_coe, total_cons]
    ac_rfl

include h in
theorem foldl_foldl_self (a : α) (l : List α) : l.foldl op (l.foldl op a) = a := by
  rw [foldl_eq, foldl_eq a, op_op_self op]

end Total

/-! ### Columns -/

section Columns
variable {n k start : ℕ} {a b w : List α}

/-- The items that fall into column `k` of `n`. -/
def column (n k start : ℕ) (l : List α) : List α := ((l.zipIdx start).filter fun e => e.2 % n = k).map Prod.fst

omit h in
theorem column_append : column n k start (a ++ b) = column n k start a ++ column n k (start + a.length) b := by
  rw [column, List.zipIdx_append, List.filter_append, List.map_append]
  rfl

omit h in
/-- A whole number of rows later the columns are the same. -/
theorem column_add_mul (rows : ℕ) : column n k (start + n * rows) a = column n k start a := by
  induction a generalizing start with
  | nil => rfl
  | cons x a ih =>
    have hnext : start + n * rows + 1 = start + 1 + n * rows := Nat.add_right_comm ..
    have hcolumn : column n k (start + n * rows) [x] = column n k start [x] := by
      unfold column
      simp only [List.zipIdx_singleton, List.filter_cons, List.filter_nil, Nat.add_mul_mod_self_left]
      split <;> rfl
    rw [← List.singleton_append, column_append, column_append, hcolumn]
    show _ ++ column n k (start + n * rows + 1) a = _
    rw [hnext, ih]
    rfl

include h in
/-- Whole rows that come twice drop out. -/
theorem foldl_column_doubled (z : α) (hw : n ∣ w.length) :
    (column n k start (a ++ (w ++ w) ++ b)).foldl op z = (column n k start (a ++ b)).foldl op z := by
  obtain ⟨rows, hrows⟩ := hw
  have hlength : start + (a ++ (w ++ w)).length = start + a.length + n * (rows + rows) := by
    rw [List.length_append, List.length_append, hrows, Nat.mul_add, Nat.add_assoc]
  rw [column_append, column_append, column_append, column_append, hlength, column_add_mul, hrows, column_add_mul]
  simp only [List.foldl_append]
  rw [foldl_foldl_self]

end Columns

end XorLike
