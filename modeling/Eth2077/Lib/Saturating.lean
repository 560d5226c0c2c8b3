import Mathlib.Algebra.Group.Nat.Defs

/-!
# Saturating machine arithmetic

`saturating_add`, `saturating_sub` and `saturating_mul` on the fixed-width unsigned integers, each
with its value in `Nat`. Everything else in the development reads them through `toNat`.
-/

namespace UInt64

def maxNat : Nat := 2 ^ 64 - 1

def saturatingAdd (a b : UInt64) : UInt64 := UInt64.ofNat (min (a.toNat + b.toNat) maxNat)

def saturatingSub (a b : UInt64) : UInt64 := UInt64.ofNat (a.toNat - b.toNat)

def saturatingMul (a b : UInt64) : UInt64 := UInt64.ofNat (min (a.toNat * b.toNat) maxNat)

theorem toNat_le_maxNat (a : UInt64) : a.toNat ≤ maxNat := by
  have := a.toNat_lt
  simp only [maxNat]; omega

theorem toNat_ofNat_of_le {n : Nat} (h : n ≤ maxNat) : (UInt64.ofNat n).toNat = n :=
  UInt64.toNat_ofNat_of_lt' (by simp only [maxNat] at h; simp only [UInt64.size]; omega)

@[simp] theorem toNat_saturatingAdd (a b : UInt64) :
    (a.saturatingAdd b).toNat = min (a.toNat + b.toNat) maxNat :=
  toNat_ofNat_of_le (Nat.min_le_right _ _)

@[simp] theorem toNat_saturatingSub (a b : UInt64) : (a.saturatingSub b).toNat = a.toNat - b.toNat :=
  toNat_ofNat_of_le (Nat.le_trans (Nat.sub_le _ _) a.toNat_le_maxNat)

/-- The number, or the largest there is. -/
def saturate (n : Nat) : UInt64 := UInt64.ofNat (min n maxNat)

@[simp] theorem saturate_zero : saturate 0 = 0 := rfl

@[simp] theorem toNat_saturate (n : Nat) : (saturate n).toNat = min n maxNat :=
  toNat_ofNat_of_le (Nat.min_le_right _ _)

theorem toNat_saturate_of_lt {n : Nat} (h : n < 2 ^ 64) : (saturate n).toNat = n := by
  rw [toNat_saturate, maxNat]
  omega

/-- A counter that saturates has the value of one that does not, cut off once. -/
theorem saturate_saturatingAdd (n : Nat) (b : UInt64) : (saturate n).saturatingAdd b = saturate (n + b.toNat) := by
  apply UInt64.toNat_inj.mp
  rw [toNat_saturatingAdd, toNat_saturate, toNat_saturate]
  omega

theorem saturatingAdd_right_comm (a b c : UInt64) :
    (a.saturatingAdd b).saturatingAdd c = (a.saturatingAdd c).saturatingAdd b := by
  apply UInt64.toNat_inj.mp
  simp only [toNat_saturatingAdd]
  omega

theorem saturatingSub_self (a : UInt64) : a.saturatingSub a = 0 := by
  apply UInt64.toNat_inj.mp
  simp

end UInt64

namespace UInt32

def maxNat : Nat := 2 ^ 32 - 1

def saturatingAdd (a b : UInt32) : UInt32 := UInt32.ofNat (min (a.toNat + b.toNat) maxNat)

theorem toNat_le_maxNat (a : UInt32) : a.toNat ≤ maxNat := by
  have := a.toNat_lt
  simp only [maxNat]; omega

@[simp] theorem toNat_saturatingAdd (a b : UInt32) :
    (a.saturatingAdd b).toNat = min (a.toNat + b.toNat) maxNat :=
  UInt32.toNat_ofNat_of_lt' (by
    have := Nat.min_le_right (a.toNat + b.toNat) maxNat
    simp only [maxNat] at this; simp only [UInt32.size, maxNat]; omega)

theorem le_toNat_saturatingAdd (a b : UInt32) : a.toNat ≤ (a.saturatingAdd b).toNat := by
  have := a.toNat_le_maxNat
  simp only [toNat_saturatingAdd]; omega

end UInt32

namespace BitVec
variable {w : Nat}

/-- The largest number of `w` bits. -/
def maxNat (w : Nat) : Nat := 2 ^ w - 1

def saturatingAdd (a b : BitVec w) : BitVec w := .ofNat w (min (a.toNat + b.toNat) (maxNat w))

def saturatingSub (a b : BitVec w) : BitVec w := .ofNat w (a.toNat - b.toNat)

def saturatingMul (a b : BitVec w) : BitVec w := .ofNat w (min (a.toNat * b.toNat) (maxNat w))

theorem toNat_le_maxNat (a : BitVec w) : a.toNat ≤ maxNat w := Nat.le_sub_one_of_lt a.isLt

theorem toNat_ofNat_of_le {n : Nat} (h : n ≤ maxNat w) : (BitVec.ofNat w n).toNat = n := by
  have hpos : 0 < 2 ^ w := Nat.two_pow_pos w
  rw [toNat_ofNat, Nat.mod_eq_of_lt]
  rw [maxNat] at h
  omega

@[simp] theorem toNat_saturatingAdd (a b : BitVec w) :
    (a.saturatingAdd b).toNat = min (a.toNat + b.toNat) (maxNat w) :=
  toNat_ofNat_of_le (Nat.min_le_right _ _)

@[simp] theorem toNat_saturatingSub (a b : BitVec w) : (a.saturatingSub b).toNat = a.toNat - b.toNat :=
  toNat_ofNat_of_le (Nat.le_trans (Nat.sub_le _ _) a.toNat_le_maxNat)

@[simp] theorem toNat_saturatingMul (a b : BitVec w) :
    (a.saturatingMul b).toNat = min (a.toNat * b.toNat) (maxNat w) :=
  toNat_ofNat_of_le (Nat.min_le_right _ _)

end BitVec
