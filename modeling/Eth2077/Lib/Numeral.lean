import Mathlib.Data.Nat.Digits.Defs

/-!
# Numerals read in another base

A numeral is written in base `b` and read in base `r`. With `b < r` every digit is still a digit, so the reading
succeeds and its value is too large as soon as there are two digits. The number of digits stays the same, so the
powers of the two bases correspond.
-/

namespace Numeral

/-- What the numeral of `n` in base `b` means in base `r`. -/
def reread (r b n : ℕ) : ℕ := Nat.ofDigits r (Nat.digits b n)

variable {r b n k : ℕ}

theorem reread_self (b n : ℕ) : reread b b n = n := Nat.ofDigits_digits b n

theorem reread_of_lt (h : n < b) : reread r b n = n := by
  unfold reread
  rcases Nat.eq_zero_or_pos n with rfl | hpos
  · simp
  · rw [Nat.digits_of_lt b n hpos.ne' h, Nat.ofDigits_singleton]

theorem reread_of_le (hb : 1 < b) (h : b ≤ n) : reread r b n = reread r b (n / b) * r + n % b := by
  unfold reread
  rw [Nat.digits_def' hb (by omega), Nat.ofDigits_cons]
  ring

theorem le_reread (hb : 1 < b) (hr : b ≤ r) (n : ℕ) : n ≤ reread r b n := by
  induction n using Nat.strong_induction_on with
  | _ n ih =>
    rcases Nat.lt_or_ge n b with h | h
    · rw [reread_of_lt h]
    · rw [reread_of_le hb h]
      calc n = n / b * b + n % b := (Nat.div_add_mod' n b).symm
        _ ≤ reread r b (n / b) * r + n % b := by
          gcongr
          exact ih (n / b) (Nat.div_lt_self (by omega) hb)

/-- Two digits mean more in a larger base. -/
theorem lt_reread (hb : 1 < b) (hr : b < r) (h : b ≤ n) : n < reread r b n := by
  rw [reread_of_le hb h]
  have hpos : 0 < n / b := Nat.div_pos h (by omega)
  calc n = n / b * b + n % b := (Nat.div_add_mod' n b).symm
    _ < n / b * r + n % b := by gcongr
    _ ≤ reread r b (n / b) * r + n % b := by
      gcongr
      exact le_reread hb hr.le _

theorem reread_eq_self_iff (hb : 1 < b) (hr : b < r) : reread r b n = n ↔ n < b := by
  constructor
  · intro h
    by_contra hge
    have := lt_reread hb hr (not_lt.mp hge)
    omega
  · exact reread_of_lt

/-- The numeral has as many digits in either base. -/
theorem reread_lt_pow_iff (hb : 1 < b) (hr : b ≤ r) : reread r b n < r ^ k ↔ n < b ^ k := by
  induction k generalizing n with
  | zero =>
    have := le_reread hb hr n
    constructor
    · intro h
      rw [pow_zero] at h ⊢
      omega
    · intro h
      obtain rfl : n = 0 := by simpa using h
      simp [reread]
  | succ k ih =>
    rcases Nat.lt_or_ge n b with h | h
    · rw [reread_of_lt h]
      exact iff_of_true (h.trans_le (hr.trans (Nat.le_self_pow (by omega) r)))
        (h.trans_le (Nat.le_self_pow (by omega) b))
    · have hdigit : n % b < r := (Nat.mod_lt n (by omega)).trans_le hr
      rw [reread_of_le hb h, pow_succ, pow_succ, ← Nat.div_lt_iff_lt_mul (by omega : 0 < b), ← ih]
      constructor
      · intro hlt
        by_contra hge
        have : r ^ k * r ≤ reread r b (n / b) * r := Nat.mul_le_mul_right r (not_lt.mp hge)
        omega
      · intro hlt
        calc reread r b (n / b) * r + n % b < reread r b (n / b) * r + r := by omega
          _ = (reread r b (n / b) + 1) * r := by ring
          _ ≤ r ^ k * r := Nat.mul_le_mul_right r hlt

end Numeral
