import Mathlib.Data.Prod.Lex
import Mathlib.Logic.Function.Iterate
import Mathlib.Order.Monotone.Basic
import Mathlib.Tactic.IntervalCases

/-!
# The calendar

Gregorian dates from the year 0 on, in their order, with the next day. The number of a day counts the days since the first
of January of the year 0 by the lengths of the years and months before it. It grows by one from a day to the next, and
earlier dates have smaller numbers.
-/

namespace Calendar

def IsLeap (year : ℕ) : Prop := (year % 4 = 0 ∧ year % 100 ≠ 0) ∨ year % 400 = 0

instance : DecidablePred IsLeap := fun _ => inferInstanceAs (Decidable (_ ∨ _))

/-- There is no month but those from 1 to 12. -/
def daysIn (year : ℕ) : ℕ → ℕ
  | 1 | 3 | 5 | 7 | 8 | 10 | 12 => 31
  | 4 | 6 | 9 | 11 => 30
  | 2 => if IsLeap year then 29 else 28
  | _ => 0

theorem daysIn_pos {year month : ℕ} : 1 ≤ daysIn year month ↔ 1 ≤ month ∧ month ≤ 12 := by
  constructor
  · intro h
    by_contra hmonth
    have hnone : daysIn year month = 0 := by
      rw [daysIn] <;> omega
    omega
  · rintro ⟨hlow, hhigh⟩
    interval_cases month <;> simp only [daysIn] <;> first | omega | split_ifs <;> omega

theorem daysIn_le (year month : ℕ) : daysIn year month ≤ 31 := by
  unfold daysIn
  split <;> try split_ifs
  all_goals omega

@[ext]
structure Date where
  year : ℕ
  month : ℕ
  day : ℕ
  day_pos : 1 ≤ day
  day_le : day ≤ daysIn year month

namespace Date
variable {d e : Date}

theorem month_mem (d : Date) : 1 ≤ d.month ∧ d.month ≤ 12 := daysIn_pos.mp (d.day_pos.trans d.day_le)

/-- The day after. -/
def next (d : Date) : Date :=
  if h : d.day < daysIn d.year d.month then
    ⟨d.year, d.month, d.day + 1, Nat.le_add_left 1 _, h⟩
  else if h : d.month < 12 then
    ⟨d.year, d.month + 1, 1, le_rfl, daysIn_pos.mpr ⟨Nat.le_add_left 1 _, h⟩⟩
  else
    ⟨d.year + 1, 1, 1, le_rfl, by simp [daysIn]⟩

theorem year_le_next (d : Date) : d.year ≤ d.next.year := by
  unfold next
  split_ifs
  · exact le_rfl
  · exact le_rfl
  · exact Nat.le_succ _

/-- Later years, months and days are later. -/
instance : LinearOrder Date :=
  LinearOrder.lift' (fun d => toLex (d.year, toLex (d.month, d.day))) fun d e h => by
    have h := congrArg ofLex h
    simp only [ofLex_toLex, Prod.mk.injEq, EmbeddingLike.apply_eq_iff_eq] at h
    exact Date.ext h.1 h.2.1 h.2.2

theorem lt_iff : d < e ↔
    d.year < e.year ∨ d.year = e.year ∧ (d.month < e.month ∨ d.month = e.month ∧ d.day < e.day) := by
  show toLex (d.year, toLex (d.month, d.day)) < toLex (e.year, toLex (e.month, e.day)) ↔ _
  rw [Prod.Lex.toLex_lt_toLex, Prod.Lex.toLex_lt_toLex]

end Date

/-! ### The number of a day -/

/-- The days of a year before a month. -/
def daysBefore (year : ℕ) : ℕ → ℕ
  | 0 => 0
  | month + 1 => daysBefore year month + daysIn year month

/-- The days before a year. -/
def yearStart : ℕ → ℕ
  | 0 => 0
  | year + 1 => yearStart year + daysBefore year 13

def Date.dayNumber (d : Date) : ℕ := yearStart d.year + daysBefore d.year d.month + (d.day - 1)

theorem daysBefore_mono (year : ℕ) {m n : ℕ} (h : m ≤ n) : daysBefore year m ≤ daysBefore year n :=
  monotone_nat_of_le_succ (fun _ => Nat.le_add_right _ _) h

theorem yearStart_mono {y z : ℕ} (h : y ≤ z) : yearStart y ≤ yearStart z :=
  monotone_nat_of_le_succ (fun _ => Nat.le_add_right _ _) h

namespace Date
variable {d e : Date}

theorem dayNumber_next (d : Date) : d.next.dayNumber = d.dayNumber + 1 := by
  have hpos := d.day_pos
  have hle := d.day_le
  unfold next
  split_ifs with hday hmonth
  · simp only [dayNumber]
    omega
  · simp only [dayNumber, daysBefore]
    omega
  · -- the last day of December
    have hdecember : d.month = 12 := by
      have := d.month_mem
      omega
    have hyear : daysBefore d.year 13 = daysBefore d.year 12 + daysIn d.year 12 := rfl
    have hstart : daysBefore (d.year + 1) 1 = 0 := rfl
    rw [hdecember] at hday hle
    simp only [dayNumber, yearStart, hdecember, hstart, hyear]
    omega

/-- The number of a day is below that of the first day of the month after. -/
theorem dayNumber_lt (d : Date) : d.dayNumber < yearStart d.year + daysBefore d.year (d.month + 1) := by
  have hpos := d.day_pos
  have hle := d.day_le
  rw [dayNumber, daysBefore]
  omega

theorem dayNumber_lt_yearStart (d : Date) : d.dayNumber < yearStart (d.year + 1) := by
  have hbound := d.dayNumber_lt
  have hend : daysBefore d.year (d.month + 1) ≤ daysBefore d.year 13 :=
    daysBefore_mono _ (Nat.succ_le_succ d.month_mem.2)
  rw [yearStart]
  omega

theorem dayNumber_strictMono : StrictMono dayNumber := by
  intro d e h
  have hbound := d.dayNumber_lt
  rcases lt_iff.mp h with hyear | ⟨hyear, hmonth | ⟨hmonth, hday⟩⟩
  · -- the year of `d` is over before that of `e`
    have hstart := d.dayNumber_lt_yearStart.trans_le (yearStart_mono hyear)
    rw [dayNumber.eq_1 e]
    omega
  · have hend : daysBefore d.year (d.month + 1) ≤ daysBefore d.year e.month := daysBefore_mono _ hmonth
    rw [dayNumber.eq_1 e, ← hyear]
    omega
  · have hpos := d.day_pos
    rw [dayNumber, dayNumber, hyear, hmonth]
    omega

theorem dayNumber_lt_iff : d.dayNumber < e.dayNumber ↔ d < e := dayNumber_strictMono.lt_iff_lt

theorem dayNumber_iterate (d : Date) (n : ℕ) : (next^[n] d).dayNumber = d.dayNumber + n := by
  induction n with
  | zero => rfl
  | succ n ih => rw [Function.iterate_succ_apply', dayNumber_next, ih, Nat.add_assoc]

end Date

/-! ### Closed forms -/

theorem daysBefore_year (year : ℕ) : daysBefore year 13 = if IsLeap year then 366 else 365 := by
  simp only [daysBefore, daysIn]
  split_ifs <;> rfl

/-- Every fourth year is a leap year, less every hundredth, and every four hundredth again. -/
theorem yearStart_eq (year : ℕ) :
    yearStart year + (year + 99) / 100 = 365 * year + (year + 3) / 4 + (year + 399) / 400 := by
  induction year with
  | zero => rfl
  | succ year ih =>
    rw [yearStart, daysBefore_year]
    split_ifs with hleap <;> unfold IsLeap at hleap <;> omega

end Calendar
