import Eth2077.Lib.Calendar
import Eth2077.Lib.Delimited
import Eth2077.Text

/-!
# Reviews of assumptions (`types/src/assumption_checker.rs`)

A date is a text of a year, a month and a day, which a closed formula turns into a number of days from the first of January
of 1970. The formula counts years from March and eras of four hundred of them; what it computes is the number of the day in
the calendar.
-/

namespace Eth2077
namespace AssumptionChecker
open Calendar

structure Assumption where
  id : String
  revisitCadenceDays : UInt32
  lastReviewed : Option String
deriving DecidableEq

/-! ### Dates -/

/-- A panic, or in a build without the checks a wrapped value. -/
inductive Overflow where
  | overflow
deriving DecidableEq

/-- The result of an operation on `i32` (64: on `i64`). -/
def checked (bits : ℕ) (n : ℤ) : Except Overflow ℤ :=
  if -2 ^ (bits - 1) ≤ n ∧ n < 2 ^ (bits - 1) then .ok n else .error .overflow

/-- `as i32` on a `u32`. -/
def asI32 (n : ℕ) : ℤ := if n < 2 ^ 31 then n else n - 2 ^ 32

/-- `i32::from_str`. -/
def parseI32 : List Char → Option ℤ
  | '-' :: '+' :: _ => none
  | '-' :: digits => do
    let n ← fromStrRadix 10 32 digits
    if n ≤ 2 ^ 31 then some (-n) else none
  | s => (fromStrRadix 10 31 s).map Int.ofNat

/-- `u32::from_str`. -/
def parseU32 (s : List Char) : Option ℕ := fromStrRadix 10 32 s

def isLeapYear (year : ℤ) : Bool := (year.tmod 4 = 0 ∧ year.tmod 100 ≠ 0) ∨ year.tmod 400 = 0

def maxDay (year : ℤ) (month : ℕ) : Option ℕ :=
  match month with
  | 1 | 3 | 5 | 7 | 8 | 10 | 12 => some 31
  | 4 | 6 | 9 | 11 => some 30
  | 2 => if isLeapYear year then some 29 else some 28
  | _ => none

def isValidYmd (year : ℤ) (month day : ℕ) : Bool :=
  if ¬ (1 ≤ month ∧ month ≤ 12) ∨ day = 0 then false
  else
    match maxDay year month with
    | some maxDay => day ≤ maxDay
    | none => false

/-- The era of a year, rounded down. -/
def eraOf (adjustedYear : ℤ) : Except Overflow ℤ :=
  if 0 ≤ adjustedYear then .ok (adjustedYear.tdiv 400)
  else do
    let shifted ← checked 32 (adjustedYear - 399)
    .ok (shifted.tdiv 400)

def daysFromCivil (year : ℤ) (month day : ℕ) : Except Overflow ℤ := do
  let adjustedYear ← checked 32 (year - if month ≤ 2 then 1 else 0)
  let era ← eraOf adjustedYear
  let eraStart ← checked 32 (era * 400)
  let yearOfEra ← checked 32 (adjustedYear - eraStart)
  let monthIndex := asI32 month
  let monthOfYear ← checked 32 (monthIndex + if 2 < monthIndex then -3 else 9)
  let fifths ← checked 32 (153 * monthOfYear)
  let fifths ← checked 32 (fifths + 2)
  let dayOfYear ← checked 32 (fifths.tdiv 5 + asI32 day)
  let dayOfYear ← checked 32 (dayOfYear - 1)
  let dayOfEra ← checked 32 (yearOfEra * 365)
  let dayOfEra ← checked 32 (dayOfEra + yearOfEra.tdiv 4)
  let dayOfEra ← checked 32 (dayOfEra - yearOfEra.tdiv 100)
  let dayOfEra ← checked 32 (dayOfEra + dayOfYear)
  let days ← checked 64 (era * 146097)
  let days ← checked 64 (days + dayOfEra)
  checked 64 (days - 719468)

/-- The numbers in a text of the form `YYYY-MM-DD`, if they are those of a day. -/
def parseYmd (value : String) : Option (ℤ × ℕ × ℕ) :=
  match value.toList.splitOn '-' with
  | [year, month, day] => do
    let year ← parseI32 year
    let month ← parseU32 month
    let day ← parseU32 day
    if isValidYmd year month day then some (year, month, day) else none
  | _ => none

def parseYyyyMmDdToDays (value : String) : Except Overflow (Option ℤ) :=
  match parseYmd value with
  | some (year, month, day) => do
    let days ← daysFromCivil year month day
    .ok (some days)
  | none => .ok none

/-! ### Overdue reviews -/

/-- The closure of the filter. -/
def isOverdue (todayDays : ℤ) (assumption : Assumption) : Except Overflow Bool :=
  match assumption.lastReviewed with
  | none => .ok true
  | some lastReviewed => do
    match ← parseYyyyMmDdToDays lastReviewed with
    | none => .ok true
    | some lastReviewedDays => do
      let due ← checked 64 (lastReviewedDays + assumption.revisitCadenceDays.toNat)
      .ok (due < todayDays)

def overdueAt (todayDays : ℤ) : List Assumption → Except Overflow (List Assumption)
  | [] => .ok []
  | assumption :: rest => do
    let due ← isOverdue todayDays assumption
    let rest ← overdueAt todayDays rest
    .ok (if due then assumption :: rest else rest)

def getOverdueReviews (assumptions : List Assumption) (today : String) : Except Overflow (List Assumption) := do
  match ← parseYyyyMmDdToDays today with
  | none => .ok (assumptions.filter (·.lastReviewed.isNone))
  | some todayDays => overdueAt todayDays assumptions

/-! ### The formula -/

theorem checked_of_mem {bits : ℕ} {n : ℤ} (hlow : -2 ^ (bits - 1) ≤ n) (hhigh : n < 2 ^ (bits - 1)) :
    checked bits n = .ok n :=
  if_pos ⟨hlow, hhigh⟩

theorem isLeapYear_natCast (year : ℕ) : isLeapYear year = decide (IsLeap year) := by
  have htmod : ∀ k : ℤ, (year : ℤ).tmod k = year % k := fun k => Int.tmod_eq_emod_of_nonneg (Int.natCast_nonneg year)
  unfold isLeapYear IsLeap
  rw [htmod, htmod, htmod]
  refine decide_eq_decide.mpr ?_
  omega

theorem maxDay_of_mem {year month : ℕ} (h : 1 ≤ month ∧ month ≤ 12) : maxDay year month = some (daysIn year month) := by
  obtain ⟨hlow, hhigh⟩ := h
  unfold maxDay
  rw [isLeapYear_natCast]
  interval_cases month
  case «2» =>
    simp only [daysIn, decide_eq_true_eq]
    split_ifs <;> rfl
  all_goals rfl

/-- The valid dates of the code are those of the calendar. -/
theorem isValidYmd_iff {year month day : ℕ} :
    isValidYmd year month day = true ↔ 1 ≤ day ∧ day ≤ daysIn year month := by
  unfold isValidYmd
  by_cases hmonth : 1 ≤ month ∧ month ≤ 12
  · rw [maxDay_of_mem hmonth]
    split_ifs with h
    · have hday := h.resolve_left (not_not.mpr hmonth)
      simp [hday]
    · simp only [decide_eq_true_eq]
      omega
  · rw [if_pos (.inl hmonth)]
    have hdays : ¬ 1 ≤ daysIn year month := mt daysIn_pos.mp hmonth
    simp only [Bool.false_eq_true, false_iff]
    omega

/-- Five months from March have 153 days, and so have the next five. -/
theorem daysBefore_eq (year : ℕ) {month : ℕ} (h : 1 ≤ month ∧ month ≤ 12) :
    daysBefore year month =
      if month ≤ 2 then 31 * (month - 1)
      else (153 * (month - 3) + 2) / 5 + 59 + if IsLeap year then 1 else 0 := by
  obtain ⟨hlow, hhigh⟩ := h
  interval_cases month <;> simp only [daysBefore, daysIn] <;> split_ifs <;> omega

section Bind
variable {α β : Type} {n : ℤ} {f : ℤ → Except Overflow β}

theorem ok_bind (a : α) (f : α → Except Overflow β) : (.ok a >>= f) = f a := rfl

theorem checked_bind_i32 (hlow : -2147483648 ≤ n) (hhigh : n ≤ 2147483647) : (checked 32 n >>= f) = f n := by
  have hmem : -2 ^ (32 - 1) ≤ n ∧ n < 2 ^ (32 - 1) := by omega
  rw [checked, if_pos hmem]
  rfl

theorem checked_bind_i64 (hlow : -9223372036854775808 ≤ n) (hhigh : n ≤ 9223372036854775807) :
    (checked 64 n >>= f) = f n := by
  have hmem : -2 ^ (64 - 1) ≤ n ∧ n < 2 ^ (64 - 1) := by omega
  rw [checked, if_pos hmem]
  rfl

end Bind

theorem eraOf_eq {a : ℤ} (hlow : -2147483249 ≤ a) : eraOf a = .ok (a / 400) := by
  unfold eraOf
  split_ifs with h
  · rw [Int.tdiv_eq_ediv_of_nonneg h]
  · have hneg : a - 399 = -(399 - a) := by omega
    have hfloor : -((399 - a) / 400) = a / 400 := by omega
    rw [checked_bind_i32 (by omega) (by omega), hneg, Int.neg_tdiv, Int.tdiv_eq_ediv_of_nonneg (by omega), hfloor]

/-- An era has as many days as its years. -/
theorem era_days (era : ℤ) {yearOfEra : ℤ} (hlow : 0 ≤ yearOfEra) (hhigh : yearOfEra ≤ 399) :
    era * 146097 + (yearOfEra * 365 + yearOfEra / 4 - yearOfEra / 100) =
      365 * (era * 400 + yearOfEra) + (era * 400 + yearOfEra) / 4 - (era * 400 + yearOfEra) / 100 +
        (era * 400 + yearOfEra) / 400 := by
  omega

/-- Years that begin after the leap day. -/
theorem yearStart_march (year : ℕ) : 365 * (year : ℤ) + (year : ℤ) / 4 - (year : ℤ) / 100 + (year : ℤ) / 400 =
    yearStart year + (if IsLeap year then 1 else 0) - 1 := by
  have hstart := yearStart_eq year
  split_ifs with hleap <;> unfold IsLeap at hleap <;> omega

theorem yearStart_winter (year : ℕ) : 365 * ((year : ℤ) - 1) + ((year : ℤ) - 1) / 4 - ((year : ℤ) - 1) / 100 +
    ((year : ℤ) - 1) / 400 = yearStart year - 366 := by
  have hstart := yearStart_eq year
  omega

theorem asI32_of_lt {n : ℕ} (h : n < 2 ^ 31) : asI32 n = n := if_pos h

/-- Nothing overflows in years that are not negative, and the days are counted from 1970. -/
theorem daysFromCivil_eq (d : Date) (hyear : d.year < 2 ^ 31) :
    daysFromCivil d.year d.month d.day = .ok ((d.dayNumber : ℤ) - 719528) := by
  have hmonth := d.month_mem
  have hday := d.day_pos
  have hdays : d.day ≤ 31 := d.day_le.trans (daysIn_le _ _)
  obtain ⟨a, ha⟩ : ∃ a : ℤ, a = d.year - if d.month ≤ 2 then 1 else 0 := ⟨_, rfl⟩
  have halow : -1 ≤ a := by
    rw [ha]
    split_ifs <;> omega
  have hahigh : a ≤ d.year := by
    rw [ha]
    split_ifs <;> omega
  unfold daysFromCivil
  rw [← ha, checked_bind_i32 (by omega) (by omega), eraOf_eq (by omega), ok_bind]
  obtain ⟨era, yearOfEra, hsplit, hlow, hhigh, hdiv⟩ :
      ∃ era yearOfEra : ℤ, a = era * 400 + yearOfEra ∧ 0 ≤ yearOfEra ∧ yearOfEra ≤ 399 ∧ a / 400 = era :=
    ⟨a / 400, a % 400, by omega, by omega, by omega, rfl⟩
  have hyearOfEra : a - era * 400 = yearOfEra := by omega
  rw [hdiv, checked_bind_i32 (by omega) (by omega), hyearOfEra, checked_bind_i32 (by omega) (by omega)]
  rw [asI32_of_lt (by omega : d.month < 2 ^ 31), asI32_of_lt (by omega : d.day < 2 ^ 31)]
  -- the month as one from March, and the day in the year from there
  obtain ⟨month, hmonth'⟩ : ∃ month : ℤ, month = d.month + if 2 < (d.month : ℤ) then -3 else 9 := ⟨_, rfl⟩
  have hmonthlow : 0 ≤ month ∧ month ≤ 11 := by
    rw [hmonth']
    split_ifs <;> omega
  have hfifths : (153 * month + 2).tdiv 5 = (153 * month + 2) / 5 := Int.tdiv_eq_ediv_of_nonneg (by omega)
  have hfour : yearOfEra.tdiv 4 = yearOfEra / 4 := Int.tdiv_eq_ediv_of_nonneg hlow
  have hhundred : yearOfEra.tdiv 100 = yearOfEra / 100 := Int.tdiv_eq_ediv_of_nonneg hlow
  dsimp only
  rw [← hmonth', checked_bind_i32 (by omega) (by omega), checked_bind_i32 (by omega) (by omega),
    checked_bind_i32 (by omega) (by omega), hfifths]
  iterate 2 rw [checked_bind_i32 (by omega) (by omega)]
  rw [checked_bind_i32 (by omega) (by omega), hfour, checked_bind_i32 (by omega) (by omega), hhundred]
  iterate 2 rw [checked_bind_i32 (by omega) (by omega)]
  iterate 2 rw [checked_bind_i64 (by omega) (by omega)]
  rw [checked_of_mem (by omega) (by omega)]
  refine congrArg Except.ok ?_
  -- the years before, from March
  have heras := era_days era hlow hhigh
  rw [← hsplit] at heras
  have hbefore := daysBefore_eq d.year hmonth
  rw [Date.dayNumber]
  by_cases hwinter : d.month ≤ 2
  · rw [if_pos hwinter] at ha hbefore
    rw [if_neg (by omega)] at hmonth'
    have hstart := yearStart_winter d.year
    rw [ha] at heras
    rw [hstart] at heras
    clear hsplit hdiv hyearOfEra hfifths hfour hhundred ha halow hahigh
    omega
  · rw [if_neg hwinter] at ha hbefore
    rw [if_pos (by omega)] at hmonth'
    have hstart := yearStart_march d.year
    rw [ha, Int.sub_zero, hstart] at heras
    clear hsplit hdiv hyearOfEra hfifths hfour hhundred ha halow hahigh
    split_ifs at heras hbefore <;> omega

/-! ### Dates as texts -/

/-- The text is the date. -/
def Denotes (text : String) (date : Date) : Prop := parseYmd text = some ((date.year : ℤ), date.month, date.day)

/-- Between dashes there is no sign. -/
theorem parseI32_nonneg {s : List Char} {n : ℤ} (hdash : '-' ∉ s) (h : parseI32 s = some n) :
    ∃ year : ℕ, n = year ∧ year < 2 ^ 31 := by
  unfold parseI32 at h
  split at h
  · cases h
  · exact absurd List.mem_cons_self hdash
  · obtain ⟨year, hyear, rfl⟩ := Option.map_eq_some_iff.mp h
    exact ⟨year, rfl, fromStrRadix_lt hyear⟩

theorem parseYmd_eq_some {text : String} {year : ℤ} {month day : ℕ} (h : parseYmd text = some (year, month, day)) :
    ∃ date : Date, Denotes text date ∧ date.year < 2 ^ 31 ∧ (date.year : ℤ) = year ∧ date.month = month ∧ date.day = day := by
  have hparsed := h
  unfold parseYmd at h
  split at h
  case h_1 yearText monthText dayText hfields =>
    simp only [Option.bind_eq_bind, Option.bind_eq_some_iff] at h
    obtain ⟨y, hy, m, -, d, -, h⟩ := h
    split_ifs at h with hvalid
    simp only [Option.some.injEq, Prod.mk.injEq] at h
    obtain ⟨rfl, rfl, rfl⟩ := h
    have hdash : '-' ∉ yearText := Delimited.notMem_of_mem_splitOn (hfields ▸ List.mem_cons_self)
    obtain ⟨year, rfl, hyear⟩ := parseI32_nonneg hdash hy
    obtain ⟨hday, hdays⟩ := isValidYmd_iff.mp hvalid
    exact ⟨⟨year, m, d, hday, hdays⟩, hparsed, hyear, rfl, rfl, rfl⟩
  case h_2 => cases h

instance (text : String) (date : Date) : Decidable (Denotes text date) := inferInstanceAs (Decidable (_ = _))

theorem Denotes.unique {text : String} {d e : Date} (hd : Denotes text d) (he : Denotes text e) : d = e := by
  have h := hd.symm.trans he
  simp only [Option.some.injEq, Prod.mk.injEq, Nat.cast_inj] at h
  exact Date.ext h.1 h.2.1 h.2.2

theorem Denotes.year_lt {text : String} {d : Date} (h : Denotes text d) : d.year < 2 ^ 31 := by
  obtain ⟨e, he, hyear, -⟩ := parseYmd_eq_some h
  exact h.unique he ▸ hyear

theorem Denotes.parse {text : String} {d : Date} (h : Denotes text d) :
    parseYyyyMmDdToDays text = .ok (some ((d.dayNumber : ℤ) - 719528)) := by
  have hparsed : parseYmd text = some ((d.year : ℤ), d.month, d.day) := h
  rw [parseYyyyMmDdToDays, hparsed]
  dsimp only
  rw [daysFromCivil_eq d h.year_lt]
  rfl

theorem parse_of_not_denotes {text : String} (h : ¬ ∃ d, Denotes text d) : parseYyyyMmDdToDays text = .ok none := by
  unfold parseYyyyMmDdToDays
  split
  · rename_i hparsed
    obtain ⟨date, hdate, -⟩ := parseYmd_eq_some hparsed
    exact absurd ⟨date, hdate⟩ h
  · rfl

/-! ### Overdue reviews -/

/-- Never reviewed, reviewed at no date, or due before today. -/
inductive Overdue (today : Date) (assumption : Assumption) : Prop
  | never (h : assumption.lastReviewed = none)
  | noDate {text : String} (h : assumption.lastReviewed = some text) (hdate : ¬ ∃ d, Denotes text d)
  | due {text : String} {reviewed : Date} (h : assumption.lastReviewed = some text) (hdate : Denotes text reviewed)
      (hlt : Date.next^[assumption.revisitCadenceDays.toNat] reviewed < today)

open Classical in
theorem isOverdue_eq (today : Date) {assumption : Assumption} :
    isOverdue ((today.dayNumber : ℤ) - 719528) assumption = .ok (decide (Overdue today assumption)) := by
  unfold isOverdue
  split
  · rename_i hnever
    rw [decide_eq_true (Overdue.never hnever)]
  · rename_i text hreviewed
    by_cases hdate : ∃ d, Denotes text d
    · obtain ⟨reviewed, hdate⟩ := hdate
      have hcadence := assumption.revisitCadenceDays.toNat_lt
      have hdue : ((reviewed.dayNumber : ℤ) - 719528 + assumption.revisitCadenceDays.toNat < today.dayNumber - 719528) ↔
          Overdue today assumption := by
        have hnumber := Date.dayNumber_iterate reviewed assumption.revisitCadenceDays.toNat
        have hlt := Date.dayNumber_lt_iff (d := Date.next^[assumption.revisitCadenceDays.toNat] reviewed) (e := today)
        rw [hnumber] at hlt
        constructor
        · intro h
          exact .due hreviewed hdate (hlt.mp (by omega))
        · rintro (hnever | ⟨hreviewed', hnone⟩ | ⟨hreviewed', hdate', hbefore⟩)
          · rw [hnever] at hreviewed
            cases hreviewed
          · obtain rfl := Option.some.inj (hreviewed.symm.trans hreviewed')
            exact absurd ⟨reviewed, hdate⟩ hnone
          · obtain rfl := Option.some.inj (hreviewed.symm.trans hreviewed')
            obtain rfl := hdate.unique hdate'
            have := hlt.mpr hbefore
            omega
      have hbound := reviewed.dayNumber_lt_yearStart
      have hyears := yearStart_eq (reviewed.year + 1)
      have hyear := hdate.year_lt
      rw [hdate.parse, ok_bind]
      dsimp only
      rw [checked_bind_i64 (by omega) (by omega)]
      exact congrArg Except.ok (decide_eq_decide.mpr hdue)
    · rw [parse_of_not_denotes hdate, decide_eq_true (Overdue.noDate hreviewed hdate)]
      rfl

open Classical in
theorem overdueAt_eq (today : Date) (assumptions : List Assumption) :
    overdueAt ((today.dayNumber : ℤ) - 719528) assumptions =
      .ok (assumptions.filter fun assumption => decide (Overdue today assumption)) := by
  induction assumptions with
  | nil => rfl
  | cons assumption rest ih =>
    rw [overdueAt, isOverdue_eq, ok_bind, ih, ok_bind, List.filter_cons]

open Classical in
/-- The valid dates are those of the calendar. The formula gives the next day the next number, the first of January of 1970
the number 0, and later dates larger numbers; and on a day that parses the overdue reviews are those of no date and those
that are due before the day. -/
theorem calendar_arithmetic_exact :
    (∀ year month day : ℕ, isValidYmd year month day = true ↔
      ∃ d : Date, d.year = year ∧ d.month = month ∧ d.day = day) ∧
    (∀ d : Date, d.next.year < 2 ^ 31 → ∃ n, daysFromCivil d.year d.month d.day = .ok n ∧
      daysFromCivil d.next.year d.next.month d.next.day = .ok (n + 1)) ∧
    daysFromCivil 1970 1 1 = .ok 0 ∧
    (∀ d e : Date, d.year < 2 ^ 31 → e.year < 2 ^ 31 → ∃ m n, daysFromCivil d.year d.month d.day = .ok m ∧
      daysFromCivil e.year e.month e.day = .ok n ∧ (d < e ↔ m < n)) ∧
    (∀ value year month day, parseYmd value = some (year, month, day) →
      ∃ d : Date, d.year < 2 ^ 31 ∧ year = d.year ∧ month = d.month ∧ day = d.day) ∧
    ∀ (assumptions : List Assumption) (today : String) (date : Date), Denotes today date →
      getOverdueReviews assumptions today =
        .ok (assumptions.filter fun assumption => decide (Overdue date assumption)) := by
  refine ⟨fun year month day => ?_, fun d hnext => ?_, by decide, fun d e hd he => ?_, fun value year month day hvalue => ?_, ?_⟩
  · rw [isValidYmd_iff]
    constructor
    · rintro ⟨hday, hdays⟩
      exact ⟨⟨year, month, day, hday, hdays⟩, rfl, rfl, rfl⟩
    · rintro ⟨d, rfl, rfl, rfl⟩
      exact ⟨d.day_pos, d.day_le⟩
  · have hyear : d.year < 2 ^ 31 := (Date.year_le_next d).trans_lt hnext
    refine ⟨_, daysFromCivil_eq d hyear, ?_⟩
    rw [daysFromCivil_eq _ hnext, Date.dayNumber_next, Nat.cast_succ]
    exact congrArg Except.ok (by omega)
  · refine ⟨_, _, daysFromCivil_eq d hd, daysFromCivil_eq e he, ?_⟩
    rw [← Date.dayNumber_lt_iff]
    omega
  · obtain ⟨d, -, hd, hyear, hmonth, hday⟩ := parseYmd_eq_some hvalue
    exact ⟨d, hd, hyear.symm, hmonth.symm, hday.symm⟩
  · intro assumptions today date hdate
    rw [getOverdueReviews, hdate.parse, ok_bind]
    exact overdueAt_eq date assumptions

def leapDay : Date := ⟨2024, 2, 29, by decide, by decide⟩

open Classical in
/-- Around a leap day. -/
theorem review_due_on_leap_day :
    (∃ n, daysFromCivil leapDay.year leapDay.month leapDay.day = .ok n ∧ daysFromCivil 2024 3 1 = .ok (n + 1)) ∧
    getOverdueReviews [⟨"clock-skew", 1, some "2024-02-28"⟩, ⟨"honest-majority", 30, none⟩] "2024-03-01" =
      .ok [⟨"clock-skew", 1, some "2024-02-28"⟩, ⟨"honest-majority", 30, none⟩] := by
  obtain ⟨-, hnext, -, -, -, hreviews⟩ := calendar_arithmetic_exact
  refine ⟨hnext leapDay (by decide), ?_⟩
  rw [hreviews _ "2024-03-01" leapDay.next (by decide)]
  refine congrArg Except.ok (List.filter_eq_self.mpr fun assumption hassumption => ?_)
  have hdue : Overdue leapDay.next ⟨"clock-skew", 1, some "2024-02-28"⟩ := by
    have hreviewed : Denotes "2024-02-28" ⟨2024, 2, 28, by decide, by decide⟩ := by decide
    exact .due rfl hreviewed (Date.lt_iff.mpr (by decide))
  rcases List.mem_pair.mp hassumption with rfl | rfl
  · exact decide_eq_true hdue
  · exact decide_eq_true (.never rfl)

end AssumptionChecker
end Eth2077
