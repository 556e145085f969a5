/-
The proleptic Gregorian calendar, and libc's gmtime_r and timegm over it, with unbounded integers.

A year is counted from 1 March here, so that a leap day is the last day of its year: `yearStart` and `monthStart` are
the days before a March-based year and before a month of one, `yearOf` and `monthOf` their inverses.
- `yearStart_yearOf`, `lt_yearStart_yearOf`: the year of a day is the one whose days contain it.
- `toDays_ofDays`: the day number of the date of a day is that day.
- `timegm_gmtime`: timegm is a left inverse of gmtime_r.
-/
import Mathlib.Tactic

namespace Calendar

/-! ## Dates -/

/-- the days from 1 March of year 0 to 1 March of year `y` -/
def yearStart (y : ℤ) : ℤ := 365 * y + y / 4 - y / 100 + y / 400

/-- the March-based year that contains day `n`: 400 years are 146097 days, and the quotient is at most one short -/
def yearOf (n : ℤ) : ℤ :=
  let y := 400 * n / 146097
  if yearStart (y + 1) ≤ n then y + 1 else y

/-- the days before month `m` of a March-based year, March being month 0 -/
def monthStart (m : ℤ) : ℤ := (153 * m + 2) / 5

def monthOf (d : ℤ) : ℤ := (5 * d + 2) / 153

structure Date where
  year : ℤ
  /-- 1 to 12 -/
  month : ℤ
  day : ℤ
deriving DecidableEq, Repr

/-- the days from 1 March of year 0 to 1970-01-01 -/
def epoch : ℤ := 719468

/-- days since 1970-01-01 -/
def toDays (d : Date) : ℤ :=
  let year := if d.month ≤ 2 then d.year - 1 else d.year
  yearStart year + monthStart ((d.month + 9) % 12) + d.day - 1 - epoch

/-- the date of day `d` of month `m` of the March-based year `y` -/
def ofMarch (y m d : ℤ) : Date := if m < 10 then ⟨y, m + 3, d⟩ else ⟨y + 1, m - 9, d⟩

def ofDays (n : ℤ) : Date :=
  let year := yearOf (n + epoch)
  let d := n + epoch - yearStart year
  let m := monthOf d
  ofMarch year m (d - monthStart m + 1)

theorem yearStart_yearOf (n : ℤ) : yearStart (yearOf n) ≤ n := by
  simp only [yearOf]
  split_ifs with h
  · exact h
  · unfold yearStart; omega

theorem lt_yearStart_yearOf (n : ℤ) : n < yearStart (yearOf n + 1) := by
  simp only [yearOf]
  split_ifs with h
  · unfold yearStart; omega
  · exact lt_of_not_ge h

/-- a year has 365 or 366 days -/
theorem yearStart_succ_le (y : ℤ) : yearStart (y + 1) ≤ yearStart y + 366 := by
  unfold yearStart; omega

/-- the days of a year fall in its twelve months -/
theorem monthOf_mem {d : ℤ} (h0 : 0 ≤ d) (h : d < 366) : 0 ≤ monthOf d ∧ monthOf d < 12 := by
  unfold monthOf; omega

theorem toDays_ofMarch (y : ℤ) {m : ℤ} (d : ℤ) (h0 : 0 ≤ m) (h12 : m < 12) :
    toDays (ofMarch y m d) = yearStart y + monthStart m + d - 1 - epoch := by
  by_cases hm : m < 10
  · have hmod : (m + 3 + 9) % 12 = m := by omega
    simp only [ofMarch, if_pos hm, toDays, hmod, if_neg (show ¬ m + 3 ≤ 2 by omega)]
  · have hmod : (m - 9 + 9) % 12 = m := by omega
    simp only [ofMarch, if_neg hm, toDays, hmod, if_pos (show m - 9 ≤ 2 by omega), add_sub_cancel_right]

theorem month_ofMarch (y : ℤ) {m : ℤ} (d : ℤ) (h0 : 0 ≤ m) (h12 : m < 12) :
    1 ≤ (ofMarch y m d).month ∧ (ofMarch y m d).month ≤ 12 := by
  unfold ofMarch
  split_ifs with hm
  · exact ⟨by simp only; omega, by simp only; omega⟩
  · exact ⟨by simp only; omega, by simp only; omega⟩

/-- the month of a day is one of the twelve -/
theorem monthOf_yearOf (n : ℤ) : 0 ≤ monthOf (n - yearStart (yearOf n)) ∧ monthOf (n - yearStart (yearOf n)) < 12 := by
  have h0 := yearStart_yearOf n
  have h1 := lt_yearStart_yearOf n
  have h2 := yearStart_succ_le (yearOf n)
  exact monthOf_mem (by omega) (by omega)

/-- the day number of the date of a day is that day -/
theorem toDays_ofDays (n : ℤ) : toDays (ofDays n) = n := by
  obtain ⟨h0, h12⟩ := monthOf_yearOf (n + epoch)
  rw [ofDays, toDays_ofMarch _ _ h0 h12]
  omega

theorem month_ofDays (n : ℤ) : 1 ≤ (ofDays n).month ∧ (ofDays n).month ≤ 12 := by
  obtain ⟨h0, h12⟩ := monthOf_yearOf (n + epoch)
  exact month_ofMarch _ _ h0 h12

/-! ## struct tm -/

structure Tm where
  tmSec : ℤ
  tmMin : ℤ
  tmHour : ℤ
  tmMday : ℤ
  /-- months since January -/
  tmMon : ℤ
  /-- years since 1900 -/
  tmYear : ℤ
  tmWday : ℤ
  tmYday : ℤ
  tmIsdst : ℤ
  tmGmtoff : ℤ
  /-- the string tm_zone points to -/
  tmZone : List UInt8
deriving DecidableEq, Repr

/-- gmtime_r -/
def gmtime (t : ℤ) : Tm :=
  let days := t / 86400
  let seconds := t % 86400
  let date := ofDays days
  { tmSec := seconds % 60
    tmMin := seconds / 60 % 60
    tmHour := seconds / 3600
    tmMday := date.day
    tmMon := date.month - 1
    tmYear := date.year - 1900
    tmWday := (days + 4) % 7
    tmYday := days - toDays ⟨date.year, 1, 1⟩
    tmIsdst := 0
    tmGmtoff := 0
    tmZone := [71, 77, 84] }

/-- timegm: the fields need not be in their usual ranges; tm_wday, tm_yday, tm_isdst and the zone are not read -/
def timegm (tm : Tm) : ℤ :=
  let year := tm.tmYear + 1900 + tm.tmMon / 12
  let days := toDays ⟨year, tm.tmMon % 12 + 1, 1⟩ + tm.tmMday - 1
  days * 86400 + tm.tmHour * 3600 + tm.tmMin * 60 + tm.tmSec

/-- **timegm undoes gmtime_r.** -/
theorem timegm_gmtime (t : ℤ) : timegm (gmtime t) = t := by
  obtain ⟨h1, h12⟩ := month_ofDays (t / 86400)
  have hdays := toDays_ofDays (t / 86400)
  simp only [timegm, gmtime]
  set date := ofDays (t / 86400)
  have hyear : date.year - 1900 + 1900 + (date.month - 1) / 12 = date.year := by omega
  have hmonth : (date.month - 1) % 12 + 1 = date.month := by omega
  -- the day of the month enters a day number linearly
  have hday : toDays ⟨date.year, date.month, 1⟩ + date.day - 1 = t / 86400 := by
    rw [← hdays]
    simp only [toDays]
    omega
  rw [hyear, hmonth, hday]
  omega

end Calendar
