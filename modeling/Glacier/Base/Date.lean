/-
Dates as Julian day numbers (base/date.cc, base/date.h), in checked int arithmetic: a computation that overflows has
no value.
- `getYearMonthDay_eq`: the date of a day number is its date in the calendar, and nothing overflows.
- `getJulianDayNumber_eq`: the day number of a date counts the days of the calendar.
-/
import Glacier.Lib.CInt
import Glacier.Lib.Gregorian

namespace Glacier

open CInt

/-- Date::YearMonthDay -/
abbrev YearMonthDay := Calendar.Date

structure Date where
  julianDayNumber : ℤ
deriving DecidableEq, Repr

def kDaysPerWeek : ℤ := 7

def getYearMonthDay (julianDayNumber : ℤ) : Option YearMonthDay := do
  let a ← add julianDayNumber 32044
  let b ← div (← add (← mul 4 a) 3) 146097
  let c ← sub a (← div (← mul b 146097) 4)
  let d ← div (← add (← mul 4 c) 3) 1461
  let e ← sub c (← div (← mul 1461 d) 4)
  let m ← div (← add (← mul 5 e) 2) 153
  let day ← add (← sub e (← div (← add (← mul 153 m) 2) 5)) 1
  let month ← sub (← add m 3) (← mul 12 (← div m 10))
  let year ← add (← sub (← add (← mul b 100) d) 4800) (← div m 10)
  return ⟨year, month, day⟩

def getJulianDayNumber (year month day : ℤ) : Option ℤ := do
  let a ← div (← sub 14 month) 12
  let y ← sub (← add year 4800) a
  let m ← sub (← add month (← mul 12 a)) 3
  let days ← add day (← div (← add (← mul 153 m) 2) 5)
  let days ← add (← add days (← mul y 365)) (← div y 4)
  sub (← add (← sub days (← div y 100)) (← div y 400)) 32045

/-- `getJulianDayNumber(1970, 1, 1)` -/
def kJulianDayOf1970_01_01 : ℤ := 2440588

example : getJulianDayNumber 1970 1 1 = some kJulianDayOf1970_01_01 := by decide

namespace Date

/-- Date(int y, int m, int d) -/
def ofYearMonthDay (y m d : ℤ) : Option Date := (getJulianDayNumber y m d).map Date.mk

def yearMonthDay (date : Date) : Option YearMonthDay := getYearMonthDay date.julianDayNumber

def weekDay (date : Date) : Option ℤ := do
  mod (← add date.julianDayNumber 1) kDaysPerWeek

/-- operator< -/
instance : LT Date := ⟨fun x y => x.julianDayNumber < y.julianDayNumber⟩

end Date

/-! ## Day numbers and the calendar -/

/-- **The date of a day number.** From 1 March of the year -4800 on, as long as `4 * a + 3` does not overflow. -/
theorem getYearMonthDay_eq {j : ℤ} (h0 : -32044 ≤ j) (h1 : j ≤ 536838867) :
    getYearMonthDay j = some (Calendar.ofDays (j - kJulianDayOf1970_01_01)) := by
  -- the intermediate values, each named and bounded before the next operation
  obtain ⟨a, ha⟩ : ∃ a, a = j + 32044 := ⟨_, rfl⟩
  obtain ⟨b, hb⟩ : ∃ b, b = (4 * a + 3) / 146097 := ⟨_, rfl⟩
  obtain ⟨c, hc⟩ : ∃ c, c = a - b * 146097 / 4 := ⟨_, rfl⟩
  obtain ⟨d, hd⟩ : ∃ d, d = (4 * c + 3) / 1461 := ⟨_, rfl⟩
  obtain ⟨hd0, hd99, hlow, hhigh⟩ := Calendar.yearOf_century hb hc hd
  obtain ⟨e, he⟩ : ∃ e, e = c - 1461 * d / 4 := ⟨_, rfl⟩
  have hstart : e = a - Calendar.yearStart (100 * b + d) := by rw [Calendar.yearStart_century hd0 hd99]; omega
  have hlength := Calendar.yearStart_succ_le (100 * b + d)
  obtain ⟨m, hm⟩ : ∃ m, m = (5 * e + 2) / 153 := ⟨_, rfl⟩
  have hb0 : 0 ≤ b ∧ b ≤ 14699 := by omega
  have hc0 : 0 ≤ c ∧ c ≤ 36524 := by omega
  have he0 : 0 ≤ e ∧ e ≤ 365 := by omega
  have hm0 : 0 ≤ m ∧ m ≤ 11 := by omega
  have hvalue : getYearMonthDay j = some
      ⟨b * 100 + d - 4800 + m / 10, m + 3 - 12 * (m / 10), e - (153 * m + 2) / 5 + 1⟩ := by
    unfold getYearMonthDay
    simp (disch := omega) only [↓bind_add, ↓bind_sub, ↓bind_mul, ↓bind_div, ← ha, ← hb, ← hc, ← hd, ← he, ← hm]
    rfl
  have hyear : Calendar.yearOf (j - kJulianDayOf1970_01_01 + Calendar.epoch) = 100 * b + d - 4800 := by
    have h4800 := Calendar.yearStart_add_4800 (100 * b + d - 4800)
    have hnext := Calendar.yearStart_add_4800 (100 * b + d - 4800 + 1)
    have hsucc : 100 * b + d - 4800 + 1 + 4800 = 100 * b + d + 1 := by ring
    rw [sub_add_cancel] at h4800
    rw [hsucc] at hnext
    refine Calendar.yearOf_eq ?_ ?_
    · unfold kJulianDayOf1970_01_01 Calendar.epoch; omega
    · unfold kJulianDayOf1970_01_01 Calendar.epoch; omega
  have hday : j - kJulianDayOf1970_01_01 + Calendar.epoch - Calendar.yearStart (100 * b + d - 4800) = e := by
    have h4800 := Calendar.yearStart_add_4800 (100 * b + d - 4800)
    rw [sub_add_cancel] at h4800
    unfold kJulianDayOf1970_01_01 Calendar.epoch; omega
  rw [hvalue, Calendar.ofDays, hyear]
  simp only [hday, Calendar.monthOf, ← hm, Calendar.monthStart, Calendar.ofMarch]
  by_cases hm10 : m < 10
  · have : m / 10 = 0 := by omega
    rw [if_pos hm10, this]
    simp [mul_comm]
  · have : m / 10 = 1 := by omega
    rw [if_neg hm10, this]
    simp only [Option.some.injEq, Calendar.Date.mk.injEq]
    exact ⟨by ring, by ring, trivial⟩

/-- the sum of getJulianDayNumber counts the days of the calendar -/
theorem julian_sum {d : Calendar.Date} {a y m : ℤ} (hm : 1 ≤ d.month ∧ d.month ≤ 12) (ha : a = (14 - d.month) / 12)
    (hy : y = d.year + 4800 - a) (hm' : m = d.month + 12 * a - 3) :
    d.day + (153 * m + 2) / 5 + y * 365 + y / 4 - y / 100 + y / 400 - 32045 =
      Calendar.toDays d + kJulianDayOf1970_01_01 := by
  have hmarch : (if d.month ≤ 2 then d.year - 1 else d.year) = y - 4800 := by split_ifs <;> omega
  have hmonth : (d.month + 9) % 12 = m := by omega
  have h4800 := Calendar.yearStart_add_4800 (y - 4800)
  rw [sub_add_cancel, Calendar.yearStart] at h4800
  simp only [Calendar.toDays, hmarch, hmonth, Calendar.monthStart, Calendar.epoch, kJulianDayOf1970_01_01]
  omega

/-- the day number of a date from 1 March of the year -4800 to the end of 1500000, with any day from 1 to 31 -/
theorem getJulianDayNumber_from {d : Calendar.Date} (hfirst : -4800 < d.year ∨ (d.year = -4800 ∧ 3 ≤ d.month))
    (hy : d.year ≤ 1500000) (hm : 1 ≤ d.month ∧ d.month ≤ 12) (hd : 1 ≤ d.day ∧ d.day ≤ 31) :
    getJulianDayNumber d.year d.month d.day = some (Calendar.toDays d + kJulianDayOf1970_01_01) := by
  obtain ⟨a, ha⟩ : ∃ a, a = (14 - d.month) / 12 := ⟨_, rfl⟩
  obtain ⟨y, hy'⟩ : ∃ y, y = d.year + 4800 - a := ⟨_, rfl⟩
  obtain ⟨m, hm'⟩ : ∃ m, m = d.month + 12 * a - 3 := ⟨_, rfl⟩
  have hy0 : 0 ≤ y ∧ y ≤ 1504800 := by omega
  have hm0 : 0 ≤ m ∧ m ≤ 11 := by omega
  rw [← julian_sum hm ha hy' hm']
  unfold getJulianDayNumber
  simp (disch := omega) only [↓bind_add, ↓bind_sub, ↓bind_mul, ↓bind_div, ← ha, ← hy', ← hm']
  exact ofInt_eq (by omega) (by omega)

/-- **The day number of a date.** For every date of the years -4799 to 1500000, with any day from 1 to 31. -/
theorem getJulianDayNumber_eq {d : Calendar.Date} (hy : -4799 ≤ d.year ∧ d.year ≤ 1500000)
    (hm : 1 ≤ d.month ∧ d.month ≤ 12) (hd : 1 ≤ d.day ∧ d.day ≤ 31) :
    getJulianDayNumber d.year d.month d.day = some (Calendar.toDays d + kJulianDayOf1970_01_01) :=
  getJulianDayNumber_from (Or.inl (by omega)) hy.2 hm hd

/-- wherever it does not overflow -/
theorem getJulianDayNumber_some {d : Calendar.Date} {j : ℤ} (hfirst : -4800 < d.year ∨ (d.year = -4800 ∧ 3 ≤ d.month))
    (hm : 1 ≤ d.month ∧ d.month ≤ 12) (h : getJulianDayNumber d.year d.month d.day = some j) :
    j = Calendar.toDays d + kJulianDayOf1970_01_01 := by
  unfold getJulianDayNumber at h
  obtain ⟨a, ha⟩ : ∃ a, a = (14 - d.month) / 12 := ⟨_, rfl⟩
  obtain ⟨y, hy⟩ : ∃ y, y = d.year + 4800 - a := ⟨_, rfl⟩
  obtain ⟨m, hm'⟩ : ∃ m, m = d.month + 12 * a - 3 := ⟨_, rfl⟩
  have hy0 : 0 ≤ y := by omega
  have hm0 : 0 ≤ m ∧ m ≤ 11 := by omega
  have h := of_bind_div (by omega) (by norm_num) (of_bind_sub h).2
  rw [← ha] at h
  have h := (of_bind_sub (of_bind_add h).2).2
  rw [← hy] at h
  have h := (of_bind_sub (of_bind_add (of_bind_mul h).2).2).2
  rw [← hm'] at h
  have h := of_bind_div (by omega) (by norm_num) (of_bind_add (of_bind_mul h).2).2
  have h := (of_bind_add (of_bind_mul (of_bind_add h).2).2).2
  have h := (of_bind_add (of_bind_div hy0 (by norm_num) h)).2
  have h := (of_bind_sub (of_bind_div hy0 (by norm_num) h)).2
  have h := (of_bind_add (of_bind_div hy0 (by norm_num) h)).2
  rw [← julian_sum hm ha hy hm']
  exact (ofInt_some h).2.symm

end Glacier
