/-
The Gregorian calendar by its rules: leap years, the lengths of the months, the day of the year and of the week. The
closed formulas of Calendar keep to them.
- `valid_ofDays`: the date of a day number is a date of the calendar.
- `toDays_sub_newYear`: day numbers count the days of a year from 1 January on.
- `toDays_next`, `toDays_lt_iff`: the next date has the next day number, and day numbers are in the order of the calendar.
- `ofDays_toDays`: a date is the date of its day number.
- `reading_lt_iff`: broken-down times read in the order of time.
-/
import Glacier.Lib.Calendar
import Mathlib.Data.List.Lex

namespace Calendar

/-- every fourth year, of the full centuries every fourth one -/
def IsLeap (y : ℤ) : Prop := y % 4 = 0 ∧ (y % 100 ≠ 0 ∨ y % 400 = 0)

instance (y : ℤ) : Decidable (IsLeap y) := by unfold IsLeap; infer_instance

/-- the days of month `m`, 1 to 12, of year `y` -/
def monthLength (y m : ℤ) : ℤ :=
  if m = 2 then if IsLeap y then 29 else 28
  else if m = 4 ∨ m = 6 ∨ m = 9 ∨ m = 11 then 30
  else 31

theorem monthLength_le (y m : ℤ) : monthLength y m ≤ 31 := by
  unfold monthLength; split_ifs <;> omega

structure Date.Valid (d : Date) : Prop where
  month : 1 ≤ d.month ∧ d.month ≤ 12
  day : 1 ≤ d.day ∧ d.day ≤ monthLength d.year d.month

instance (d : Date) : Decidable d.Valid :=
  decidable_of_iff ((1 ≤ d.month ∧ d.month ≤ 12) ∧ 1 ≤ d.day ∧ d.day ≤ monthLength d.year d.month)
    ⟨fun h => ⟨h.1, h.2⟩, fun h => ⟨h.month, h.day⟩⟩

/-- days since 1 January of the same year -/
def dayOfYear (d : Date) : ℤ := ∑ i ∈ Finset.range (d.month - 1).toNat, monthLength d.year (i + 1) + (d.day - 1)

/-- 0 to 6 from Sunday on; day 0, 1970-01-01, is a Thursday -/
def weekDay (n : ℤ) : ℤ := (n + 4) % 7

/-! ## Years -/

/-- a March-based year ends with the February of the next year -/
theorem yearStart_succ (y : ℤ) : yearStart (y + 1) = yearStart y + if IsLeap (y + 1) then 366 else 365 := by
  unfold IsLeap yearStart
  split_ifs with h <;> omega

theorem yearStart_mono : Monotone yearStart := by
  apply monotone_int_of_le_succ
  intro y
  rw [yearStart_succ]
  split_ifs <;> omega

/-- the year whose days contain a day is the only one -/
theorem yearOf_eq {n y : ℤ} (h0 : yearStart y ≤ n) (h1 : n < yearStart (y + 1)) : yearOf n = y := by
  have hlow := yearStart_yearOf n
  have hhigh := lt_yearStart_yearOf n
  apply le_antisymm
  · by_contra hlt
    have := yearStart_mono (show y + 1 ≤ yearOf n by omega)
    omega
  · by_contra hlt
    have := yearStart_mono (show yearOf n + 1 ≤ y by omega)
    omega

/-- 4800 years are twelve cycles of 146097 days -/
theorem yearStart_add_4800 (y : ℤ) : yearStart (y + 4800) = yearStart y + 1753164 := by
  unfold yearStart; omega

/-- `d` years into the century that begins with the year `100 * b` -/
theorem yearStart_century {b d : ℤ} (h0 : 0 ≤ d) (h99 : d ≤ 99) :
    yearStart (100 * b + d) = b * 146097 / 4 + 1461 * d / 4 := by
  have h4 : (100 * b + d) / 4 = 25 * b + d / 4 := by omega
  have h100 : (100 * b + d) / 100 = b := by omega
  have h400 : (100 * b + d) / 400 = b / 4 := by omega
  have hcentury : b * 146097 / 4 = 36524 * b + b / 4 := by omega
  have hyears : 1461 * d / 4 = 365 * d + d / 4 := by omega
  rw [yearStart, h4, h100, h400, hcentury, hyears]
  ring

/-- the century of a day, and the year in it, found by division -/
theorem yearOf_century {a b c d : ℤ} (hb : b = (4 * a + 3) / 146097) (hc : c = a - b * 146097 / 4)
    (hd : d = (4 * c + 3) / 1461) : 0 ≤ d ∧ d ≤ 99 ∧ yearStart (100 * b + d) ≤ a ∧ a < yearStart (100 * b + d + 1) := by
  have hc0 : 0 ≤ c := by omega
  have hc1 : c ≤ 36524 := by omega
  have hd0 : 0 ≤ d := by omega
  have hd99 : d ≤ 99 := by omega
  refine ⟨hd0, hd99, ?_, ?_⟩
  · rw [yearStart_century hd0 hd99]; omega
  · -- after the last year of a century comes the first one of the next
    by_cases hlast : d = 99
    · have hcentury : 100 * b + d + 1 = 100 * (b + 1) + 0 := by omega
      rw [hcentury, yearStart_century le_rfl (by norm_num)]; omega
    · rw [add_assoc, yearStart_century (by omega) (by omega)]; omega

/-! ## Dates -/

/-- the date of a day of a March-based year -/
theorem valid_ofMarch {y e : ℤ} (h0 : 0 ≤ e) (h1 : e < yearStart (y + 1) - yearStart y) :
    (ofMarch y (monthOf e) (e - monthStart (monthOf e) + 1)).Valid := by
  rw [yearStart_succ] at h1
  have he : e < 366 := by split_ifs at h1 <;> omega
  obtain ⟨hm0, hm12⟩ := monthOf_mem h0 he
  have hmonth : 153 * monthOf e ≤ 5 * e + 2 ∧ 5 * e + 2 < 153 * monthOf e + 153 := by unfold monthOf; omega
  -- the months have fixed lengths, apart from February, the last of the March-based year
  generalize monthOf e = m at hm0 hm12 hmonth ⊢
  unfold ofMarch monthStart
  by_cases hm : m < 10
  · rw [if_pos hm]
    refine ⟨⟨by dsimp only; omega, by dsimp only; omega⟩, by dsimp only; omega, ?_⟩
    dsimp only
    unfold monthLength
    rw [if_neg (by omega)]
    split_ifs <;> omega
  · rw [if_neg hm]
    refine ⟨⟨by dsimp only; omega, by dsimp only; omega⟩, by dsimp only; omega, ?_⟩
    dsimp only
    unfold monthLength
    have hcases : m = 10 ∨ m = 11 := by omega
    rcases hcases with rfl | rfl
    · norm_num; omega
    · norm_num
      split_ifs at h1 ⊢ <;> omega

/-- the date of a day number is a date of the calendar -/
theorem valid_ofDays (n : ℤ) : (ofDays n).Valid := by
  have h0 := yearStart_yearOf (n + epoch)
  have h1 := lt_yearStart_yearOf (n + epoch)
  exact valid_ofMarch (by omega) (by omega)

/-- a month of the same year begins when the one before has ended -/
theorem toDays_succ_month {y m : ℤ} (d : ℤ) (h1 : 1 ≤ m) (h : m < 12) :
    toDays ⟨y, m + 1, d⟩ = toDays ⟨y, m, d⟩ + monthLength y m := by
  have hyear := yearStart_succ (y - 1)
  rw [sub_add_cancel] at hyear
  -- March, the month after February, belongs to the next March-based year
  by_cases hm : m = 2
  · subst hm
    simp only [toDays, monthLength, monthStart]
    split_ifs at hyear ⊢ <;> omega
  · simp only [toDays, monthLength, monthStart]
    interval_cases m <;> norm_num <;> omega

/-- day numbers count the days of a year from 1 January on -/
theorem toDays_sub_newYear {d : Date} (h1 : 1 ≤ d.month) (h12 : d.month ≤ 12) :
    toDays d - toDays ⟨d.year, 1, 1⟩ = dayOfYear d := by
  obtain ⟨y, m, day⟩ := d
  obtain ⟨k, rfl⟩ : ∃ k : ℕ, m = k + 1 := ⟨(m - 1).toNat, by simp only at h1; omega⟩
  simp only [dayOfYear, add_sub_cancel_right, Int.toNat_natCast] at h12 ⊢
  induction k with
  | zero => simp only [toDays]; norm_num; omega
  | succ k ih =>
    have hmonth := toDays_succ_month (y := y) (m := k + 1) day (by omega) (by omega)
    have hk := ih (by simp only; omega) (by omega)
    push_cast
    rw [hmonth, Finset.sum_range_succ]
    omega

/-! ## The order of the calendar -/

/-- the day after -/
def Date.next (d : Date) : Date :=
  if d.day < monthLength d.year d.month then ⟨d.year, d.month, d.day + 1⟩
  else if d.month < 12 then ⟨d.year, d.month + 1, 1⟩
  else ⟨d.year + 1, 1, 1⟩

/-- by year, month and day -/
def Date.Before (d e : Date) : Prop :=
  d.year < e.year ∨ (d.year = e.year ∧ (d.month < e.month ∨ (d.month = e.month ∧ d.day < e.day)))

instance (d e : Date) : Decidable (d.Before e) := by unfold Date.Before; infer_instance

theorem monthLength_pos (y m : ℤ) : 28 ≤ monthLength y m := by
  unfold monthLength; split_ifs <;> omega

theorem Date.Valid.next {d : Date} (h : d.Valid) : d.next.Valid := by
  obtain ⟨⟨hm1, hm12⟩, hd1, hd⟩ := h
  unfold Date.next
  have hfirst (y m : ℤ) : 1 ≤ monthLength y m := (by norm_num : (1 : ℤ) ≤ 28).trans (monthLength_pos y m)
  split_ifs with hday hmonth
  · exact ⟨⟨hm1, hm12⟩, by dsimp only; omega, by dsimp only; omega⟩
  · exact ⟨⟨by dsimp only; omega, by dsimp only; omega⟩, le_rfl, hfirst _ _⟩
  · exact ⟨⟨le_rfl, by norm_num⟩, le_rfl, hfirst _ _⟩

/-- the day of the month enters a day number linearly -/
theorem toDays_day (y m d : ℤ) : toDays ⟨y, m, d⟩ = toDays ⟨y, m, 1⟩ + (d - 1) := by
  simp only [toDays]; omega

/-- a year begins when the December before has ended -/
theorem toDays_succ_year (y : ℤ) : toDays ⟨y + 1, 1, 1⟩ = toDays ⟨y, 12, 1⟩ + monthLength y 12 := by
  simp only [toDays, monthLength, monthStart]; norm_num; omega

/-- **The next date has the next day number.** -/
theorem toDays_next {d : Date} (h : d.Valid) : toDays d.next = toDays d + 1 := by
  obtain ⟨y, m, day⟩ := d
  obtain ⟨⟨hm1, hm12⟩, hd1, hd⟩ := h
  dsimp only at hm1 hm12 hd1 hd
  simp only [Date.next]
  have hday := toDays_day y m day
  split_ifs with hlt hmonth
  · rw [toDays_day y m (day + 1), hday]; ring
  · rw [toDays_succ_month 1 hm1 hmonth, hday]; omega
  · obtain rfl : m = 12 := by omega
    rw [toDays_succ_year, hday]; omega

/-- the first day of the month `k` months after January of year 0 -/
def monthBegin (k : ℤ) : ℤ := toDays ⟨k / 12, k % 12 + 1, 1⟩

theorem monthBegin_succ (k : ℤ) : monthBegin (k + 1) = monthBegin k + monthLength (k / 12) (k % 12 + 1) := by
  unfold monthBegin
  by_cases hlast : k % 12 = 11
  · have hyear : (k + 1) / 12 = k / 12 + 1 := by omega
    have hmonth : (k + 1) % 12 = 0 := by omega
    rw [hyear, hmonth, hlast]
    exact toDays_succ_year _
  · have hyear : (k + 1) / 12 = k / 12 := by omega
    have hmonth : (k + 1) % 12 = k % 12 + 1 := by omega
    rw [hyear, hmonth]
    exact toDays_succ_month 1 (by omega) (by omega)

theorem monthBegin_mono : Monotone monthBegin := by
  refine monotone_int_of_le_succ fun k => ?_
  rw [monthBegin_succ]
  have := monthLength_pos (k / 12) (k % 12 + 1)
  omega

/-- months since January of year 0 -/
def Date.months (d : Date) : ℤ := 12 * d.year + (d.month - 1)

theorem Date.Valid.months_div {d : Date} (h : d.Valid) : d.months / 12 = d.year ∧ d.months % 12 + 1 = d.month := by
  have hm := h.month
  unfold months
  omega

theorem Date.Valid.toDays_eq {d : Date} (h : d.Valid) : toDays d = monthBegin d.months + (d.day - 1) := by
  obtain ⟨hyear, hmonth⟩ := h.months_div
  rw [monthBegin, hyear, hmonth]
  exact toDays_day _ _ _

/-- a date lies in its month -/
theorem Date.Valid.toDays_lt {d : Date} (h : d.Valid) : toDays d < monthBegin (d.months + 1) := by
  obtain ⟨hyear, hmonth⟩ := h.months_div
  have hd := h.day.2
  rw [monthBegin_succ, hyear, hmonth, h.toDays_eq]
  omega

theorem Date.before_iff {d e : Date} (hd : d.Valid) (he : e.Valid) :
    d.Before e ↔ d.months < e.months ∨ (d.months = e.months ∧ d.day < e.day) := by
  have hdm := hd.month
  have hem := he.month
  unfold Date.Before Date.months
  omega

theorem toDays_lt_of_before {d e : Date} (hd : d.Valid) (he : e.Valid) (h : d.Before e) : toDays d < toDays e := by
  rw [Date.before_iff hd he] at h
  rcases h with hmonths | ⟨hmonths, hday⟩
  · calc toDays d < monthBegin (d.months + 1) := hd.toDays_lt
      _ ≤ monthBegin e.months := monthBegin_mono hmonths
      _ ≤ toDays e := by rw [he.toDays_eq]; linarith [he.day.1]
  · rw [hd.toDays_eq, he.toDays_eq, hmonths]
    omega

theorem Date.trichotomy (d e : Date) : d.Before e ∨ d = e ∨ e.Before d := by
  obtain ⟨y, m, day⟩ := d
  obtain ⟨y', m', day'⟩ := e
  simp only [Date.Before, Date.mk.injEq]
  omega

/-- **Day numbers are in the order of the calendar.** -/
theorem toDays_lt_iff {d e : Date} (hd : d.Valid) (he : e.Valid) : toDays d < toDays e ↔ d.Before e := by
  refine ⟨fun hlt => ?_, toDays_lt_of_before hd he⟩
  rcases d.trichotomy e with hbefore | rfl | hafter
  · exact hbefore
  · exact absurd hlt (lt_irrefl _)
  · exact absurd (toDays_lt_of_before he hd hafter) (not_lt.2 hlt.le)

theorem year_gmtime_nonneg {t : ℤ} (h : 0 < t) : 0 ≤ (gmtime t).tmYear + 1900 := by
  have hn : 0 ≤ t / 86400 := by omega
  have h1 := lt_yearStart_yearOf (t / 86400 + epoch)
  have hyear : 0 ≤ yearOf (t / 86400 + epoch) := by
    by_contra hlt
    have hmono := yearStart_mono (show yearOf (t / 86400 + epoch) + 1 ≤ 0 by omega)
    have hval : yearStart 0 = 0 := by decide
    simp only [epoch] at h1 hmono
    omega
  simp only [gmtime, ofDays, ofMarch, sub_add_cancel]
  split_ifs
  · exact hyear
  · simp only; omega

/-- the fields of a broken-down time that a two-digit numeral holds -/
theorem gmtime_mem (t : ℤ) : (0 ≤ (gmtime t).tmMon + 1 ∧ (gmtime t).tmMon + 1 < 100) ∧
    (0 ≤ (gmtime t).tmMday ∧ (gmtime t).tmMday < 100) ∧ (0 ≤ (gmtime t).tmHour ∧ (gmtime t).tmHour < 100) ∧
    (0 ≤ (gmtime t).tmMin ∧ (gmtime t).tmMin < 100) ∧ (0 ≤ (gmtime t).tmSec ∧ (gmtime t).tmSec < 100) := by
  obtain ⟨⟨hm1, hm12⟩, hd1, hd⟩ := valid_ofDays (t / 86400)
  have hd31 : (ofDays (t / 86400)).day ≤ 31 := hd.trans (monthLength_le _ _)
  simp only [gmtime]
  omega

/-- what a broken-down time shows behind the year -/
def Tm.clock (tm : Tm) : List ℤ := [tm.tmMon + 1, tm.tmMday, tm.tmHour, tm.tmMin, tm.tmSec]

/-- what it shows -/
def Tm.reading (tm : Tm) : List ℤ := (tm.tmYear + 1900) :: tm.clock

theorem reading_lt {a b : ℤ} (h : a < b) : (gmtime a).reading < (gmtime b).reading := by
  have hdays : a / 86400 < b / 86400 ∨ a / 86400 = b / 86400 := by omega
  simp only [Tm.reading, Tm.clock, gmtime, sub_add_cancel, List.cons_lt_cons_iff, List.lt_irrefl, and_false, or_false]
  rcases hdays with hlt | heq
  · rw [← toDays_ofDays (a / 86400), ← toDays_ofDays (b / 86400)] at hlt
    have hbefore := (toDays_lt_iff (valid_ofDays (a / 86400)) (valid_ofDays (b / 86400))).1 hlt
    unfold Date.Before at hbefore
    omega
  · rw [heq]
    omega

/-- **The readings of broken-down times are in the order of time.** -/
theorem reading_lt_iff {a b : ℤ} : (gmtime a).reading < (gmtime b).reading ↔ a < b := by
  refine ⟨fun h => ?_, reading_lt⟩
  rcases lt_trichotomy a b with hlt | rfl | hgt
  · exact hlt
  · exact absurd h (lt_irrefl _)
  · exact absurd (reading_lt hgt) (not_lt.2 h.le)

/-- the year of a second between two New Years -/
theorem year_gmtime_mem {t first last : ℤ} (h0 : toDays ⟨first, 1, 1⟩ * 86400 ≤ t) (h : t < toDays ⟨last, 1, 1⟩ * 86400) :
    first ≤ (gmtime t).tmYear + 1900 ∧ (gmtime t).tmYear + 1900 < last := by
  have hvalid := valid_ofDays (t / 86400)
  have hday := toDays_ofDays (t / 86400)
  have hnewYear (y : ℤ) : (⟨y, 1, 1⟩ : Date).Valid := ⟨by norm_num, le_rfl, by linarith [monthLength_pos y 1]⟩
  have hfirst : ¬ (ofDays (t / 86400)).Before ⟨first, 1, 1⟩ := by
    rw [← toDays_lt_iff hvalid (hnewYear first), hday]
    omega
  have hlast : (ofDays (t / 86400)).Before ⟨last, 1, 1⟩ := by
    rw [← toDays_lt_iff hvalid (hnewYear last), hday]
    omega
  have hm := hvalid.month
  have hd := hvalid.day
  simp only [gmtime, sub_add_cancel]
  unfold Date.Before at hfirst hlast
  dsimp only at hfirst hlast
  omega

theorem reading_inj {a b : ℤ} (h : (gmtime a).reading = (gmtime b).reading) : a = b := by
  rcases lt_trichotomy a b with hlt | heq | hgt
  · exact absurd h (reading_lt hlt).ne
  · exact heq
  · exact absurd h (reading_lt hgt).ne'

end Calendar
