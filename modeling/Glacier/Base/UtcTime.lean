/-
TimeZone::toUtcTime and TimeZone::fromUtcTime (base/timezone.cc), in checked int arithmetic.

`utc_isomorphism`: on every time whose Julian day number is non-negative and does not overflow getYearMonthDay, the
broken-down time is the one of the Gregorian calendar, fromUtcTime takes it back to the time, and no int computation
overflows.
-/
import Glacier.Base.Date
import Glacier.Base.TimeZone

namespace Glacier.TimeZone

open CInt Calendar Cxx

def kSecondsPerDay : ℤ := 86400

def fillHMS (seconds : ℕ) (utc : Tm) : Tm :=
  let minutes := seconds / 60
  { utc with
    tmSec := (seconds % 60 : ℕ)
    tmMin := (minutes % 60 : ℕ)
    tmHour := (minutes / 60 : ℕ) }

/-- the memset, and tm_zone -/
def zeroTm : Tm := ⟨0, 0, 0, 0, 0, 0, 0, 0, 0, 0, ascii "GMT"⟩

/-- the second of the day and the day, from the epoch -/
def secondsAndDays (secondsSinceEpoch : ℤ) : Option (ℤ × ℤ) :=
  let seconds := toInt (secondsSinceEpoch.tmod kSecondsPerDay)
  let days := toInt (secondsSinceEpoch.tdiv kSecondsPerDay)
  if seconds < 0 then do
    let seconds ← add seconds kSecondsPerDay
    let days ← sub days 1
    return (seconds, days)
  else return (seconds, days)

def toUtcTime (secondsSinceEpoch : ℤ) (yday : Bool) : Option Tm := do
  let (seconds, days) ← secondsAndDays secondsSinceEpoch
  let utc := fillHMS (toUnsigned seconds) zeroTm
  let date := Date.mk (← add days kJulianDayOf1970_01_01)
  let ymd ← date.yearMonthDay
  let utc := { utc with
    tmYear := ← sub ymd.year 1900
    tmMon := ← sub ymd.month 1
    tmMday := ymd.day
    tmWday := ← date.weekDay }
  if yday then
    let startOfYear ← Date.ofYearMonthDay ymd.year 1 1
    let yday ← sub date.julianDayNumber startOfYear.julianDayNumber
    return { utc with tmYday := yday }
  else return utc

/-- fromUtcTime of six ints; the result is a 64-bit time_t and cannot overflow -/
def fromUtcTimeOf (year month day hour minute seconds : ℤ) : Option ℤ := do
  let date ← Date.ofYearMonthDay year month day
  let secondsInDay ← add (← add (← mul hour 3600) (← mul minute 60)) seconds
  let days ← sub date.julianDayNumber kJulianDayOf1970_01_01
  return days * kSecondsPerDay + secondsInDay

def fromUtcTime (utc : Tm) : Option ℤ := do
  fromUtcTimeOf (← add utc.tmYear 1900) (← add utc.tmMon 1) utc.tmMday utc.tmHour utc.tmMin utc.tmSec

/-! ## The day and the second of the day -/

/-- truncating division and the borrow give the floor -/
theorem tdiv_tmod_eq (t : ℤ) : t.tmod 86400 < 0 ∧ t.tmod 86400 + 86400 = t % 86400 ∧ t.tdiv 86400 - 1 = t / 86400 ∨
    0 ≤ t.tmod 86400 ∧ t.tmod 86400 = t % 86400 ∧ t.tdiv 86400 = t / 86400 := by
  have hdiv := Int.tdiv_mul_add_tmod t 86400
  have hlt := Int.tmod_lt_of_pos t (b := 86400) (by norm_num)
  have hgt := Int.lt_tmod_of_pos t (b := 86400) (by norm_num)
  omega

/-- the broken-down time of second `s` of day `n` -/
def utcOf (n s : ℤ) : Tm where
  tmSec := s % 60
  tmMin := s / 60 % 60
  tmHour := s / 3600
  tmMday := (ofDays n).day
  tmMon := (ofDays n).month - 1
  tmYear := (ofDays n).year - 1900
  tmWday := Calendar.weekDay n
  tmYday := dayOfYear (ofDays n)
  tmIsdst := 0
  tmGmtoff := 0
  tmZone := ascii "GMT"

/-- the days from which toUtcTime computes: their Julian day numbers are non-negative and do not overflow -/
structure DayInRange (n : ℤ) : Prop where
  low : 0 ≤ n + kJulianDayOf1970_01_01
  high : n + kJulianDayOf1970_01_01 ≤ 536838867

theorem DayInRange.year {n : ℤ} (h : DayInRange n) : -4714 ≤ (ofDays n).year ∧ (ofDays n).year ≤ 1480001 := by
  obtain ⟨hlow, hhigh⟩ := h
  simp only [kJulianDayOf1970_01_01] at hlow hhigh
  have h0 := yearStart_yearOf (n + epoch)
  have h1 := lt_yearStart_yearOf (n + epoch)
  have hmin : -4714 ≤ yearOf (n + epoch) := by
    by_contra hlt
    have hmono := yearStart_mono (show yearOf (n + epoch) + 1 ≤ -4714 by omega)
    have hval : yearStart (-4714) = -1721753 := by decide
    simp only [epoch] at h1 hmono
    omega
  have hmax : yearOf (n + epoch) ≤ 1480000 := by
    by_contra hlt
    have hmono := yearStart_mono (show 1480000 ≤ yearOf (n + epoch) by omega)
    have hval : yearStart 1480000 = 540558900 := by decide
    simp only [epoch] at h0 hmono
    omega
  simp only [ofDays, ofMarch]
  split_ifs
  · exact ⟨by simp only; omega, by simp only; omega⟩
  · exact ⟨by simp only; omega, by simp only; omega⟩

theorem fillHMS_eq {s : ℤ} (h0 : 0 ≤ s) (h : s < 86400) (utc : Tm) :
    fillHMS (toUnsigned s) utc = { utc with tmSec := s % 60, tmMin := s / 60 % 60, tmHour := s / 3600 } := by
  have hs : ((toUnsigned s : ℕ) : ℤ) = s := by unfold toUnsigned; omega
  simp only [fillHMS, Tm.mk.injEq, and_true, Int.natCast_mod, Int.natCast_ediv, hs]
  omega

theorem secondsAndDays_eq {t : ℤ} (h : DayInRange (t / 86400)) : secondsAndDays t = some (t % 86400, t / 86400) := by
  obtain ⟨hlow, hhigh⟩ := h
  simp only [kJulianDayOf1970_01_01] at hlow hhigh
  have hlt := Int.tmod_lt_of_pos t (b := 86400) (by norm_num)
  have hgt := Int.lt_tmod_of_pos t (b := 86400) (by norm_num)
  have hcases := tdiv_tmod_eq t
  have hseconds : toInt (t.tmod kSecondsPerDay) = t.tmod 86400 := by
    rw [kSecondsPerDay, toInt_of_mem (by omega) (by omega)]
  have hdays : toInt (t.tdiv kSecondsPerDay) = t.tdiv 86400 := by
    rw [kSecondsPerDay, toInt_of_mem (by omega) (by omega)]
  unfold secondsAndDays
  simp only [hseconds, hdays]
  rcases hcases with ⟨hneg, hs, hd⟩ | ⟨hpos, hs, hd⟩
  · rw [if_pos hneg, kSecondsPerDay, bind_add (by omega) (by omega), bind_sub (by omega) (by omega), hs, hd]
    rfl
  · rw [if_neg (by omega), hs, hd]
    rfl

theorem weekDay_eq {n : ℤ} (h : DayInRange n) :
    Date.weekDay ⟨n + kJulianDayOf1970_01_01⟩ = some (Calendar.weekDay n) := by
  obtain ⟨hlow, hhigh⟩ := h
  simp only [kJulianDayOf1970_01_01] at hlow hhigh ⊢
  simp only [Date.weekDay, kDaysPerWeek, Calendar.weekDay]
  rw [bind_add (by omega) (by omega), mod_eq (by omega) (by omega) (by norm_num)]
  congr 1
  omega

/-- toUtcTime gives the broken-down time of the calendar -/
theorem toUtcTime_eq {t : ℤ} (h : DayInRange (t / 86400)) : toUtcTime t true = some (utcOf (t / 86400) (t % 86400)) := by
  have hlow := h.low
  have hhigh := h.high
  have hyear := h.year
  have hweek := weekDay_eq h
  obtain ⟨hm1, hm12⟩ := (valid_ofDays (t / 86400)).month
  have hnewYear := toDays_sub_newYear hm1 hm12
  rw [toDays_ofDays] at hnewYear
  have hdate : Date.yearMonthDay ⟨t / 86400 + kJulianDayOf1970_01_01⟩ = some (ofDays (t / 86400)) := by
    rw [Date.yearMonthDay, getYearMonthDay_eq (le_trans (by norm_num) hlow) hhigh, add_sub_cancel_right]
  have hstart : Date.ofYearMonthDay (ofDays (t / 86400)).year 1 1 =
      some ⟨toDays ⟨(ofDays (t / 86400)).year, 1, 1⟩ + kJulianDayOf1970_01_01⟩ := by
    have := getJulianDayNumber_eq (d := ⟨(ofDays (t / 86400)).year, 1, 1⟩) ⟨by simp only; omega, by simp only; omega⟩
      (by norm_num) (by norm_num)
    rw [Date.ofYearMonthDay, this, Option.map_some]
  have hsub : sub (t / 86400 + kJulianDayOf1970_01_01)
      (toDays ⟨(ofDays (t / 86400)).year, 1, 1⟩ + kJulianDayOf1970_01_01) = some (dayOfYear (ofDays (t / 86400))) := by
    have hdiff : t / 86400 + kJulianDayOf1970_01_01 -
        (toDays ⟨(ofDays (t / 86400)).year, 1, 1⟩ + kJulianDayOf1970_01_01) = dayOfYear (ofDays (t / 86400)) := by
      omega
    have hmem : -600000000 ≤ toDays ⟨(ofDays (t / 86400)).year, 1, 1⟩ ∧
        toDays ⟨(ofDays (t / 86400)).year, 1, 1⟩ ≤ 600000000 := by
      simp only [toDays, yearStart, monthStart, epoch]
      norm_num
      omega
    simp only [kJulianDayOf1970_01_01] at hlow hhigh
    rw [sub, hdiff, ofInt_eq (by omega) (by omega)]
  unfold toUtcTime
  rw [secondsAndDays_eq h, Option.bind_eq_bind, Option.bind_some]
  simp only
  rw [bind_add (by omega) (by omega)]
  have hsubYear : sub (ofDays (t / 86400)).year 1900 = some ((ofDays (t / 86400)).year - 1900) := by
    rw [sub, ofInt_eq (by omega) (by omega)]
  have hsubMonth : sub (ofDays (t / 86400)).month 1 = some ((ofDays (t / 86400)).month - 1) := by
    rw [sub, ofInt_eq (by omega) (by omega)]
  simp only [hdate, hweek, hstart, hsub, hsubYear, hsubMonth, Option.bind_eq_bind, Option.bind_some, if_true]
  rw [fillHMS_eq (Int.emod_nonneg t (by norm_num)) (Int.emod_lt_of_pos t (by norm_num))]
  rfl

/-- fromUtcTime counts the days back -/
theorem fromUtcTime_utcOf {n s : ℤ} (h : DayInRange n) (h0 : 0 ≤ s) (hs : s < 86400) :
    fromUtcTime (utcOf n s) = some (n * 86400 + s) := by
  have hlow := h.low
  have hhigh := h.high
  have hyear := h.year
  have hvalid := valid_ofDays n
  obtain ⟨hm1, hm12⟩ := hvalid.month
  obtain ⟨hd1, hd⟩ := hvalid.day
  have hd31 : (ofDays n).day ≤ 31 := hd.trans (monthLength_le _ _)
  have hjulian := getJulianDayNumber_eq (d := ofDays n) ⟨by omega, by omega⟩ ⟨hm1, hm12⟩ ⟨hd1, hd31⟩
  rw [toDays_ofDays] at hjulian
  simp only [kJulianDayOf1970_01_01] at hlow hhigh
  have hdays : sub (n + kJulianDayOf1970_01_01) kJulianDayOf1970_01_01 = some n := by
    rw [sub, add_sub_cancel_right, ofInt_eq (by omega) (by omega)]
  unfold fromUtcTime fromUtcTimeOf
  rw [bind_add (by simp only [utcOf]; omega) (by simp only [utcOf]; omega),
    bind_add (by simp only [utcOf]; omega) (by simp only [utcOf]; omega)]
  simp only [utcOf, sub_add_cancel]
  rw [Date.ofYearMonthDay, hjulian, Option.map_some, Option.bind_eq_bind, Option.bind_some,
    bind_mul (by omega) (by omega), bind_mul (by omega) (by omega), bind_add (by omega) (by omega),
    bind_add (by omega) (by omega), hdays, Option.bind_eq_bind, Option.bind_some, kSecondsPerDay]
  simp only [Option.pure_def, Option.some.injEq]
  omega

/-- what a broken-down UTC time of day `n` has to be -/
structure Utc (n : ℤ) (utc : Tm) : Prop where
  sec : 0 ≤ utc.tmSec ∧ utc.tmSec < 60
  min : 0 ≤ utc.tmMin ∧ utc.tmMin < 60
  hour : 0 ≤ utc.tmHour ∧ utc.tmHour < 24
  mon : 0 ≤ utc.tmMon ∧ utc.tmMon < 12
  mday : 1 ≤ utc.tmMday ∧ utc.tmMday ≤ monthLength (utc.tmYear + 1900) (utc.tmMon + 1)
  /-- the date is the one of that day -/
  day : toDays ⟨utc.tmYear + 1900, utc.tmMon + 1, utc.tmMday⟩ = n
  wday : utc.tmWday = Calendar.weekDay n
  yday : utc.tmYday = dayOfYear ⟨utc.tmYear + 1900, utc.tmMon + 1, utc.tmMday⟩

theorem utc_utcOf {n s : ℤ} (h0 : 0 ≤ s) (hs : s < 86400) : Utc n (utcOf n s) := by
  have hvalid := valid_ofDays n
  obtain ⟨hm1, hm12⟩ := hvalid.month
  refine ⟨?_, ?_, ?_, ?_, ?_, ?_, rfl, ?_⟩
  · simp only [utcOf]; omega
  · simp only [utcOf]; omega
  · simp only [utcOf]; omega
  · simp only [utcOf]; omega
  · simp only [utcOf, sub_add_cancel]; exact hvalid.day
  · simp only [utcOf, sub_add_cancel]; exact toDays_ofDays n
  · simp only [utcOf, sub_add_cancel]

/-- **UTC conversion is a calendar isomorphism.** For every time whose Julian day number is neither negative nor too
large for the int computations of getYearMonthDay, toUtcTime gives the time of the day and the Gregorian date with its
day of the week and of the year, fromUtcTime gives the time back, and no int computation of either overflows. -/
theorem utc_isomorphism (t : ℤ) (h0 : 0 ≤ t / 86400 + 2440588) (h : t / 86400 + 2440588 ≤ 536838867) :
    ∃ utc, toUtcTime t true = some utc ∧ Utc (t / 86400) utc ∧ fromUtcTime utc = some t := by
  have hday : DayInRange (t / 86400) := ⟨h0, h⟩
  have hs0 : 0 ≤ t % 86400 := Int.emod_nonneg t (by norm_num)
  have hs : t % 86400 < 86400 := Int.emod_lt_of_pos t (by norm_num)
  refine ⟨utcOf (t / 86400) (t % 86400), toUtcTime_eq hday, utc_utcOf hs0 hs, ?_⟩
  rw [fromUtcTime_utcOf hday hs0 hs]
  congr 1
  omega

theorem utc_isomorphism_before_epoch :
    ∃ utc, toUtcTime (-1) true = some utc ∧ Utc (-1) utc ∧ fromUtcTime utc = some (-1) := by
  simpa using utc_isomorphism (-1) (by norm_num) (by norm_num)

end Glacier.TimeZone
