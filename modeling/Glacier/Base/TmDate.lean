/-
The Date of a struct tm (base/date.cc), next to the Date of a year, a month and a day.

Date(const struct tm&) adds 1970 to tm_year, which counts from 1900. So the date it builds from a broken-down UTC time
is the one of the same month and day 70 years later, and the two constructors agree on no time.
- `toUtcTime_yday`: without `yday` toUtcTime gives the same date.
- `dates_never_agree`: which day each constructor gives.
-/
import Glacier.Base.UtcTime

namespace Glacier

open CInt Calendar TimeZone

/-- Date(const struct tm& t) -/
def Date.ofTm (t : Tm) : Option Date := do
  let julianDayNumber ← getJulianDayNumber (← add t.tmYear 1970) (← add t.tmMon 1) t.tmMday
  return ⟨julianDayNumber⟩

/-- the same month and day `k` years later, which need not be a date: 29 February -/
def yearsLater (d : YearMonthDay) (k : ℤ) : YearMonthDay := { d with year := d.year + k }

theorem toDays_yearsLater (d : YearMonthDay) {k : ℤ} (hk : 0 < k) : toDays d < toDays (yearsLater d k) := by
  have hstep : ∀ y : ℤ, yearStart y + 365 ≤ yearStart (y + k) := by
    intro y
    calc yearStart y + 365 ≤ yearStart (y + 1) := by unfold yearStart; omega
      _ ≤ yearStart (y + k) := yearStart_mono (by omega)
  have hmonth : (yearsLater d k).month = d.month := rfl
  have hyear : (yearsLater d k).year = d.year + k := rfl
  have hday : (yearsLater d k).day = d.day := rfl
  unfold toDays
  rw [hmonth, hyear, hday]
  by_cases hm : d.month ≤ 2
  · have := hstep (d.year - 1)
    rw [if_pos hm, if_pos hm, show d.year + k - 1 = d.year - 1 + k by ring]
    dsimp only
    omega
  · have := hstep d.year
    rw [if_neg hm, if_neg hm]
    dsimp only
    omega

namespace TimeZone

/-- the day of the year is all that `yday` decides -/
theorem toUtcTime_yday {t : ℤ} {utc : Tm} (h : toUtcTime t true = some utc) (yday : Bool) :
    ∃ day, toUtcTime t yday = some { utc with tmYday := day } := by
  cases yday with
  | true => exact ⟨utc.tmYday, h⟩
  | false =>
    refine ⟨0, ?_⟩
    unfold toUtcTime at h ⊢
    simp only [Option.bind_eq_bind, Option.bind_eq_some_iff, if_true, Bool.false_eq_true, if_false] at h ⊢
    obtain ⟨sd, hsd, day, hday, ymd, hymd, year, hyear, mon, hmon, wday, hwday, start, -, diff, -, heq⟩ := h
    refine ⟨sd, hsd, day, hday, ymd, hymd, year, hyear, mon, hmon, wday, hwday, ?_⟩
    simp only [Option.pure_def, Option.some.injEq] at heq ⊢
    rw [← heq]
    rfl

/-- the date of a broken-down time -/
def tmDate (utc : Tm) : YearMonthDay := ⟨utc.tmYear + 1900, utc.tmMon + 1, utc.tmMday⟩

/-- the date of a broken-down UTC time is the one of its day, whose day number fromUtcTime finds again -/
theorem ofYearMonthDay_utcOf {n : ℤ} (h : DayInRange n) (s : ℤ) :
    Date.ofYearMonthDay (tmDate (utcOf n s)).year (tmDate (utcOf n s)).month (tmDate (utcOf n s)).day =
      some ⟨n + kJulianDayOf1970_01_01⟩ := by
  have hyear := h.year
  obtain ⟨hd1, hd⟩ := (valid_ofDays n).day
  have hjulian := getJulianDayNumber_eq (d := ofDays n) ⟨by omega, by omega⟩ (valid_ofDays n).month
    ⟨hd1, hd.trans (monthLength_le _ _)⟩
  rw [toDays_ofDays] at hjulian
  simp only [tmDate, utcOf, sub_add_cancel]
  rw [Date.ofYearMonthDay, hjulian, Option.map_some]

/-- the tm constructor goes 70 years further -/
theorem ofTm_utcOf {n : ℤ} (h : DayInRange n) (s : ℤ) :
    Date.ofTm (utcOf n s) = some ⟨toDays (yearsLater (ofDays n) 70) + kJulianDayOf1970_01_01⟩ := by
  have hyear := h.year
  obtain ⟨hm1, hm12⟩ := (valid_ofDays n).month
  obtain ⟨hd1, hd⟩ := (valid_ofDays n).day
  have hjulian := getJulianDayNumber_eq (d := yearsLater (ofDays n) 70)
    ⟨by simp only [yearsLater]; omega, by simp only [yearsLater]; omega⟩ ⟨hm1, hm12⟩
    ⟨hd1, hd.trans (monthLength_le _ _)⟩
  have hyears : (utcOf n s).tmYear + 1970 = (yearsLater (ofDays n) 70).year := by
    simp only [utcOf, yearsLater]
    omega
  have hmonth : (utcOf n s).tmMon + 1 = (yearsLater (ofDays n) 70).month := by
    simp only [utcOf, yearsLater, sub_add_cancel]
  have hday : (utcOf n s).tmMday = (yearsLater (ofDays n) 70).day := rfl
  have hlater : (yearsLater (ofDays n) 70).year = (ofDays n).year + 70 := rfl
  have hlater' : (yearsLater (ofDays n) 70).month = (ofDays n).month := rfl
  unfold Date.ofTm
  rw [bind_add (by omega) (by omega), bind_add (by omega) (by omega), hyears, hmonth, hday, hjulian]
  rfl

/-- both constructors give the day of the time, from which fromUtcTime counts -/
structure DatesAgree (t : ℤ) (utc : Tm) (ofTm ofDate : Date) : Prop where
  same : ofTm = ofDate
  day : ofTm.julianDayNumber = t / 86400 + 2440588
  back : ∃ u, fromUtcTime utc = some u ∧ ofTm.julianDayNumber = u / 86400 + 2440588

/-- **The two constructors of Date agree on no time.** For every time that toUtcTime converts exactly, both have a
value: the one of a year, a month and a day is the day of the time, as fromUtcTime counts it; the one of the struct tm
is the same date 70 years later. -/
theorem dates_never_agree (t : ℤ) (h0 : 0 ≤ t / 86400 + 2440588) (h : t / 86400 + 2440588 ≤ 536838867)
    (yday : Bool) :
    ∃ utc ofTm ofDate, toUtcTime t yday = some utc ∧ Date.ofTm utc = some ofTm ∧
      Date.ofYearMonthDay (tmDate utc).year (tmDate utc).month (tmDate utc).day = some ofDate ∧
      ¬ DatesAgree t utc ofTm ofDate ∧
      ofDate.julianDayNumber = t / 86400 + 2440588 ∧ fromUtcTime utc = some t ∧
      ofTm.julianDayNumber = toDays (yearsLater (tmDate utc) 70) + 2440588 ∧ ofDate < ofTm := by
  have hday : DayInRange (t / 86400) := ⟨h0, h⟩
  have hs0 : 0 ≤ t % 86400 := Int.emod_nonneg t (by norm_num)
  have hs : t % 86400 < 86400 := Int.emod_lt_of_pos t (by norm_num)
  obtain ⟨day, hutc⟩ := toUtcTime_yday (toUtcTime_eq hday) yday
  -- neither constructor reads tm_yday
  have hofTm := ofTm_utcOf hday (t % 86400)
  have hofDate := ofYearMonthDay_utcOf hday (t % 86400)
  have hback := fromUtcTime_utcOf hday hs0 hs
  have hdate : tmDate (utcOf (t / 86400) (t % 86400)) = ofDays (t / 86400) := by
    simp only [tmDate, utcOf, sub_add_cancel]
  have hlater : t / 86400 + kJulianDayOf1970_01_01 <
      toDays (yearsLater (ofDays (t / 86400)) 70) + kJulianDayOf1970_01_01 := by
    have := toDays_yearsLater (ofDays (t / 86400)) (show (0 : ℤ) < 70 by norm_num)
    rw [toDays_ofDays] at this
    omega
  refine ⟨_, _, _, hutc, hofTm, hofDate, ?_, rfl, ?_, ?_, hlater⟩
  · intro hagree
    have hsame := congrArg Date.julianDayNumber hagree.same
    simp only at hsame
    omega
  · exact hback.trans (congrArg some (by omega))
  · show _ = toDays (yearsLater (tmDate (utcOf (t / 86400) (t % 86400))) 70) + 2440588
    rw [hdate]
    rfl

theorem dates_never_agree_epoch : ∃ utc ofTm ofDate, toUtcTime 0 false = some utc ∧ Date.ofTm utc = some ofTm ∧
    Date.ofYearMonthDay (tmDate utc).year (tmDate utc).month (tmDate utc).day = some ofDate ∧
    ¬ DatesAgree 0 utc ofTm ofDate := by
  obtain ⟨utc, ofTm, ofDate, hutc, hofTm, hofDate, hagree, -⟩ := dates_never_agree 0 (by norm_num) (by norm_num) false
  exact ⟨utc, ofTm, ofDate, hutc, hofTm, hofDate, hagree⟩

/-- the first second of 1970: the struct tm gives the first day of 2040 -/
theorem tm_epoch_2040 : ¬ ∀ t : ℤ, 0 ≤ t / 86400 + 2440588 → t / 86400 + 2440588 ≤ 536838867 →
    ∃ utc ofTm ofDate, toUtcTime t false = some utc ∧ Date.ofTm utc = some ofTm ∧
      Date.ofYearMonthDay (tmDate utc).year (tmDate utc).month (tmDate utc).day = some ofDate ∧
      DatesAgree t utc ofTm ofDate := by
  intro hall
  obtain ⟨utc, ofTm, ofDate, hutc, hofTm, hofDate, hagree⟩ := hall 0 (by norm_num) (by norm_num)
  have hepoch : (toUtcTime 0 false).bind Date.ofTm = some ⟨2466155⟩ := by decide
  rw [hutc, Option.bind_some, hofTm, Option.some.injEq] at hepoch
  have hday := hagree.day
  rw [hepoch] at hday
  norm_num at hday

end TimeZone

end Glacier
