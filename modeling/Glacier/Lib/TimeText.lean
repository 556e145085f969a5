/-
Broken-down times in texts: the year first, then the month to the second in two digits each, with any separators.
- `clock_fits`, `reading_fits`: the fields hold their numbers, the year from the epoch to the end of the year 9999.
- `timeText_lt_iff`: the texts of such times are in the order of time.
-/
import Glacier.Lib.Gregorian
import Glacier.Lib.TextOrder

namespace Calendar

open Cxx

/-- the seconds from the epoch to the end of the year 9999 -/
def FourDigits (t : ℤ) : Prop := 0 ≤ t ∧ t < 253402300800

instance (t : ℤ) : Decidable (FourDigits t) := by unfold FourDigits; infer_instance

theorem FourDigits.year {t : ℤ} (h : FourDigits t) :
    1970 ≤ (gmtime t).tmYear + 1900 ∧ (gmtime t).tmYear + 1900 < 10000 := by
  obtain ⟨h0, h⟩ := h
  have hfirst : toDays ⟨1970, 1, 1⟩ = 0 := by decide
  have hlast : toDays ⟨10000, 1, 1⟩ = 2932897 := by decide
  exact year_gmtime_mem (by omega) (by omega)

theorem clock_fits (t : ℤ) : Fits [2, 2, 2, 2, 2] (gmtime t).clock := by
  obtain ⟨hmon, hmday, hhour, hmin, hsec⟩ := gmtime_mem t
  have htwo {n : ℤ} (h : 0 ≤ n ∧ n < 100) : FitsWidth 2 n := ⟨by decide, h.1, by simpa using h.2⟩
  exact .cons (htwo hmon) (.cons (htwo hmday) (.cons (htwo hhour) (.cons (htwo hmin) (.cons (htwo hsec) .nil))))

theorem reading_fits {t : ℤ} (h : FourDigits t) : Fits [4, 2, 2, 2, 2, 2] (gmtime t).reading := by
  obtain ⟨hlow, hhigh⟩ := h.year
  exact .cons ⟨by decide, by omega, hhigh⟩ (clock_fits t)

/-- a year of four digits is not filled up -/
theorem FourDigits.spacePad_year {t : ℤ} (h : FourDigits t) :
    spacePad 4 ((gmtime t).tmYear + 1900) = zeroPad 4 ((gmtime t).tmYear + 1900) := by
  obtain ⟨hlow, -⟩ := h.year
  rw [spacePad, zeroPad, if_neg (by omega), if_neg (by omega), pad_of_filled (by omega), pad_of_filled (by omega)]

theorem FourDigits.zeroPad_year {t : ℤ} (h : FourDigits t) :
    zeroPad 0 ((gmtime t).tmYear + 1900) = zeroPad 4 ((gmtime t).tmYear + 1900) := by
  obtain ⟨hlow, -⟩ := h.year
  rw [zeroPad, zeroPad, if_neg (by omega), if_neg (by omega), pad_of_filled (by omega), pad, Nat.zero_sub]
  rfl

section Texts

variable {layout : List (Bytes × ℕ)} (hwidths : layout.map Prod.snd = [4, 2, 2, 2, 2, 2])
include hwidths

theorem length_timeText {t : ℤ} (h : FourDigits t) :
    (layoutText layout (gmtime t).reading).length = (layout.map fun f => f.1.length + f.2).sum :=
  layoutText_length (hwidths ▸ reading_fits h)

/-- **Texts of broken-down times are in the order of time.** -/
theorem timeText_lt_iff {a b : ℤ} (ha : FourDigits a) (hb : FourDigits b) :
    layoutText layout (gmtime a).reading < layoutText layout (gmtime b).reading ↔ a < b := by
  rw [layoutText_lt_iff (hwidths ▸ reading_fits ha) (hwidths ▸ reading_fits hb), reading_lt_iff]

/-- whatever follows them -/
theorem timeText_append_lt {a b : ℤ} (ha : FourDigits a) (hb : FourDigits b) (h : a < b) (s t : Bytes) :
    layoutText layout (gmtime a).reading ++ s < layoutText layout (gmtime b).reading ++ t := by
  refine append_lt_append ?_ ((timeText_lt_iff hwidths ha hb).2 h) s t
  rw [length_timeText hwidths ha, length_timeText hwidths hb]

end Texts

end Calendar
