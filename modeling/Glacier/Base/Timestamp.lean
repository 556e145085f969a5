/-
The time stamps (base/timestamp.cc): microseconds since the epoch, and the two texts of one. Both are printed into a
buffer with snprintf, which cuts what does not fit.
- `text_of_time`: no two stamps have the same text, and the formatted texts of the years up to 9999 are in the order of time.
-/
import Glacier.Lib.TimeText

namespace Glacier

open Calendar Cxx

@[ext]
structure Timestamp where
  microSecondsSinceEpoch : Int64
deriving DecidableEq, Repr

namespace Timestamp

def kMicroSecondsPerSecond : ℤ := 1000 * 1000

def secondsSinceEpoch (t : Timestamp) : ℤ := t.microSecondsSinceEpoch.toInt.tdiv kMicroSecondsPerSecond

/-- `%ld.%06ld`, in all of the buffer but its last two bytes -/
def toString (t : Timestamp) : Bytes :=
  let seconds := t.microSecondsSinceEpoch.toInt.tdiv kMicroSecondsPerSecond
  let microseconds := t.microSecondsSinceEpoch.toInt.tmod kMicroSecondsPerSecond
  (numeral seconds ++ ascii "." ++ zeroPad 6 microseconds).take 30

/-- `%4d%02d%02d %02d:%02d:%02d`, and `.%06d` if the microseconds are shown -/
def toFormattedString (t : Timestamp) (showMicroseconds : Bool) : Bytes :=
  let seconds := t.microSecondsSinceEpoch.toInt.tdiv kMicroSecondsPerSecond
  let tm := gmtime seconds
  let text := spacePad 4 (tm.tmYear + 1900) ++ zeroPad 2 (tm.tmMon + 1) ++ zeroPad 2 tm.tmMday ++ ascii " " ++
    zeroPad 2 tm.tmHour ++ ascii ":" ++ zeroPad 2 tm.tmMin ++ ascii ":" ++ zeroPad 2 tm.tmSec
  if showMicroseconds then
    let microseconds := t.microSecondsSinceEpoch.toInt.tmod kMicroSecondsPerSecond
    (text ++ ascii "." ++ zeroPad 6 microseconds).take 63
  else text.take 63

/-! ## The parts of a stamp -/

/-- the microseconds behind the full second; those before the epoch are negative -/
def microseconds (t : Timestamp) : ℤ := t.microSecondsSinceEpoch.toInt.tmod kMicroSecondsPerSecond

theorem parts (t : Timestamp) : 1000000 * t.secondsSinceEpoch + t.microseconds = t.microSecondsSinceEpoch.toInt :=
  Int.mul_tdiv_add_tmod _ _

theorem eq_of_parts {a b : Timestamp} (hs : a.secondsSinceEpoch = b.secondsSinceEpoch)
    (hu : a.microseconds = b.microseconds) : a = b := by
  have hparts : a.microSecondsSinceEpoch.toInt = b.microSecondsSinceEpoch.toInt := by rw [← parts, ← parts, hs, hu]
  ext
  exact Int64.toInt_inj.1 hparts

theorem natAbs_microseconds (t : Timestamp) : t.microseconds.natAbs < 10 ^ 6 := by
  rw [microseconds, Int.natAbs_tmod]
  exact Nat.mod_lt _ (by decide)

theorem secondsSinceEpoch_mem (t : Timestamp) : -10 ^ 13 < t.secondsSinceEpoch ∧ t.secondsSinceEpoch < 10 ^ 13 := by
  have hlow := Int64.le_toInt t.microSecondsSinceEpoch
  have hhigh := Int64.toInt_lt t.microSecondsSinceEpoch
  have hparts := parts t
  have hus := natAbs_microseconds t
  norm_num at hlow hhigh hus ⊢
  omega

theorem year_mem (t : Timestamp) : -999999 ≤ (gmtime t.secondsSinceEpoch).tmYear + 1900 ∧
    (gmtime t.secondsSinceEpoch).tmYear + 1900 < 1000000 := by
  obtain ⟨hlow, hhigh⟩ := secondsSinceEpoch_mem t
  have hfirst : toDays ⟨-999999, 1, 1⟩ = -365961662 := by decide
  have hlast : toDays ⟨1000000, 1, 1⟩ = 364522972 := by decide
  exact year_gmtime_mem (by omega) (by omega)

/-! ## The text of a second -/

def clockLayout : List (Bytes × ℕ) := [([], 2), ([], 2), (ascii " ", 2), (ascii ":", 2), (ascii ":", 2)]

def secondText (tm : Tm) : Bytes := spacePad 4 (tm.tmYear + 1900) ++ layoutText clockLayout tm.clock

theorem clockLayout_fits (t : ℤ) : Fits (clockLayout.map Prod.snd) (gmtime t).clock := clock_fits t

theorem length_clock (t : ℤ) : (layoutText clockLayout (gmtime t).clock).length = 13 :=
  layoutText_length (clockLayout_fits t)

/-- the second reads back from its text -/
theorem secondText_inj {a b : ℤ} (h : secondText (gmtime a) = secondText (gmtime b)) : a = b := by
  obtain ⟨hyear, hclock⟩ := List.append_inj' h (by rw [length_clock, length_clock])
  have hyear := spacePad_inj hyear
  have hclock := layoutText_inj (clockLayout_fits a) (clockLayout_fits b) hclock
  exact reading_inj (congrArg₂ List.cons hyear hclock)

theorem length_secondText (t : Timestamp) : (secondText (gmtime t.secondsSinceEpoch)).length ≤ 20 := by
  obtain ⟨hlow, hhigh⟩ := year_mem t
  have hyear := length_numeral_le (n := (gmtime t.secondsSinceEpoch).tmYear + 1900) (k := 6) (by decide) (by omega)
  rw [secondText, List.length_append, length_clock, spacePad_eq, length_pad]
  omega

/-! ## The texts -/

theorem not_mem_microseconds (t : Timestamp) : 46 ∉ zeroPad 6 t.microseconds :=
  not_mem_zeroPad_of_ne (by decide) (by decide) 6 _

theorem length_microseconds (t : Timestamp) : (zeroPad 6 t.microseconds).length ≤ 7 := by
  have := length_zeroPad_le (w := 6) (by decide) (natAbs_microseconds t)
  omega

theorem toString_eq (t : Timestamp) : t.toString = numeral t.secondsSinceEpoch ++ 46 :: zeroPad 6 t.microseconds := by
  obtain ⟨hlow, hhigh⟩ := secondsSinceEpoch_mem t
  have hseconds := length_numeral_le (n := t.secondsSinceEpoch) (k := 13) (by decide) (by omega)
  have hus := length_microseconds t
  calc t.toString
      = (numeral t.secondsSinceEpoch ++ ascii "." ++ zeroPad 6 t.microseconds).take 30 := rfl
    _ = (numeral t.secondsSinceEpoch ++ 46 :: zeroPad 6 t.microseconds).take 30 := by rw [List.append_assoc]; rfl
    _ = numeral t.secondsSinceEpoch ++ 46 :: zeroPad 6 t.microseconds := by
      apply List.take_of_length_le
      rw [List.length_append, List.length_cons]
      omega

theorem toFormattedString_second (t : Timestamp) : t.toFormattedString false = secondText (gmtime t.secondsSinceEpoch) := by
  have hlen := length_secondText t
  calc t.toFormattedString false
      = (secondText (gmtime t.secondsSinceEpoch)).take 63 := by
        simp [toFormattedString, secondText, layoutText, clockLayout, Tm.clock, secondsSinceEpoch]
    _ = secondText (gmtime t.secondsSinceEpoch) := List.take_of_length_le (by omega)

theorem toFormattedString_eq (t : Timestamp) :
    t.toFormattedString true = secondText (gmtime t.secondsSinceEpoch) ++ 46 :: zeroPad 6 t.microseconds := by
  have hsecond := length_secondText t
  have hus := length_microseconds t
  calc t.toFormattedString true
      = (secondText (gmtime t.secondsSinceEpoch) ++ ascii "." ++ zeroPad 6 t.microseconds).take 63 := by
        simp [toFormattedString, secondText, layoutText, clockLayout, Tm.clock, secondsSinceEpoch, microseconds]
    _ = (secondText (gmtime t.secondsSinceEpoch) ++ 46 :: zeroPad 6 t.microseconds).take 63 := by
        rw [List.append_assoc]; rfl
    _ = secondText (gmtime t.secondsSinceEpoch) ++ 46 :: zeroPad 6 t.microseconds := by
      apply List.take_of_length_le
      rw [List.length_append, List.length_cons]
      omega

theorem length_toFormattedString (t : Timestamp) : (t.toFormattedString true).length ≤ 28 := by
  have hsecond := length_secondText t
  have hus := length_microseconds t
  rw [toFormattedString_eq, List.length_append, List.length_cons]
  omega

/-- the point divides a text into the second and the microseconds -/
theorem parts_inj {a b : Timestamp} {x y : Bytes}
    (h : x ++ 46 :: zeroPad 6 a.microseconds = y ++ 46 :: zeroPad 6 b.microseconds) :
    x = y ∧ a.microseconds = b.microseconds := by
  have hlast := congrArg (afterLast 46) h
  rw [afterLast_append (not_mem_microseconds a), afterLast_append (not_mem_microseconds b)] at hlast
  rw [hlast] at h
  exact ⟨List.append_cancel_right h, zeroPad_inj_signed hlast⟩

theorem toString_inj {a b : Timestamp} (h : a.toString = b.toString) : a = b := by
  rw [toString_eq, toString_eq] at h
  obtain ⟨hseconds, hus⟩ := parts_inj h
  exact eq_of_parts (numeral_inj hseconds) hus

theorem toFormattedString_inj {a b : Timestamp} (h : a.toFormattedString true = b.toFormattedString true) : a = b := by
  rw [toFormattedString_eq, toFormattedString_eq] at h
  obtain ⟨hsecond, hus⟩ := parts_inj h
  exact eq_of_parts (secondText_inj hsecond) hus

/-! ## The order of the texts -/

/-- from the epoch to the end of the year 9999 -/
def FourDigitYear (t : Timestamp) : Prop := 0 ≤ t.microSecondsSinceEpoch.toInt ∧ t.secondsSinceEpoch < 253402300800

theorem FourDigitYear.second {t : Timestamp} (h : t.FourDigitYear) : FourDigits t.secondsSinceEpoch :=
  ⟨Int.tdiv_nonneg h.1 (by decide), h.2⟩

theorem FourDigitYear.fits {t : Timestamp} (h : t.FourDigitYear) : FitsWidth 6 t.microseconds := by
  have hus := natAbs_microseconds t
  have hnonneg : 0 ≤ t.microseconds := Int.tmod_nonneg _ h.1
  refine ⟨by decide, hnonneg, ?_⟩
  zify at hus
  rwa [abs_of_nonneg hnonneg] at hus

def secondLayout : List (Bytes × ℕ) := ([], 4) :: clockLayout

theorem secondText_eq {s : ℤ} (h : FourDigits s) : secondText (gmtime s) = layoutText secondLayout (gmtime s).reading := by
  rw [secondText, h.spacePad_year]
  rfl

theorem secondText_lt_iff {a b : ℤ} (ha : FourDigits a) (hb : FourDigits b) :
    secondText (gmtime a) < secondText (gmtime b) ↔ a < b := by
  rw [secondText_eq ha, secondText_eq hb, timeText_lt_iff rfl ha hb]

theorem toFormattedString_lt {a b : Timestamp} (ha : a.FourDigitYear) (hb : b.FourDigitYear)
    (h : a.microSecondsSinceEpoch < b.microSecondsSinceEpoch) : a.toFormattedString true < b.toFormattedString true := by
  have hua := ha.fits
  have hub := hb.fits
  have hseconds : a.secondsSinceEpoch < b.secondsSinceEpoch ∨
      (a.secondsSinceEpoch = b.secondsSinceEpoch ∧ a.microseconds < b.microseconds) := by
    have hpa := parts a
    have hpb := parts b
    have hlt := Int64.lt_iff_toInt_lt.1 h
    unfold FitsWidth at hua hub
    norm_num at hua hub
    omega
  rw [toFormattedString_eq, toFormattedString_eq]
  rcases hseconds with hsecond | ⟨hsecond, hus⟩
  · rw [secondText_eq ha.second, secondText_eq hb.second]
    exact timeText_append_lt rfl ha.second hb.second hsecond _ _
  · rw [hsecond]
    exact List.append_left_lt (List.cons_lt_cons_iff.2 (Or.inr ⟨rfl, (zeroPad_lt_iff hua hub).2 hus⟩))

theorem toFormattedString_lt_iff {a b : Timestamp} (ha : a.FourDigitYear) (hb : b.FourDigitYear) :
    a.toFormattedString true < b.toFormattedString true ↔ a.microSecondsSinceEpoch < b.microSecondsSinceEpoch := by
  refine ⟨fun h => ?_, toFormattedString_lt ha hb⟩
  by_contra hnot
  rcases Int64.lt_or_eq_of_le (Int64.not_lt.1 hnot) with hgt | heq
  · exact absurd (toFormattedString_lt hb ha hgt) (not_lt.2 h.le)
  · rw [Timestamp.ext heq] at h
    exact absurd h (lt_irrefl _)

/-- **The texts of the time.** Every stamp, also one before the epoch, has texts of its own; and from the epoch to the end
of the year 9999 the formatted texts are in the order of time, those without the microseconds in the order of the seconds. -/
theorem text_of_time (a b : Timestamp) :
    (a.toString = b.toString ↔ a = b) ∧ (a.toFormattedString true = b.toFormattedString true ↔ a = b) ∧
      (a.FourDigitYear → b.FourDigitYear →
        (a.toFormattedString true < b.toFormattedString true ↔ a.microSecondsSinceEpoch < b.microSecondsSinceEpoch) ∧
        (a.toFormattedString false < b.toFormattedString false ↔ a.secondsSinceEpoch < b.secondsSinceEpoch)) := by
  refine ⟨⟨toString_inj, congrArg _⟩, ⟨toFormattedString_inj, fun h => h ▸ rfl⟩, ?_⟩
  intro ha hb
  refine ⟨toFormattedString_lt_iff ha hb, ?_⟩
  rw [toFormattedString_second, toFormattedString_second]
  exact secondText_lt_iff ha.second hb.second

/-- the last microsecond of a leap day and the first one after it -/
def leapDay : Timestamp := ⟨1709251199999999⟩

def firstOfMarch : Timestamp := ⟨1709251200000000⟩

theorem text_of_time_leap_day : leapDay.toFormattedString true < firstOfMarch.toFormattedString true :=
  (((text_of_time leapDay firstOfMarch).2.2 ⟨by decide, by decide⟩ ⟨by decide, by decide⟩).1).2 (by decide)

end Timestamp

end Glacier
