/-
The date and time of a log record (base/logging.cc): formatTime on one thread, and Logger::setTimeZone.

formatTime keeps the text of the last rendered second in `t_time` and renders again only when the second has changed;
the text also depends on the zone, which is read again only for the suffix. `renderedIn` and `records` are history: the
zone in which `t_time` was rendered, and what has been logged. An invalid zone is `none`.
- `timestamp_cached_iff`: all records carry their own time exactly when, at every log statement of the second that was
  rendered last, that second reads the same in the zone of the rendering and in the present one.
- `stale_after_setTimeZone`: two statements in one second with a setTimeZone between them.
-/
import Glacier.Base.TimeZone
import Glacier.Lib.Gregorian
import Glacier.Lib.Machine
import Glacier.Lib.Numeral

namespace Glacier.Logger

open Calendar Cxx TimeZone

def kMicroSecondsPerSecond : ℤ := 1000000

/-- what a record holds of its time, with the time and the zone at its statement -/
structure Record where
  seconds : ℤ
  zone : Option Data
  dateTime : Bytes
  fraction : Bytes
deriving DecidableEq

structure St where
  tTime : Bytes
  tLastsecond : ℤ
  gLogTimeZone : Option Data
  renderedIn : Option (Option Data)
  records : List Record
deriving DecidableEq

/-- the thread-local variables are zero at first, and no zone is installed -/
def init : St := ⟨List.replicate 64 0, 0, none, none, []⟩

/-- `%4d-%02d-%02d %02d:%02d:%02d` -/
def format (tm : Tm) : Bytes :=
  spacePad 4 (tm.tmYear + 1900) ++ ascii "-" ++ zeroPad 2 (tm.tmMon + 1) ++ ascii "-" ++ zeroPad 2 tm.tmMday ++
    ascii " " ++ zeroPad 2 tm.tmHour ++ ascii ":" ++ zeroPad 2 tm.tmMin ++ ascii ":" ++ zeroPad 2 tm.tmSec

/-- tm_time: the second in the installed zone, or in UTC -/
def tmTime (zone : Option Data) (seconds : ℤ) : Except Fault Tm :=
  match zone with
  | some data => toLocalTime data seconds
  | none => .ok (gmtime seconds)

/-- the text of a second -/
def render (zone : Option Data) (seconds : ℤ) : Except Fault Bytes := (tmTime zone seconds).map format

/-- the microseconds, with a `Z` when no zone is installed -/
def fraction (zone : Option Data) (microseconds : ℤ) : Bytes :=
  match zone with
  | some _ => (ascii ":" ++ zeroPad 6 microseconds ++ ascii " ").take 8
  | none => (ascii ":" ++ zeroPad 6 microseconds ++ ascii "Z ").take 9

/-- the `if`: render the second unless it is the one rendered last -/
def refresh (s : St) (seconds : ℤ) : Except Fault St :=
  if seconds ≠ s.tLastsecond then
    (render s.gLogTimeZone seconds).map fun text =>
      { s with tLastsecond := seconds, tTime := text, renderedIn := some s.gLogTimeZone }
  else .ok s

/-- Logger::Impl::formatTime; `format_length` is its assert on `len` -/
def formatTime (s : St) (microSecondsSinceEpoch : ℤ) : Except Fault St :=
  let seconds := microSecondsSinceEpoch.tdiv kMicroSecondsPerSecond
  let microseconds := toInt (microSecondsSinceEpoch.tmod kMicroSecondsPerSecond)
  (refresh s seconds).map fun s =>
    { s with
      records := s.records ++ [⟨seconds, s.gLogTimeZone, s.tTime.take 19, fraction s.gLogTimeZone microseconds⟩] }

inductive Op where
  | log (microSecondsSinceEpoch : ℤ)
  | setTimeZone (tz : Option Data)

def step (s : St) : Op → Option St
  | .log us => (formatTime s us).toOption
  | .setTimeZone tz => some { s with gLogTimeZone := tz }

/-! ## The text of a second -/

/-- a second broken down in a zone is some second in UTC, apart from what names the zone -/
theorem format_tmTime {zone : Option Data} {seconds : ℤ} {tm : Tm} (h : tmTime zone seconds = .ok tm) :
    ∃ l, format tm = format (gmtime l) := by
  cases zone with
  | none =>
    cases h
    exact ⟨seconds, rfl⟩
  | some data =>
    simp only [tmTime, toLocalTime, bind, Except.bind] at h
    cases hloc : findLocaltime data ⟨seconds, 0, 0⟩ ⟨true⟩ with
    | error e => simp [hloc] at h
    | ok loc =>
      cases hname : zoneName data.abbreviation loc.arrbIdx with
      | error e => simp [hloc, hname] at h
      | ok name =>
        simp only [hloc, hname, Except.ok.injEq] at h
        subst h
        exact ⟨seconds + loc.gmtOffset, rfl⟩

theorem render_format {zone : Option Data} {seconds : ℤ} {text : Bytes} (h : render zone seconds = .ok text) :
    ∃ l, text = format (gmtime l) := by
  unfold render at h
  cases htm : tmTime zone seconds with
  | error e => simp [htm, Except.map] at h
  | ok tm =>
    simp only [htm, Except.map, Except.ok.injEq] at h
    obtain ⟨l, hl⟩ := format_tmTime htm
    exact ⟨l, h ▸ hl⟩

/-- in the years of at most four digits the text has 19 characters -/
theorem format_length {l : ℤ} (h0 : 0 ≤ (gmtime l).tmYear + 1900) (h : (gmtime l).tmYear + 1900 < 10000) :
    (format (gmtime l)).length = 19 := by
  obtain ⟨⟨hmon, hmon'⟩, ⟨hmday, hmday'⟩, ⟨hhour, hhour'⟩, ⟨hmin, hmin'⟩, hsec, hsec'⟩ := gmtime_mem l
  have htwo : ∀ n : ℤ, 0 ≤ n → n < 100 → (zeroPad 2 n).length = 2 :=
    fun n h0 h => length_zeroPad (by decide) h0 (by simpa using h)
  have hyear := spacePad_length (w := 4) (by decide) h0 (by simpa using h)
  simp only [format, List.length_append, hyear, htwo _ hmon hmon', htwo _ hmday hmday', htwo _ hhour hhour',
    htwo _ hmin hmin', htwo _ hsec hsec']
  rfl

/-- a rendered text is not the zero-filled `t_time` -/
theorem render_ne_zero {zone : Option Data} {seconds : ℤ} {text : Bytes} (h : render zone seconds = .ok text) :
    text.take 19 ≠ (List.replicate 64 0).take 19 := by
  obtain ⟨l, rfl⟩ := render_format h
  obtain ⟨c, digits, hyear⟩ := List.exists_cons_of_ne_nil (spacePad_ne_nil (w := 4) (by decide) ((gmtime l).tmYear + 1900))
  have hc : c ≠ 0 := by
    rintro rfl
    exact not_mem_spacePad (b := 0) (by decide) 4 ((gmtime l).tmYear + 1900) (by rw [hyear]; exact List.mem_cons_self)
  intro heq
  simp [format, hyear, List.replicate_succ] at heq
  exact hc heq.1

/-! ## The cached text -/

/-- what the cache holds: the last second in the zone in which it was rendered, or the zero-filled buffer -/
structure Inv (s : St) : Prop where
  rendered : ∀ z, s.renderedIn = some z → render z s.tLastsecond = .ok s.tTime
  fresh : s.renderedIn = none → s.tTime = List.replicate 64 0

/-- the 19 characters that a record takes of the text of a second -/
def reading (zone : Option Data) (seconds : ℤ) : Except Fault Bytes := (render zone seconds).map (·.take 19)

/-- the date and time of a record are those of its time in the zone of its statement -/
def Right (r : Record) : Prop := reading r.zone r.seconds = .ok r.dateTime

/-- a statement of the second that was rendered last finds that it reads the same in the zone of the rendering and in
the installed one -/
def SameReading (s : St) : Op → Prop
  | .log us =>
    us.tdiv kMicroSecondsPerSecond = s.tLastsecond →
      ∃ z ∈ s.renderedIn, reading s.gLogTimeZone s.tLastsecond = reading z s.tLastsecond
  | .setTimeZone _ => True

instance (s : St) (o : Op) : Decidable (SameReading s o) := by
  cases o <;> unfold SameReading <;> infer_instance

theorem refresh_inv {s t : St} {seconds : ℤ} (h : Inv s) (ht : refresh s seconds = .ok t) :
    Inv t ∧ t.records = s.records ∧ t.gLogTimeZone = s.gLogTimeZone := by
  unfold refresh at ht
  split_ifs at ht with hne
  · cases hr : render s.gLogTimeZone seconds with
    | error e => simp [hr, Except.map] at ht
    | ok text =>
      simp only [hr, Except.map, Except.ok.injEq] at ht
      subst ht
      refine ⟨⟨?_, ?_⟩, rfl, rfl⟩
      · intro z hz
        cases hz
        exact hr
      · intro hz
        cases hz
  · cases ht
    exact ⟨h, rfl, rfl⟩

/-- the text of a record is right exactly when it was rendered for it, or in a zone that reads the same -/
theorem refresh_right {s t : St} {us : ℤ} (h : Inv s)
    (ht : refresh s (us.tdiv kMicroSecondsPerSecond) = .ok t) :
    reading s.gLogTimeZone (us.tdiv kMicroSecondsPerSecond) = .ok (t.tTime.take 19) ↔ SameReading s (.log us) := by
  simp only [SameReading]
  unfold refresh at ht
  split_ifs at ht with hne
  · constructor
    · intro _ heq
      exact absurd heq hne
    · intro _
      cases hr : render s.gLogTimeZone (us.tdiv kMicroSecondsPerSecond) with
      | error e => simp [hr, Except.map] at ht
      | ok text =>
        simp only [hr, Except.map, Except.ok.injEq] at ht
        simp only [reading, hr, Except.map, ← ht]
  · cases ht
    have heq := not_not.1 hne
    rw [heq]
    constructor
    · intro hright _
      cases hz : s.renderedIn with
      | none =>
        -- nothing has been rendered yet, and no text is zero-filled
        rw [h.fresh hz] at hright
        cases hr : render s.gLogTimeZone s.tLastsecond with
        | error e => simp [reading, hr, Except.map] at hright
        | ok text =>
          simp only [reading, hr, Except.map, Except.ok.injEq] at hright
          exact absurd hright (render_ne_zero hr)
      | some z =>
        refine ⟨z, rfl, ?_⟩
        rw [hright, reading, h.rendered z hz]
        rfl
    · intro hsame
      obtain ⟨z, hz, hread⟩ := hsame rfl
      rw [hread, reading, h.rendered z hz]
      rfl

theorem step_right (s : St) (o : Op) (t : St) (h : Inv s) (hst : step s o = some t) :
    Inv t ∧ ((∀ r ∈ t.records, Right r) ↔ (∀ r ∈ s.records, Right r) ∧ SameReading s o) := by
  cases o with
  | setTimeZone tz =>
    cases hst
    exact ⟨⟨h.rendered, h.fresh⟩, by simp [SameReading]⟩
  | log us =>
    cases hr : refresh s (us.tdiv kMicroSecondsPerSecond) with
    | error e => simp [step, formatTime, hr, Except.map, Except.toOption] at hst
    | ok u =>
      simp only [step, formatTime, hr, Except.map, Except.toOption, Option.some.injEq] at hst
      subst hst
      obtain ⟨hinv, hrecords, hzone⟩ := refresh_inv h hr
      refine ⟨⟨hinv.rendered, hinv.fresh⟩, ?_⟩
      rw [← refresh_right h hr]
      simp only [List.mem_append, List.mem_singleton, or_imp, forall_and, forall_eq, Right, hrecords, hzone]

/-- **The cached timestamp is the uncached one exactly when the zone keeps its reading.** Every record of a run carries
the text of its own second in the zone installed at its statement if and only if every statement of the second that
was rendered last finds that second reading the same in the zone of the rendering as in the installed one. -/
theorem timestamp_cached_iff (ops : List Op) (s : St) (hs : Machine.run step init ops = some s) :
    (∀ r ∈ s.records, Right r) ↔ Machine.Meets step SameReading init ops := by
  have hinit : Inv init := ⟨by simp [init], fun _ => rfl⟩
  rw [Machine.run_iff_meets step_right hinit hs]
  simp [init]

/-- TimeZone(8 * 3600, "CST") -/
def beijing : Data := ⟨[], [⟨28800, false, 0⟩], ascii "CST"⟩

/-- setTimeZone between two statements, with a second in between -/
def secondBetween : List Op := [.log 1500000, .setTimeZone (some beijing), .log 2500000]

theorem timestamp_cached_iff_second_between : ∃ s, Machine.run step init secondBetween = some s ∧
    s.records.map Record.dateTime = [ascii "1970-01-01 00:00:01", ascii "1970-01-01 08:00:02"] ∧
    ∀ r ∈ s.records, Right r := by
  have hrun : (Machine.run step init secondBetween).map (fun s => s.records.map Record.dateTime) =
      some [ascii "1970-01-01 00:00:01", ascii "1970-01-01 08:00:02"] := by decide +kernel
  obtain ⟨s, hs, hrecords⟩ := Option.map_eq_some_iff.1 hrun
  exact ⟨s, hs, hrecords, (timestamp_cached_iff secondBetween s hs).2 (by decide +kernel)⟩

/-- setTimeZone between two statements of one second -/
def sameSecond : List Op := [.log 1500000, .setTimeZone (some beijing), .log 1700000]

theorem stale_after_setTimeZone : ∃ s, Machine.run step init sameSecond = some s ∧
    s.records.map (fun r => (r.dateTime, r.fraction)) =
      [(ascii "1970-01-01 00:00:01", ascii ":500000Z "), (ascii "1970-01-01 00:00:01", ascii ":700000 ")] ∧
    ¬ ∀ r ∈ s.records, Right r := by
  have hrun : (Machine.run step init sameSecond).map St.records =
      some [⟨1, none, ascii "1970-01-01 00:00:01", ascii ":500000Z "⟩,
        ⟨1, some beijing, ascii "1970-01-01 00:00:01", ascii ":700000 "⟩] := by decide +kernel
  obtain ⟨s, hs, hrecords⟩ := Option.map_eq_some_iff.1 hrun
  refine ⟨s, hs, by rw [hrecords]; rfl, ?_⟩
  intro hall
  have hright := hall ⟨1, some beijing, ascii "1970-01-01 00:00:01", ascii ":700000 "⟩ (by rw [hrecords]; simp)
  have htext : reading (some beijing) 1 = .ok (ascii "1970-01-01 08:00:01") := by decide +kernel
  simp only [Right, htext, Except.ok.injEq] at hright
  exact absurd hright (by decide)

end Glacier.Logger
