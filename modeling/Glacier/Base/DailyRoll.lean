/-
How late the daily roll of a LogFile (base/logfile.cc) can be, when the clock never goes backwards.

The day is checked on every checkEveryN_-th append that leaves the file within its size; rollFile also runs on every
append that does not, and is refused if it reads the second of the last roll. `clock` and `late` are history: the last
reading, and for each record appended on a later UTC day than startOfPeriod_ the number of the file it was written to,
counted in the order of creation.
- `step_daily`: the late records of the current file are at most count_; for that, a file that has one gets late records
  only, and an append of one on which rollFile runs opens a new file.
- `daily_roll_delay`: no file gets more than checkEveryN_ of them.
-/
import Glacier.Base.LogFile

namespace Glacier.LogFile

open Cxx

/-- an operation, and the time at which it begins -/
structure Timed where
  time : ℤ
  op : Op

/-- the clock after the operation: its last reading -/
def Timed.clock (o : Timed) : ℤ :=
  match o.op with
  | .append _ _ _ now => now
  | .flush => o.time
  | .rollFile now => now

/-- from `clock` on the clock does not go backwards -/
def Timed.Forward (clock : ℤ) (o : Timed) : Prop :=
  clock ≤ o.time ∧
    match o.op with
    | .append _ _ check now => o.time ≤ check ∧ check ≤ now
    | .flush => True
    | .rollFile now => o.time ≤ now

instance (clock : ℤ) (o : Timed) : Decidable (o.Forward clock) := by
  unfold Timed.Forward
  cases o.op <;> infer_instance

structure Daily where
  log : St
  clock : ℤ
  late : List ℕ
deriving DecidableEq

/-- the number of the current file -/
def St.number (s : St) : ℕ := s.closed.length

/-- on a later UTC day than that of startOfPeriod_ -/
def St.Late (s : St) (time : ℤ) : Prop := s.startOfPeriod / 86400 < time / 86400

instance (s : St) (time : ℤ) : Decidable (s.Late time) := by unfold St.Late; infer_instance

/-- the late records with the one of this operation, if it appends one -/
def Daily.record (d : Daily) (o : Timed) : List ℕ :=
  match o.op with
  | .append _ _ _ _ => if d.log.Late o.time then d.late ++ [d.log.number] else d.late
  | .flush => d.late
  | .rollFile _ => d.late

namespace Daily

def init (cfg : Config) (first : ℤ) : Daily := ⟨LogFile.init cfg first, first, []⟩

/-- an operation of the log, if the clock has not gone backwards -/
def step (cfg : Config) (d : Daily) (o : Timed) : Option Daily :=
  if o.Forward d.clock then (LogFile.step cfg d.log o.op).map fun log => ⟨log, o.clock, d.record o⟩ else none

end Daily

/-! ## Appends by their counter -/

/-- how an append ends, with the counter and the day check -/
inductive Counted (cfg : Config) (s : St) (logline : Bytes) (check now : ℤ) : St → Prop where
  | full (f : AppendFile) (hf : s.file = some f) :
    Counted cfg s logline check now (rollFile cfg (grown s f logline s.count s.lastFlush) now).1
  | counted (f : AppendFile) (hf : s.file = some f) (hcount : s.count + 1 < cfg.checkEveryN) :
    Counted cfg s logline check now (grown s f logline (s.count + 1) s.lastFlush)
  | nextDay (f : AppendFile) (hf : s.file = some f) :
    Counted cfg s logline check now (rollFile cfg (grown s f logline 0 s.lastFlush) now).1
  | sameDay (f : AppendFile) (hf : s.file = some f) (lastFlush : ℤ)
    (hday : check.tdiv kRollPerSeconds * kRollPerSeconds = s.startOfPeriod) :
    Counted cfg s logline check now (grown s f logline 0 lastFlush)

theorem append_counted {cfg : Config} {s t : St} {logline : Bytes} {results : List ℕ} {check now : ℤ}
    (h : append cfg s logline results check now = some t) : Counted cfg s logline check now t := by
  unfold append at h
  simp only [Option.bind_eq_bind, Option.bind_eq_some_iff] at h
  obtain ⟨f, hf, g, hg, h⟩ := h
  rw [append_spec hg] at h
  split_ifs at h with hsize hcount hday hflush
  · cases h; exact .full f hf
  · cases h; exact .nextDay f hf
  · cases h; exact .sameDay f hf check (not_not.1 hday)
  · cases h; exact .sameDay f hf s.lastFlush (not_not.1 hday)
  · cases h; exact .counted f hf (not_le.1 hcount)

/-! ## The invariant -/

/-- what holds of the history whatever the counter -/
structure History (cfg : Config) (s : St) (late : List ℕ) : Prop where
  count : 0 ≤ s.count ∧ s.count < cfg.checkEveryN
  lastRoll : 0 ≤ s.lastRoll
  period : s.startOfPeriod = s.lastRoll / 86400 * 86400
  past : ∀ n ∈ late, n ≤ s.number
  bound : ∀ n, (late.count n : ℤ) ≤ cfg.checkEveryN
  /-- a log without a file has got no record -/
  file : s.file = none → late = []

structure DailyInv (cfg : Config) (d : Daily) : Prop where
  history : History cfg d.log d.late
  /-- once the current file has got a late record, every record is late -/
  clock : d.log.number ∈ d.late → d.log.Late d.clock
  current : (d.late.count d.log.number : ℤ) ≤ d.log.count

variable {cfg : Config}

theorem History.late_iff {s : St} {late : List ℕ} (h : History cfg s late) (time : ℤ) :
    s.Late time ↔ s.lastRoll / 86400 < time / 86400 := by
  rw [St.Late, h.period]
  omega

/-- a later day is a later second -/
theorem History.lastRoll_lt {s : St} {late : List ℕ} (h : History cfg s late) {time : ℤ} (hlate : s.Late time) :
    s.lastRoll < time := by
  rw [h.late_iff] at hlate
  omega

theorem St.Late.mono {s : St} {a b : ℤ} (h : s.Late a) (hab : a ≤ b) : s.Late b := by
  unfold St.Late at h ⊢
  omega

theorem count_eq_zero_of_past {s : St} {late : List ℕ} (h : ∀ n ∈ late, n ≤ s.number) {n : ℕ} (hn : s.number < n) :
    late.count n = 0 :=
  List.count_eq_zero_of_not_mem fun hmem => absurd (h n hmem) (by omega)

/-- a roll in a later second opens a file, which has got no record -/
theorem rolled_daily {s : St} {late : List ℕ} {now : ℤ} (h : History cfg s late) (hnow : s.lastRoll < now) :
    DailyInv cfg ⟨(rollFile cfg s now).1, now, late⟩ := by
  have hpos : 0 ≤ now := by
    have := h.lastRoll
    omega
  have hroll : (rollFile cfg s now).1 = { s with
      lastRoll := now
      lastFlush := now
      startOfPeriod := now / 86400 * 86400
      file := some ⟨getLogFileName cfg now, [], 0, now, []⟩
      closed := s.closed ++ s.file.toList } := by
    simp only [rollFile, if_pos hnow, kRollPerSeconds, Int.tdiv_eq_ediv_of_nonneg hpos]
  have hnew : late.count (s.closed ++ s.file.toList).length = 0 := by
    cases hf : s.file with
    | none => rw [h.file hf, List.count_nil]
    | some f =>
      refine count_eq_zero_of_past h.past ?_
      simp [St.number]
  rw [hroll]
  refine ⟨⟨h.count, hpos, rfl, ?_, h.bound, fun hnone => by cases hnone⟩, ?_, ?_⟩
  · intro n hn
    have := h.past n hn
    simp only [St.number, List.length_append] at this ⊢
    omega
  · intro hmem
    exact absurd hmem (List.count_eq_zero.1 hnew)
  · change (late.count (s.closed ++ s.file.toList).length : ℤ) ≤ s.count
    rw [hnew]
    exact h.count.1

/-- time passes -/
theorem DailyInv.later {d : Daily} (h : DailyInv cfg d) {clock : ℤ} (hclock : d.clock ≤ clock) :
    DailyInv cfg ⟨d.log, clock, d.late⟩ :=
  ⟨h.history, fun hmem => (h.clock hmem).mono hclock, h.current⟩

theorem rollFile_daily {d : Daily} {now : ℤ} (h : DailyInv cfg d) (hclock : d.clock ≤ now) :
    DailyInv cfg ⟨(rollFile cfg d.log now).1, now, d.late⟩ := by
  by_cases hnow : d.log.lastRoll < now
  · exact rolled_daily h.history hnow
  · have hrefused : (rollFile cfg d.log now).1 = d.log := by
      simp only [rollFile, if_neg hnow]
    rw [hrefused]
    exact h.later hclock

theorem init_daily (h : 1 ≤ cfg.checkEveryN) (first : ℤ) : DailyInv cfg (Daily.init cfg first) := by
  have hempty : History cfg ⟨0, 0, 0, 0, none, [], []⟩ [] :=
    ⟨⟨le_rfl, by simp only; omega⟩, le_rfl, rfl, by simp, by simp; omega, fun _ => rfl⟩
  have hstart : DailyInv cfg ⟨⟨0, 0, 0, 0, none, [], []⟩, min 0 first, []⟩ := ⟨hempty, by simp, le_rfl⟩
  exact rollFile_daily hstart (min_le_right _ _)

/-- the record in the current file, whatever the new counter -/
theorem History.grown {s : St} {late : List ℕ} (h : History cfg s late) (f : AppendFile) (logline : Bytes)
    {count : ℤ} (hcount : 0 ≤ count ∧ count < cfg.checkEveryN) (lastFlush : ℤ) :
    History cfg (grown s f logline count lastFlush) late :=
  ⟨hcount, h.lastRoll, h.period, h.past, h.bound, fun hnone => by cases hnone⟩

/-- one more late record in the current file -/
theorem DailyInv.record {d : Daily} (h : DailyInv cfg d) (hfile : d.log.file ≠ none) :
    History cfg d.log (d.late ++ [d.log.number]) where
  count := h.history.count
  lastRoll := h.history.lastRoll
  period := h.history.period
  past := by
    intro n hn
    rcases List.mem_append.1 hn with hn | hn
    · exact h.history.past n hn
    · exact (List.mem_singleton.1 hn).le
  bound := by
    intro n
    rw [List.count_append, List.count_singleton]
    have hbound := h.history.bound n
    by_cases hn : d.log.number = n
    · have hcurrent := h.current
      have hcount := h.history.count
      rw [hn] at hcurrent ⊢
      simp only [beq_self_eq_true, if_true]
      omega
    · simpa [hn] using hbound
  file hnone := absurd hnone hfile

/-- A late record: an append on which rollFile runs opens a file, one on which it does not has counted the record. -/
theorem append_late {d : Daily} {logline : Bytes} {time check now : ℤ} {t : St} (h : DailyInv cfg d)
    (hlate : d.log.Late time) (hcheck : time ≤ check) (hnow : check ≤ now)
    (ht : Counted cfg d.log logline check now t) : DailyInv cfg ⟨t, now, d.late ++ [d.log.number]⟩ := by
  have hroll : d.log.lastRoll < now := h.history.lastRoll_lt (hlate.mono (hcheck.trans hnow))
  have hcount := h.history.count
  cases ht with
  | full f hf => exact rolled_daily ((h.record (by simp [hf])).grown f logline hcount _) hroll
  | nextDay f hf => exact rolled_daily ((h.record (by simp [hf])).grown f logline ⟨le_rfl, by omega⟩ _) hroll
  | counted f hf hless =>
    refine ⟨(h.record (by simp [hf])).grown f logline ⟨by omega, hless⟩ _, ?_, ?_⟩
    · exact fun _ => hlate.mono (hcheck.trans hnow)
    · have hcurrent := h.current
      change ((d.late ++ [d.log.number]).count d.log.number : ℤ) ≤ d.log.count + 1
      rw [List.count_append, List.count_singleton_self]
      omega
  | sameDay f hf lastFlush hday =>
    -- the check reads the later day
    have hpos : 0 ≤ check := by
      have := h.history.lastRoll
      have := h.history.lastRoll_lt (hlate.mono hcheck)
      omega
    have hlate := hlate.mono hcheck
    rw [kRollPerSeconds, Int.tdiv_eq_ediv_of_nonneg hpos] at hday
    unfold St.Late at hlate
    omega

/-- A record of the same day: the current file has got no late one. -/
theorem append_early {d : Daily} {logline : Bytes} {time check now : ℤ} {t : St} (h : DailyInv cfg d)
    (hearly : ¬ d.log.Late time) (hclock : d.clock ≤ time) (hnow : check ≤ now)
    (ht : Counted cfg d.log logline check now t) : DailyInv cfg ⟨t, now, d.late⟩ := by
  have hnone : d.log.number ∉ d.late := fun hmem => hearly ((h.clock hmem).mono hclock)
  have hzero : d.late.count d.log.number = 0 := List.count_eq_zero_of_not_mem hnone
  have hcount := h.history.count
  -- so any counter and any later reading will do
  have hgrown : ∀ (f : AppendFile) (count lastFlush clock : ℤ), 0 ≤ count → count < cfg.checkEveryN →
      DailyInv cfg ⟨grown d.log f logline count lastFlush, clock, d.late⟩ := by
    intro f count lastFlush clock h0 hlt
    refine ⟨h.history.grown f logline ⟨h0, hlt⟩ _, fun hmem => absurd hmem hnone, ?_⟩
    change (d.late.count d.log.number : ℤ) ≤ count
    rw [hzero]
    exact h0
  cases ht with
  | full f hf => exact rollFile_daily (hgrown f _ d.log.lastFlush check hcount.1 hcount.2) hnow
  | nextDay f hf => exact rollFile_daily (hgrown f 0 d.log.lastFlush check le_rfl (by omega)) hnow
  | counted f hf hless => exact hgrown f _ _ now (by omega) hless
  | sameDay f hf lastFlush => exact hgrown f 0 lastFlush now le_rfl (by omega)

theorem step_daily (cfg : Config) (d : Daily) (o : Timed) (e : Daily) (h : DailyInv cfg d)
    (hst : Daily.step cfg d o = some e) : DailyInv cfg e := by
  unfold Daily.step at hst
  rw [Option.ite_none_right_eq_some] at hst
  obtain ⟨⟨hclock, hforward⟩, hst⟩ := hst
  obtain ⟨log, hlog, rfl⟩ := Option.map_eq_some_iff.1 hst
  obtain ⟨time, op⟩ := o
  cases op with
  | append logline results check now =>
    have hcounted := append_counted hlog
    by_cases hlate : d.log.Late time
    · have hrecord : d.record ⟨time, .append logline results check now⟩ = d.late ++ [d.log.number] := if_pos hlate
      rw [hrecord]
      exact append_late h hlate hforward.1 hforward.2 hcounted
    · have hrecord : d.record ⟨time, .append logline results check now⟩ = d.late := if_neg hlate
      rw [hrecord]
      exact append_early h hlate hclock hforward.2 hcounted
  | flush =>
    simp only [LogFile.step, Option.map_eq_some_iff] at hlog
    obtain ⟨f, -, rfl⟩ := hlog
    exact h.later hclock
  | rollFile now =>
    cases hlog
    exact rollFile_daily h (hclock.trans hforward)

/-- **The daily roll is at most checkEveryN_ records late.** In every run in which the clock does not go backwards, each
file has got at most checkEveryN_ records on days later than that of startOfPeriod_ before the next one is opened. -/
theorem daily_roll_delay (cfg : Config) (h : 1 ≤ cfg.checkEveryN) (first : ℤ) (ops : List Timed) (d : Daily)
    (hrun : Machine.run (Daily.step cfg) (Daily.init cfg first) ops = some d) (n : ℕ) :
    (d.late.count n : ℤ) ≤ cfg.checkEveryN :=
  (Machine.run_inv (step_daily cfg) (init_daily h first) hrun).history.bound n

/-- two records to a check: the second record is the first of a later day, and the last that goes to the first file -/
def everyTwo : Config := ⟨ascii "log", 100, 3, 2, ascii "host", 7⟩

def acrossMidnight : List Timed :=
  [⟨86399, .append (ascii "a") [1] 86399 86399⟩, ⟨86400, .append (ascii "b") [1] 86400 86401⟩,
  ⟨86402, .append (ascii "c") [1] 86402 86402⟩]

theorem daily_roll_delay_midnight : ∃ d, Machine.run (Daily.step everyTwo) (Daily.init everyTwo 86390) acrossMidnight =
    some d ∧ d.late = [0] ∧ (d.late.count 0 : ℤ) ≤ 2 := by
  have hrun : (Machine.run (Daily.step everyTwo) (Daily.init everyTwo 86390) acrossMidnight).map Daily.late =
      some [0] := by decide +kernel
  obtain ⟨d, hd, hlate⟩ := Option.map_eq_some_iff.1 hrun
  exact ⟨d, hd, hlate, daily_roll_delay everyTwo (by decide) 86390 acrossMidnight d hd 0⟩

end Glacier.LogFile
