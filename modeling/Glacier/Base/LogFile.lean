/-
The rolling log file (base/logfile.cc): one LogFile from its constructor on, with any clock.

An append is given the results of its fwrite_unlocked calls and the readings of time(0) for its day check and for its
rollFile; it returns when everything has been accepted. fopen is taken to succeed, the host name and the pid do not
change during a run, and a file never comes near 2^64 bytes. The clock stays where gmtime_r succeeds, that is where the year
fits in the int tm_year. `records`, `opened` and `closed` are history: what has been
appended, when a file was opened, and the files released, in the order of their creation.
- `rolling_safe`: nothing is lost, split or overwritten, for every clock whose first reading is positive.
-/
import Glacier.Lib.Gregorian
import Glacier.Lib.Machine
import Glacier.Lib.Numeral

namespace Glacier.LogFile

open Calendar Cxx

structure AppendFile where
  filename : Bytes
  /-- what the stream has accepted -/
  content : Bytes
  writtenBytes : ℕ
  opened : ℤ
  records : List Bytes
deriving DecidableEq, Repr

namespace AppendFile

def write (f : AppendFile) (logline : Bytes) (accepted : ℕ) : AppendFile :=
  { f with content := f.content ++ logline.take accepted }

/-- `while (remain > 0)`, one write for each result -/
def writeLoop (logline : Bytes) (f : AppendFile) (n remain : ℕ) : List ℕ → Option AppendFile
  | [] => if remain = 0 then some f else none
  | x :: results =>
    if remain = 0 ∨ remain < x then none
    else writeLoop logline (f.write (logline.drop n) x) (n + x) (remain - x) results

def append (f : AppendFile) (logline : Bytes) : List ℕ → Option AppendFile
  | [] => none
  | n :: results =>
    if logline.length < n then none
    else (writeLoop logline (f.write logline n) n (logline.length - n) results).map fun g =>
      { g with writtenBytes := g.writtenBytes + logline.length, records := g.records ++ [logline] }

end AppendFile

/-- what a LogFile is constructed with, and what its file names are made of -/
structure Config where
  basename : Bytes
  rollSize : ℕ
  flushInterval : ℤ
  checkEveryN : ℤ
  hostname : Bytes
  pid : ℤ

structure St where
  count : ℤ
  startOfPeriod : ℤ
  lastRoll : ℤ
  lastFlush : ℤ
  file : Option AppendFile
  closed : List AppendFile
  records : List Bytes
deriving DecidableEq, Repr

def kRollPerSeconds : ℤ := 86400

/-- `.%Y%m%d-%H%M%S.` -/
def timebuf (tm : Tm) : Bytes :=
  ascii "." ++ zeroPad 0 (tm.tmYear + 1900) ++ zeroPad 2 (tm.tmMon + 1) ++ zeroPad 2 tm.tmMday ++ ascii "-" ++
    zeroPad 2 tm.tmHour ++ zeroPad 2 tm.tmMin ++ zeroPad 2 tm.tmSec ++ ascii "."

def getLogFileName (cfg : Config) (now : ℤ) : Bytes :=
  cfg.basename ++ timebuf (gmtime now) ++ cfg.hostname ++ (ascii "." ++ zeroPad 0 cfg.pid) ++ ascii ".log"

def rollFile (cfg : Config) (s : St) (now : ℤ) : St × Bool :=
  let filename := getLogFileName cfg now
  let start := now.tdiv kRollPerSeconds * kRollPerSeconds
  if now > s.lastRoll then
    ({ s with
      lastRoll := now
      lastFlush := now
      startOfPeriod := start
      file := some ⟨filename, [], 0, now, []⟩
      closed := s.closed ++ s.file.toList }, true)
  else (s, false)

/-- the constructor, with the clock reading of its rollFile -/
def init (cfg : Config) (now : ℤ) : St := (rollFile cfg ⟨0, 0, 0, 0, none, [], []⟩ now).1

/-- `check` is the reading of the day check, `now` the one of rollFile; either is read only where the source does -/
def append (cfg : Config) (s : St) (logline : Bytes) (results : List ℕ) (check now : ℤ) : Option St := do
  let file ← s.file
  let file ← file.append logline results
  let s := { s with file := some file, records := s.records ++ [logline] }
  if file.writtenBytes > cfg.rollSize then return (rollFile cfg s now).1
  else if s.count + 1 ≥ cfg.checkEveryN then
    let s := { s with count := 0 }
    let cur := check.tdiv kRollPerSeconds * kRollPerSeconds
    if cur ≠ s.startOfPeriod then return (rollFile cfg s now).1
    else if check - s.lastFlush > cfg.flushInterval then return { s with lastFlush := check }
    else return s
  else return { s with count := s.count + 1 }

inductive Op where
  | append (logline : Bytes) (results : List ℕ) (check now : ℤ)
  | flush
  | rollFile (now : ℤ)

def step (cfg : Config) (s : St) : Op → Option St
  | .append logline results check now => append cfg s logline results check now
  | .flush => s.file.map fun _ => s
  | .rollFile now => some (rollFile cfg s now).1

/-- the files in the order of their creation -/
def files (s : St) : List AppendFile := s.closed ++ s.file.toList

/-! ## The write loop -/

theorem writeLoop_spec {logline : Bytes} {results : List ℕ} {f g : AppendFile} {n remain : ℕ}
    (hn : n + remain = logline.length) (h : f.writeLoop logline n remain results = some g) :
    g = { f with content := f.content ++ logline.drop n } := by
  induction results generalizing f n remain with
  | nil =>
    simp only [AppendFile.writeLoop, Option.ite_none_right_eq_some, Option.some.injEq] at h
    obtain ⟨h0, rfl⟩ := h
    rw [List.drop_eq_nil_of_le (by omega), List.append_nil]
  | cons x results ih =>
    simp only [AppendFile.writeLoop, Option.ite_none_left_eq_some, not_or, not_lt] at h
    obtain ⟨⟨-, hx⟩, h⟩ := h
    rw [ih (by omega) h]
    simp only [AppendFile.write, List.append_assoc]
    congr 2
    -- what this write accepts and what is left make up what was left before
    rw [← List.drop_drop, List.take_append_drop]

/-- an append that returns has written the whole record -/
theorem append_spec {f g : AppendFile} {logline : Bytes} {results : List ℕ} (h : f.append logline results = some g) :
    g = { f with
      content := f.content ++ logline
      writtenBytes := f.writtenBytes + logline.length
      records := f.records ++ [logline] } := by
  cases results with
  | nil => simp [AppendFile.append] at h
  | cons n results =>
    simp only [AppendFile.append, Option.ite_none_left_eq_some, not_lt, Option.map_eq_some_iff] at h
    obtain ⟨hn, g', hg', rfl⟩ := h
    rw [writeLoop_spec (by omega) hg']
    simp [AppendFile.write]

/-! ## File names -/

/-- the second reads back from the name: from the end, every field before the year has a known width -/
theorem timebuf_inj {a b : ℤ} (ha : 0 < a) (hb : 0 < b) (h : timebuf (gmtime a) = timebuf (gmtime b)) : a = b := by
  obtain ⟨⟨amon, amon'⟩, ⟨amday, amday'⟩, ⟨ahour, ahour'⟩, ⟨amin, amin'⟩, asec, asec'⟩ := gmtime_mem a
  obtain ⟨⟨bmon, bmon'⟩, ⟨bmday, bmday'⟩, ⟨bhour, bhour'⟩, ⟨bmin, bmin'⟩, bsec, bsec'⟩ := gmtime_mem b
  have htwo : ∀ n : ℤ, 0 ≤ n → n < 100 → (zeroPad 2 n).length = 2 :=
    fun n h0 h => length_zeroPad (by decide) h0 (by simpa using h)
  unfold timebuf at h
  have h := List.append_cancel_right h
  obtain ⟨h, hsec⟩ := List.append_inj' h (by rw [htwo _ asec asec', htwo _ bsec bsec'])
  obtain ⟨h, hmin⟩ := List.append_inj' h (by rw [htwo _ amin amin', htwo _ bmin bmin'])
  obtain ⟨h, hhour⟩ := List.append_inj' h (by rw [htwo _ ahour ahour', htwo _ bhour bhour'])
  have h := List.append_cancel_right h
  obtain ⟨h, hmday⟩ := List.append_inj' h (by rw [htwo _ amday amday', htwo _ bmday bmday'])
  obtain ⟨h, hmon⟩ := List.append_inj' h (by rw [htwo _ amon amon', htwo _ bmon bmon'])
  have hyear := List.append_cancel_left h
  have hyear := zeroPad_inj (year_gmtime_nonneg ha) (year_gmtime_nonneg hb) hyear
  have hmon := zeroPad_inj amon bmon hmon
  have hmday := zeroPad_inj amday bmday hmday
  have hhour := zeroPad_inj ahour bhour hhour
  have hmin := zeroPad_inj amin bmin hmin
  have hsec := zeroPad_inj asec bsec hsec
  calc a = timegm (gmtime a) := (timegm_gmtime a).symm
    _ = timegm (gmtime b) := by
      simp only [timegm]
      rw [hmday, hhour, hmin, hsec, add_right_cancel hmon, add_right_cancel hyear]
    _ = b := timegm_gmtime b

/-- files opened at different seconds have different names -/
theorem getLogFileName_inj (cfg : Config) {a b : ℤ} (ha : 0 < a) (hb : 0 < b)
    (h : getLogFileName cfg a = getLogFileName cfg b) : a = b := by
  unfold getLogFileName at h
  have h := List.append_cancel_right (List.append_cancel_right (List.append_cancel_right h))
  exact timebuf_inj ha hb (List.append_cancel_left h)

/-! ## The invariant -/

structure Inv (cfg : Config) (s : St) : Prop where
  file : ∃ f, s.file = some f ∧ f.writtenBytes = f.content.length ∧ f.opened = s.lastRoll
  lastRoll : 0 < s.lastRoll
  period : s.startOfPeriod = s.lastRoll / 86400 * 86400
  whole : ∀ f ∈ files s, f.content = f.records.flatten
  order : (files s).flatMap AppendFile.records = s.records
  names : ∀ f ∈ files s, f.filename = getLogFileName cfg f.opened ∧ 0 < f.opened
  /-- files are opened at later and later seconds -/
  opened : ((files s).map AppendFile.opened).Pairwise (· < ·)

/-- rollFile opens a new file, or does nothing -/
theorem rollFile_inv {cfg : Config} {s : St} (now : ℤ) (h : Inv cfg s) : Inv cfg (rollFile cfg s now).1 := by
  unfold rollFile
  simp only
  split_ifs with hnow
  · obtain ⟨f, hf, hwritten, hopened⟩ := h.file
    have hpos : 0 < now := h.lastRoll.trans hnow
    have hfiles : files s = s.closed ++ [f] := by rw [files, hf]; rfl
    have hold : ∀ g ∈ files s, g.opened < now := by
      intro g hg
      have hsorted := h.opened
      rw [hfiles, List.map_append, List.pairwise_append] at hsorted
      rw [hfiles, List.mem_append, List.mem_singleton] at hg
      rcases hg with hg | rfl
      · have := hsorted.2.2 g.opened (List.mem_map_of_mem hg) f.opened (by simp)
        omega
      · omega
    refine { file := ⟨_, rfl, rfl, rfl⟩, lastRoll := hpos, period := ?_, whole := ?_, order := ?_, names := ?_,
             opened := ?_ }
    · simp only [kRollPerSeconds]
      rw [Int.tdiv_eq_ediv_of_nonneg hpos.le]
    · intro g hg
      rcases List.mem_append.1 hg with hg | hg
      · exact h.whole g hg
      · rw [List.mem_singleton.1 hg]; rfl
    · show (files s ++ [_]).flatMap AppendFile.records = s.records
      rw [List.flatMap_append, h.order]
      simp
    · intro g hg
      rcases List.mem_append.1 hg with hg | hg
      · exact h.names g hg
      · rw [List.mem_singleton.1 hg]; exact ⟨rfl, hpos⟩
    · show ((files s ++ [_]).map AppendFile.opened).Pairwise (· < ·)
      rw [List.map_append, List.pairwise_append]
      refine ⟨h.opened, List.pairwise_singleton _ _, ?_⟩
      intro x hx y hy
      obtain ⟨g, hg, rfl⟩ := List.mem_map.1 hx
      rw [List.mem_singleton.1 hy]
      exact hold g hg
  · exact h

theorem init_inv (cfg : Config) {now : ℤ} (h : 0 < now) : Inv cfg (init cfg now) := by
  have hinit : init cfg now = ⟨0, now.tdiv kRollPerSeconds * kRollPerSeconds, now, now,
      some ⟨getLogFileName cfg now, [], 0, now, []⟩, [], []⟩ := by
    simp [init, rollFile, h]
  rw [hinit]
  refine { file := ⟨_, rfl, rfl, rfl⟩, lastRoll := h, period := ?_, whole := ?_, order := rfl, names := ?_,
           opened := ?_ }
  · simp only [kRollPerSeconds]
    rw [Int.tdiv_eq_ediv_of_nonneg h.le]
  · simp [files]
  · simpa [files] using h
  · simp [files]

/-- the file after the record has been written to it -/
def AppendFile.grown (f : AppendFile) (logline : Bytes) : AppendFile :=
  { f with
    content := f.content ++ logline
    writtenBytes := f.writtenBytes + logline.length
    records := f.records ++ [logline] }

/-- the state with the record in the current file `f` -/
def grown (s : St) (f : AppendFile) (logline : Bytes) (count lastFlush : ℤ) : St :=
  { s with
    count := count
    lastFlush := lastFlush
    file := some (f.grown logline)
    records := s.records ++ [logline] }

/-- how an append ends -/
inductive Appended (cfg : Config) (s : St) (logline : Bytes) (now : ℤ) : St → Prop where
  | full (f : AppendFile) (hf : s.file = some f) (hsize : cfg.rollSize < (f.grown logline).writtenBytes) :
    Appended cfg s logline now (rollFile cfg (grown s f logline s.count s.lastFlush) now).1
  | day (f : AppendFile) (hf : s.file = some f) (hsize : (f.grown logline).writtenBytes ≤ cfg.rollSize) :
    Appended cfg s logline now (rollFile cfg (grown s f logline 0 s.lastFlush) now).1
  | kept (f : AppendFile) (hf : s.file = some f) (hsize : (f.grown logline).writtenBytes ≤ cfg.rollSize)
    (count lastFlush : ℤ) : Appended cfg s logline now (grown s f logline count lastFlush)

theorem append_appended {cfg : Config} {s t : St} {logline : Bytes} {results : List ℕ} {check now : ℤ}
    (h : append cfg s logline results check now = some t) : Appended cfg s logline now t := by
  unfold append at h
  simp only [Option.bind_eq_bind, Option.bind_eq_some_iff] at h
  obtain ⟨f, hf, g, hg, h⟩ := h
  rw [append_spec hg] at h
  split_ifs at h with hsize hcount hday hflush
  · cases h; exact .full f hf hsize
  · cases h; exact .day f hf (not_lt.1 hsize)
  · cases h; exact .kept f hf (not_lt.1 hsize) 0 check
  · cases h; exact .kept f hf (not_lt.1 hsize) 0 s.lastFlush
  · cases h; exact .kept f hf (not_lt.1 hsize) (s.count + 1) s.lastFlush

/-- the record in the current file -/
theorem grown_inv {cfg : Config} {s : St} {f : AppendFile} (h : Inv cfg s) (hf : s.file = some f) (logline : Bytes)
    (count lastFlush : ℤ) : Inv cfg (grown s f logline count lastFlush) := by
  obtain ⟨f', hf', hwritten, hopened⟩ := h.file
  rw [hf] at hf'
  cases hf'
  have hfiles : files s = s.closed ++ [f] := by rw [files, hf]; rfl
  have hwhole := h.whole
  have horder := h.order
  have hnames := h.names
  have hsorted := h.opened
  rw [hfiles] at hwhole horder hnames hsorted
  refine { file := ⟨_, rfl, ?_, hopened⟩, lastRoll := h.lastRoll, period := h.period, whole := ?_, order := ?_,
           names := ?_, opened := ?_ }
  · simp [AppendFile.grown, hwritten]
  · intro g hg
    rcases List.mem_append.1 hg with hg | hg
    · exact hwhole g (List.mem_append_left _ hg)
    · rw [List.mem_singleton.1 hg]
      simp [AppendFile.grown, hwhole f (by simp)]
  · show (s.closed ++ [f.grown logline]).flatMap AppendFile.records = s.records ++ [logline]
    rw [← horder]
    simp [AppendFile.grown]
  · intro g hg
    rcases List.mem_append.1 hg with hg | hg
    · exact hnames g (List.mem_append_left _ hg)
    · rw [List.mem_singleton.1 hg]
      exact hnames f (by simp)
  · simpa [files, grown, AppendFile.grown] using hsorted

theorem step_inv (cfg : Config) (s : St) (o : Op) (t : St) (h : Inv cfg s) (hst : step cfg s o = some t) :
    Inv cfg t := by
  cases o with
  | append logline results check now =>
    cases append_appended hst with
    | full f hf | day f hf => exact rollFile_inv now (grown_inv h hf _ _ _)
    | kept f hf hsize count lastFlush => exact grown_inv h hf _ _ _
  | flush =>
    simp only [step, Option.map_eq_some_iff] at hst
    obtain ⟨f, -, rfl⟩ := hst
    exact h
  | rollFile now =>
    cases hst
    exact rollFile_inv now h

/-! ## Runs -/

/-- what the log has to be in every state -/
structure Kept (s : St) : Prop where
  /-- file_ is not null -/
  file : s.file ≠ none
  /-- a file holds whole records only, and the files in the order of their creation hold all of them in order -/
  whole : ∀ f ∈ files s, f.content = f.records.flatten
  order : (files s).flatMap AppendFile.records = s.records
  contents : ((files s).map AppendFile.content).flatten = s.records.flatten
  names : ((files s).map AppendFile.filename).Nodup
  period : s.startOfPeriod = s.lastRoll / 86400 * 86400

/-- the record is added to the file that was current before, and at most an empty file is opened after it -/
def WrittenTo (s t : St) (logline : Bytes) : Prop :=
  ∃ f g, s.file = some f ∧ g.filename = f.filename ∧ g.content = f.content ++ logline ∧
    (files t = s.closed ++ [g] ∨ ∃ new, files t = s.closed ++ [g, new] ∧ new.content = [])

theorem Inv.kept {cfg : Config} {s : St} (h : Inv cfg s) : Kept s := by
  refine { file := ?_, whole := h.whole, order := h.order, contents := ?_, names := ?_, period := h.period }
  · obtain ⟨f, hf, -⟩ := h.file
    simp [hf]
  · rw [← h.order, List.flatMap_def, List.flatten_flatten, List.map_map]
    congr 1
    exact List.map_congr_left fun f hf => h.whole f hf
  · have hnames : (files s).map AppendFile.filename =
        ((files s).map AppendFile.opened).map (getLogFileName cfg) := by
      rw [List.map_map]
      exact List.map_congr_left fun f hf => (h.names f hf).1
    rw [hnames, List.Nodup, List.pairwise_map]
    have hpos : ∀ x ∈ (files s).map AppendFile.opened, 0 < x := by
      intro x hx
      obtain ⟨f, hf, rfl⟩ := List.mem_map.1 hx
      exact (h.names f hf).2
    refine List.Pairwise.imp_of_mem ?_ h.opened
    intro a b ha hb hlt heq
    exact hlt.ne (getLogFileName_inj cfg (hpos a ha) (hpos b hb) heq)

theorem rollFile_files (cfg : Config) (s : St) (now : ℤ) :
    files (rollFile cfg s now).1 = files s ∨
      files (rollFile cfg s now).1 = files s ++ [⟨getLogFileName cfg now, [], 0, now, []⟩] := by
  unfold rollFile
  simp only
  split_ifs
  · exact Or.inr rfl
  · exact Or.inl rfl

theorem appended_writtenTo {cfg : Config} {s t : St} {logline : Bytes} {now : ℤ} (h : Appended cfg s logline now t) :
    WrittenTo s t logline := by
  have hroll : ∀ f count, s.file = some f →
      WrittenTo s (rollFile cfg (grown s f logline count s.lastFlush) now).1 logline := by
    intro f count hf
    refine ⟨f, f.grown logline, hf, rfl, rfl, ?_⟩
    rcases rollFile_files cfg (grown s f logline count s.lastFlush) now with heq | heq
    · exact Or.inl heq
    · exact Or.inr ⟨⟨getLogFileName cfg now, [], 0, now, []⟩, by rw [heq]; simp [files, grown], rfl⟩
  cases h with
  | full f hf => exact hroll f s.count hf
  | day f hf => exact hroll f 0 hf
  | kept f hf => exact ⟨f, f.grown logline, hf, rfl, rfl, Or.inl rfl⟩

/-- a file over the roll size is one that rollFile would not leave -/
theorem appended_size {cfg : Config} {s t : St} {logline : Bytes} {now : ℤ} (h : Appended cfg s logline now t)
    (ht : Inv cfg t) {f : AppendFile} (hf : t.file = some f) (hsize : cfg.rollSize < f.content.length) :
    now ≤ t.lastRoll := by
  obtain ⟨f', hf', hwritten, -⟩ := ht.file
  rw [hf] at hf'
  cases hf'
  have hroll : ∀ x : St, now ≤ (rollFile cfg x now).1.lastRoll := by
    intro x
    unfold rollFile
    simp only
    split_ifs with hnow
    · exact le_rfl
    · exact not_lt.1 hnow
  cases h with
  | full f' | day f' => exact hroll _
  | kept f' hf' hle count lastFlush =>
    simp only [grown, Option.some.injEq] at hf
    subst hf
    omega

/-- **Log rolling loses and overwrites nothing.** After any run from a constructor whose clock reading was positive,
with any clock from then on: file_ is not null, the files hold all records, whole and in order, under distinct names,
and the period is the day of the last roll. And the next append writes its record to the file that was current, and
leaves a current file over the roll size only if rollFile's reading was not later than the last roll. -/
theorem rolling_safe (cfg : Config) (first : ℤ) (h : 0 < first) (ops : List Op) (s : St)
    (hs : Machine.run (step cfg) (init cfg first) ops = some s) :
    Kept s ∧ ∀ logline results check now t, step cfg s (.append logline results check now) = some t →
      WrittenTo s t logline ∧ ∀ f, t.file = some f → cfg.rollSize < f.content.length → now ≤ t.lastRoll := by
  have hinv : Inv cfg s := Machine.run_inv (step_inv cfg) (init_inv cfg h) hs
  refine ⟨hinv.kept, ?_⟩
  intro logline results check now t ht
  have happended := append_appended ht
  refine ⟨appended_writtenTo happended, ?_⟩
  intro f hf hsize
  exact appended_size happended (step_inv cfg s _ t hinv ht) hf hsize

/-- a log of at most four bytes a file, and two records of three bytes; the second write comes in two pieces -/
def small : Config := ⟨ascii "log", 4, 3, 1024, ascii "host", 7⟩

def twoRecords : List Op := [.append (ascii "abc") [3] 0 0, .append (ascii "def") [1, 2] 0 90000]

theorem rolling_safe_small : ∃ s, Machine.run (step small) (init small 86399) twoRecords = some s ∧
    s.records = [ascii "abc", ascii "def"] ∧ (files s).length = 2 ∧ Kept s := by
  have hrun : (Machine.run (step small) (init small 86399) twoRecords).map
      (fun s => (s.records, (files s).length)) = some ([ascii "abc", ascii "def"], 2) := by decide +kernel
  obtain ⟨s, hs, htup⟩ := Option.map_eq_some_iff.1 hrun
  simp only [Prod.mk.injEq] at htup
  exact ⟨s, hs, htup.1, htup.2, (rolling_safe small 86399 (by norm_num) twoRecords s hs).1⟩

end Glacier.LogFile
