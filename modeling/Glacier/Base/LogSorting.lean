/-
A log sorted by its texts: the names of the files that one LogFile opens (base/logfile.cc), and the times of the records
that one thread writes (base/logging.cc). Texts are compared byte by byte, as `ls` and `sort` do in the C locale; the clock
is read in the years up to 9999.
- `files_sorted_by_name`: the files of a directory, sorted by name, hold all records in the order of the appends.
- `records_sorted_by_time`: without a time zone, the texts of the records are in the order of their times.
-/
import Glacier.Base.LogFile
import Glacier.Base.LogTime
import Glacier.Lib.TimeText

open Calendar Cxx

/-! ## Names of log files -/

namespace Glacier.LogFile

def nameLayout : List (Bytes × ℕ) := [(ascii ".", 4), ([], 2), ([], 2), (ascii "-", 2), ([], 2), ([], 2)]

theorem timebuf_eq {t : ℤ} (h : FourDigits t) :
    timebuf (gmtime t) = layoutText nameLayout (gmtime t).reading ++ ascii "." := by
  simp [timebuf, h.zeroPad_year, layoutText, nameLayout, Tm.reading, Tm.clock]

theorem getLogFileName_lt (cfg : Config) {a b : ℤ} (ha : FourDigits a) (hb : FourDigits b) (h : a < b) :
    getLogFileName cfg a < getLogFileName cfg b := by
  unfold getLogFileName
  rw [timebuf_eq ha, timebuf_eq hb]
  simp only [List.append_assoc]
  apply List.append_left_lt
  exact timeText_append_lt rfl ha hb h _ _

/-- the clock reading with which an operation may open a file -/
def Op.opens : Op → Option ℤ
  | .append _ _ _ now => some now
  | .flush => none
  | .rollFile now => some now

theorem rollFile_opened {cfg : Config} {s : St} {now : ℤ} {f : AppendFile} (h : f ∈ files (rollFile cfg s now).1) :
    f ∈ files s ∨ f.opened = now := by
  rcases rollFile_files cfg s now with heq | heq
  · exact Or.inl (heq ▸ h)
  · rw [heq, List.mem_append, List.mem_singleton] at h
    rcases h with hold | rfl
    · exact Or.inl hold
    · exact Or.inr rfl

theorem grown_opened {s : St} {f g : AppendFile} (hf : s.file = some f) {logline : Bytes} {count lastFlush : ℤ}
    (hg : g ∈ files (grown s f logline count lastFlush)) : ∃ f' ∈ files s, f'.opened = g.opened := by
  rcases List.mem_append.1 hg with hclosed | hcurrent
  · exact ⟨g, List.mem_append_left _ hclosed, rfl⟩
  · rw [grown, Option.toList_some, List.mem_singleton] at hcurrent
    refine ⟨f, List.mem_append_right _ (by simp [hf]), ?_⟩
    rw [hcurrent]
    rfl

/-- a file is opened with the reading of the operation -/
theorem step_opened {cfg : Config} {s t : St} {o : Op} (hst : step cfg s o = some t) {g : AppendFile} (hg : g ∈ files t) :
    (∃ f ∈ files s, f.opened = g.opened) ∨ g.opened ∈ o.opens := by
  cases o with
  | append logline results check now =>
    cases append_appended hst with
    | full f hf | day f hf =>
      rcases rollFile_opened hg with hold | hnew
      · exact Or.inl (grown_opened hf hold)
      · exact Or.inr (congrArg some hnew.symm)
    | kept f hf => exact Or.inl (grown_opened hf hg)
  | flush =>
    obtain ⟨f, -, rfl⟩ := Option.map_eq_some_iff.1 hst
    exact Or.inl ⟨g, hg, rfl⟩
  | rollFile now =>
    cases hst
    rcases rollFile_opened hg with hold | hnew
    · exact Or.inl ⟨g, hold, rfl⟩
    · exact Or.inr (congrArg some hnew.symm)

/-- the clock is before the year 10000 -/
def Op.InTime (o : Op) : Prop := ∀ now ∈ o.opens, now < 253402300800

theorem opened_inTime {cfg : Config} {first : ℤ} (h0 : 0 < first) (h : first < 253402300800) {ops : List Op}
    (hops : ∀ o ∈ ops, o.InTime) {s : St} (hs : Machine.run (step cfg) (init cfg first) ops = some s) :
    ∀ f ∈ files s, f.opened < 253402300800 := by
  refine Machine.run_inv_of_meets (I := fun s => ∀ f ∈ files s, f.opened < 253402300800) ?_ ?_
    (Machine.meets_of_forall hops) hs
  · intro s o t hbefore ho hst g hg
    rcases step_opened hst hg with ⟨f, hf, heq⟩ | hnow
    · exact heq ▸ hbefore f hf
    · exact ho _ hnow
  · intro f hf
    rw [init, rollFile, if_pos (by exact h0)] at hf
    rw [List.mem_singleton.1 hf]
    exact h

theorem names_sorted {cfg : Config} {s : St} (hinv : Inv cfg s) (hopened : ∀ f ∈ files s, f.opened < 253402300800) :
    (files s).Pairwise fun f g => f.filename < g.filename := by
  refine List.Pairwise.imp_of_mem ?_ (List.pairwise_map.1 hinv.opened)
  intro f g hf hg hlt
  obtain ⟨hnamef, hposf⟩ := hinv.names f hf
  obtain ⟨hnameg, hposg⟩ := hinv.names g hg
  rw [hnamef, hnameg]
  exact getLogFileName_lt cfg ⟨hposf.le, hopened f hf⟩ ⟨hposg.le, hopened g hg⟩ hlt

def byName (f g : AppendFile) : Bool := decide (f.filename ≤ g.filename)

/-- what is sorted already is the only sorted order of its elements -/
theorem mergeSort_byName {fs dir : List AppendFile} (hfs : fs.Pairwise fun f g => f.filename < g.filename)
    (hdir : dir.Perm fs) : dir.mergeSort byName = fs := by
  have hsorted : (dir.mergeSort byName).Pairwise fun f g => byName f g = true := by
    apply List.pairwise_mergeSort
    · intro f g k hfg hgk
      simp only [byName, decide_eq_true_eq] at hfg hgk ⊢
      exact hfg.trans hgk
    · intro f g
      simp only [byName, Bool.or_eq_true, decide_eq_true_eq]
      exact le_total _ _
  have hperm : (dir.mergeSort byName).Perm fs := (List.mergeSort_perm dir byName).trans hdir
  have hnames : (fs.map AppendFile.filename).Nodup := List.pairwise_map.2 (hfs.imp ne_of_lt)
  refine List.Perm.eq_of_pairwise ?_ hsorted (hfs.imp fun h => decide_eq_true h.le) hperm
  intro f g hf hg hfg hgf
  have heq : f.filename = g.filename := le_antisymm (of_decide_eq_true hfg) (of_decide_eq_true hgf)
  exact List.inj_on_of_nodup_map hnames (hperm.mem_iff.1 hf) hg heq

/-- **The files of a log, sorted by name, are the log.** In whatever order a directory lists the files that one LogFile has
opened in the years up to 9999, the contents in the order of the names are all records, in the order of the appends. -/
theorem files_sorted_by_name (cfg : Config) (first : ℤ) (h0 : 0 < first) (h : first < 253402300800) (ops : List Op)
    (hops : ∀ o ∈ ops, o.InTime) (s : St) (hs : Machine.run (step cfg) (init cfg first) ops = some s)
    (dir : List AppendFile) (hdir : dir.Perm (files s)) :
    ((dir.mergeSort byName).map AppendFile.content).flatten = s.records.flatten := by
  have hinv : Inv cfg s := Machine.run_inv (step_inv cfg) (init_inv cfg h0) hs
  rw [mergeSort_byName (names_sorted hinv (opened_inTime h0 h hops hs)) hdir]
  exact hinv.kept.contents

/-- three files of a day, listed from the last one to the first -/
def daily : Config := ⟨ascii "log", 2, 3, 1024, ascii "host", 7⟩

def threeFiles : List Op := [.append (ascii "abc") [3] 0 86400, .append (ascii "def") [3] 0 90000]

theorem files_sorted_by_name_reversed : ∃ s, Machine.run (step daily) (init daily 86399) threeFiles = some s ∧
    (((files s).reverse.mergeSort byName).map AppendFile.content).flatten = ascii "abcdef" := by
  have hrun : (Machine.run (step daily) (init daily 86399) threeFiles).map (fun s => s.records.flatten) =
      some (ascii "abcdef") := by decide +kernel
  obtain ⟨s, hs, hrecords⟩ := Option.map_eq_some_iff.1 hrun
  refine ⟨s, hs, ?_⟩
  rw [← hrecords]
  have hops : ∀ o ∈ threeFiles, o.InTime := by simp [threeFiles, Op.InTime, Op.opens]
  exact files_sorted_by_name daily 86399 (by norm_num) (by norm_num) threeFiles hops s hs _ (List.reverse_perm _)

end Glacier.LogFile

/-! ## Times of records -/

namespace Glacier.Logger

/-- what a record begins with -/
def Record.text (r : Record) : Bytes := r.dateTime ++ r.fraction

def dateLayout : List (Bytes × ℕ) :=
  [([], 4), (ascii "-", 2), (ascii "-", 2), (ascii " ", 2), (ascii ":", 2), (ascii ":", 2)]

theorem format_eq {t : ℤ} (h : FourDigits t) : format (gmtime t) = layoutText dateLayout (gmtime t).reading := by
  simp [format, h.spacePad_year, layoutText, dateLayout, Tm.reading, Tm.clock]

/-- the text for a time when no zone is installed -/
def utcText (us : ℤ) : Bytes :=
  layoutText dateLayout (gmtime (us.tdiv kMicroSecondsPerSecond)).reading ++
    ((ascii ":" ++ zeroPad 6 (us.tmod kMicroSecondsPerSecond)) ++ ascii "Z ")

/-- from the second after the epoch to the end of the year 9999 -/
def InTime (us : ℤ) : Prop := 1000000 ≤ us ∧ us < 253402300800000000

theorem InTime.parts {us : ℤ} (h : InTime us) : 0 < us.tdiv kMicroSecondsPerSecond ∧
    FourDigits (us.tdiv kMicroSecondsPerSecond) ∧ FitsWidth 6 (us.tmod kMicroSecondsPerSecond) := by
  obtain ⟨h0, h⟩ := h
  have hpos : 0 ≤ us := (by norm_num : (0 : ℤ) ≤ 1000000).trans h0
  rw [Int.tdiv_eq_ediv_of_nonneg hpos, Int.tmod_eq_emod_of_nonneg hpos]
  unfold kMicroSecondsPerSecond FourDigits FitsWidth
  norm_num
  omega

theorem utcText_lt {a b : ℤ} (ha : InTime a) (hb : InTime b) (h : a < b) : utcText a < utcText b := by
  obtain ⟨-, hsa, hua⟩ := ha.parts
  obtain ⟨-, hsb, hub⟩ := hb.parts
  have hparts : a.tdiv kMicroSecondsPerSecond < b.tdiv kMicroSecondsPerSecond ∨
      (a.tdiv kMicroSecondsPerSecond = b.tdiv kMicroSecondsPerSecond ∧
        a.tmod kMicroSecondsPerSecond < b.tmod kMicroSecondsPerSecond) := by
    have hea := Int.mul_tdiv_add_tmod a kMicroSecondsPerSecond
    have heb := Int.mul_tdiv_add_tmod b kMicroSecondsPerSecond
    unfold FitsWidth at hua hub
    unfold kMicroSecondsPerSecond at *
    norm_num at hua hub
    omega
  unfold utcText
  rcases hparts with hsecond | ⟨hsecond, hus⟩
  · exact timeText_append_lt rfl hsa hsb hsecond _ _
  · rw [hsecond]
    apply List.append_left_lt
    refine append_lt_append ?_ (List.append_left_lt ((zeroPad_lt_iff hua hub).2 hus)) _ _
    rw [List.length_append, List.length_append, hua.length, hub.length]

theorem utcText_lt_iff {a b : ℤ} (ha : InTime a) (hb : InTime b) : utcText a < utcText b ↔ a < b := by
  refine ⟨fun h => ?_, utcText_lt ha hb⟩
  rcases lt_trichotomy a b with hlt | rfl | hgt
  · exact hlt
  · exact absurd h (lt_irrefl _)
  · exact absurd (utcText_lt hb ha hgt) (not_lt.2 h.le)

/-- no zone is installed, and the text kept is that of the last second -/
structure Utc (s : St) : Prop where
  zone : s.gLogTimeZone = none
  kept : s.tLastsecond = 0 ∨ s.tTime = format (gmtime s.tLastsecond)

/-- whether it is rendered now or kept, the text is that of the second -/
theorem refresh_utc {s : St} {seconds : ℤ} (h : Utc s) (hpos : 0 < seconds) :
    ∃ t, refresh s seconds = .ok t ∧ t.gLogTimeZone = none ∧ t.records = s.records ∧ t.tLastsecond = seconds ∧
      t.tTime = format (gmtime seconds) := by
  unfold refresh
  by_cases hsame : seconds = s.tLastsecond
  · refine ⟨s, by simp [hsame], h.zone, rfl, hsame.symm, ?_⟩
    rcases h.kept with hzero | hkept
    · omega
    · rw [hkept, hsame]
  · refine ⟨{ s with tLastsecond := seconds, tTime := format (gmtime seconds), renderedIn := some none }, ?_, h.zone, rfl,
      rfl, rfl⟩
    rw [if_pos hsame, h.zone]
    rfl

theorem step_utc {s : St} {us : ℤ} (h : Utc s) (hus : InTime us) :
    ∃ t, step s (.log us) = some t ∧ Utc t ∧ t.records.map Record.text = s.records.map Record.text ++ [utcText us] := by
  obtain ⟨hpos, hsecond, hfits⟩ := hus.parts
  obtain ⟨t, ht, hzone, hrecords, hlast, htime⟩ := refresh_utc h hpos
  have hmicro : toInt (us.tmod kMicroSecondsPerSecond) = us.tmod kMicroSecondsPerSecond := by
    have := hfits.2
    exact toInt_of_mem (by omega) (by norm_num at this ⊢; omega)
  have hlen : (format (gmtime (us.tdiv kMicroSecondsPerSecond))).length = 19 := by
    rw [format_eq hsecond]
    exact length_timeText rfl hsecond
  have hfraction : fraction none (us.tmod kMicroSecondsPerSecond) =
      ascii ":" ++ zeroPad 6 (us.tmod kMicroSecondsPerSecond) ++ ascii "Z " := by
    apply List.take_of_length_le
    rw [List.length_append, List.length_append, hfits.length]
    rfl
  let r : Record := ⟨us.tdiv kMicroSecondsPerSecond, t.gLogTimeZone, t.tTime.take 19,
    fraction t.gLogTimeZone (toInt (us.tmod kMicroSecondsPerSecond))⟩
  have hst : step s (.log us) = some { t with records := t.records ++ [r] } := by
    rw [step, formatTime, ht]
    rfl
  refine ⟨_, hst, ⟨hzone, Or.inr ?_⟩, ?_⟩
  · show t.tTime = format (gmtime t.tLastsecond)
    rw [htime, hlast]
  · rw [List.map_append, hrecords, List.map_singleton]
    have hr : r.text = utcText us := by
      simp only [Record.text, r]
      rw [hzone, htime, hmicro, hfraction, List.take_of_length_le hlen.le, format_eq hsecond, utcText]
    rw [hr]

theorem run_utc {s : St} (h : Utc s) {times : List ℤ} (htimes : ∀ us ∈ times, InTime us) :
    ∃ t, Machine.run step s (times.map .log) = some t ∧
      t.records.map Record.text = s.records.map Record.text ++ times.map utcText := by
  induction times generalizing s with
  | nil => exact ⟨s, rfl, (List.append_nil _).symm⟩
  | cons us times ih =>
    obtain ⟨t, hst, ht, htext⟩ := step_utc h (htimes us List.mem_cons_self)
    obtain ⟨u, hu, hrest⟩ := ih ht fun us' hus' => htimes us' (List.mem_cons_of_mem us hus')
    refine ⟨u, Machine.run_cons.2 ⟨t, hst, hu⟩, ?_⟩
    rw [hrest, htext, List.map_cons, List.append_assoc]
    rfl

theorem init_utc : Utc init := ⟨rfl, Or.inl rfl⟩

/-- **Records are sorted by time exactly when their texts are sorted.** Without a time zone every statement after the first
second of the epoch is logged, and of any two records the one with the smaller text has the earlier time. -/
theorem records_sorted_by_time (times : List ℤ) (h : ∀ us ∈ times, InTime us) :
    ∃ s, Machine.run step init (times.map .log) = some s ∧
      ((s.records.map Record.text).Pairwise (· < ·) ↔ times.Pairwise (· < ·)) ∧
      ((s.records.map Record.text).Pairwise (· ≤ ·) ↔ times.Pairwise (· ≤ ·)) := by
  obtain ⟨s, hs, htext⟩ := run_utc init_utc h
  rw [show init.records = [] from rfl, List.map_nil, List.nil_append] at htext
  refine ⟨s, hs, ?_, ?_⟩
  · rw [htext, List.pairwise_map]
    exact List.Pairwise.iff_of_mem fun ha hb => utcText_lt_iff (h _ ha) (h _ hb)
  · rw [htext, List.pairwise_map]
    refine List.Pairwise.iff_of_mem fun {a b} ha hb => ?_
    rw [← not_lt, utcText_lt_iff (h b hb) (h a ha), not_lt]

theorem records_sorted_by_time_three : ∃ s, Machine.run step init ([1500000, 1500001, 2000000].map .log) = some s ∧
    (s.records.map Record.text).Pairwise (· < ·) := by
  obtain ⟨s, hs, hlt, -⟩ := records_sorted_by_time [1500000, 1500001, 2000000] (by simp [InTime])
  exact ⟨s, hs, hlt.2 (by simp)⟩

end Glacier.Logger
