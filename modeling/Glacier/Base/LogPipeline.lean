/-
The log from append() to the files: the back-end of AsyncLogging (asynclogging.cc) with the LogFile that its threadFunc
constructs (logfile.cc).

Each step of AsyncLogging comes with what the outside world makes of its calls into the LogFile: the results of fwrite, the
readings of the clock, and how much of the current file stdio has written out by the end of the step. stdio writes when it
likes, and everything on fflush and fclose; the flush behind the day check is left to it as well. An output.append that
never returns ends the run.
- `lines_whole`: whatever the threads do and the clock shows, every file is made of whole lines, in the order of the appends,
  and of overload notices; without overload the files together hold the first of the appended lines and nothing else;
- `flushed_each_iteration`: between two iterations of threadFunc everything handed over has been written out.
-/
import Glacier.Base.LogConservation
import Glacier.Base.LogFile

namespace Glacier.LogPipeline

open Cxx AsyncLogging

structure St where
  log : AsyncLogging.St
  /-- the LogFile of threadFunc, once it is constructed -/
  file : Option LogFile.St
  /-- how many bytes of the current file have been written out -/
  written : ℕ

/-- a step of AsyncLogging and its outside world -/
structure Op where
  op : AsyncLogging.Op
  results : List ℕ
  check : ℤ
  now : ℤ
  /-- what stdio has written of the current file at the end of an append -/
  written : ℕ

def init : St := ⟨AsyncLogging.init, none, 0⟩

/-- the piece that the step hands to output.append -/
def handed (s t : AsyncLogging.St) : Option Bytes := t.output[s.output.length]?

/-- what the stream of the current file has accepted -/
def current (f : LogFile.St) : Bytes := f.file.elim [] LogFile.AppendFile.content

/-- output.append -/
def append (cfg : LogFile.Config) (p : St) (log : AsyncLogging.St) (data : Bytes) (o : Op) : Option St :=
  p.file.bind fun f => (LogFile.append cfg f data o.results o.check o.now).bind fun f' =>
    if o.written ≤ (current f').length ∧ (f'.lastRoll = f.lastRoll → p.written ≤ o.written) then
      some ⟨log, some f', o.written⟩
    else none

/-- output.flush -/
def flush (p : St) (log : AsyncLogging.St) : Option St :=
  p.file.map fun f => ⟨log, some f, (current f).length⟩

/-- what the back-end's step does to the LogFile -/
def back (cfg : LogFile.Config) (p : St) (log : AsyncLogging.St) (o : Op) : Option St :=
  match p.log.pc with
  | .setup => some ⟨log, some (LogFile.init cfg o.now), 0⟩
  | .clear | .exit => flush p log
  | _ =>
    match handed p.log log with
    | none => some { p with log := log }
    | some data => append cfg p log data o

def step (cfg : LogFile.Config) (p : St) (o : Op) : Option St :=
  (AsyncLogging.step p.log o.op).bind fun log =>
    match o.op with
    | .back _ => back cfg p log o
    | _ => some { p with log := log }

/-- what has been written out, all files in the order of their creation -/
def onDisk (p : St) : Bytes :=
  p.file.elim [] fun f => f.closed.flatMap LogFile.AppendFile.content ++ (current f).take p.written

/-! ## What a record is made of -/

/-- a record of the LogFile: a buffer with its lines, or the text that announces how many buffers were dropped -/
inductive Piece where
  | lines (ls : List Bytes)
  | notice (dropped : ℕ) (text : Bytes) (announces : Announces dropped text)

namespace Piece

def bytes : Piece → Bytes
  | .lines ls => ls.flatten
  | .notice _ text _ => text

def content : Piece → List Bytes
  | .lines ls => ls
  | .notice _ _ _ => []

end Piece

theorem bytes_lines (segs : List (List Bytes)) : (segs.map Piece.lines).map Piece.bytes = segs.map List.flatten := by
  rw [List.map_map]; rfl

theorem content_lines (segs : List (List Bytes)) : (segs.map Piece.lines).flatMap Piece.content = segs.flatten := by
  rw [List.flatMap_map]; exact List.flatMap_id

/-- an iteration that has ended -/
theorem complete_pieces {taken outs : List Bytes} {segs : List (List Bytes)} (h : Complete taken outs)
    (hsegs : segs.map List.flatten = taken) :
    ∃ ps : List Piece, ps.map Piece.bytes = outs ∧ (ps.flatMap Piece.content).Sublist segs.flatten ∧
      (taken.length ≤ 25 → ps = segs.map .lines) := by
  rcases h with ⟨-, houts⟩ | ⟨hlen, out, hout, houts⟩
  · refine ⟨segs.map .lines, ?_, ?_, fun _ => rfl⟩
    · rw [bytes_lines, hsegs, houts]
    · rw [content_lines]
  · refine ⟨.notice (taken.length - 2) out hout :: (segs.take 2).map .lines, ?_, ?_, fun hle => by omega⟩
    · rw [List.map_cons, bytes_lines, List.map_take, hsegs, houts]; rfl
    · rw [List.flatMap_cons, content_lines, Piece.content, List.nil_append]
      exact (List.take_sublist 2 segs).flatten

/-- the iterations that have ended -/
theorem past_pieces {past : List Iteration} {segs : List (List Bytes)} (h : ∀ it ∈ past, Complete it.taken it.outs)
    (hsegs : segs.map List.flatten = past.flatMap Iteration.taken) :
    ∃ ps : List Piece, ps.map Piece.bytes = past.flatMap Iteration.outs ∧
      (ps.flatMap Piece.content).Sublist segs.flatten ∧
      ((∀ it ∈ past, it.taken.length ≤ 25) → ps = segs.map .lines) := by
  induction past generalizing segs with
  | nil =>
    obtain rfl := List.map_eq_nil_iff.1 hsegs
    exact ⟨[], rfl, .slnil, fun _ => rfl⟩
  | cons it past ih =>
    rw [List.flatMap_cons] at hsegs
    obtain ⟨first, rest, rfl, hfirst, hrest⟩ := List.map_eq_append_iff.1 hsegs
    obtain ⟨ps, hps, hsub, hlines⟩ := complete_pieces (h it List.mem_cons_self) hfirst
    obtain ⟨qs, hqs, hsub', hlines'⟩ := ih (fun it' hit' => h it' (List.mem_cons_of_mem it hit')) hrest
    refine ⟨ps ++ qs, ?_, ?_, ?_⟩
    · rw [List.map_append, hps, hqs, List.flatMap_cons]
    · rw [List.flatMap_append, List.flatten_append]
      exact hsub.append hsub'
    · intro hle
      rw [hlines (hle it List.mem_cons_self), hlines' fun it' hit' => hle it' (List.mem_cons_of_mem it hit'),
        List.map_append]

/-- **Records are whole.** What has been handed over is made of notices and of whole lines, in order and each at most once;
without overload it is made of the first lines. -/
theorem output_pieces {s : AsyncLogging.St} (h : Conserved s) :
    ∃ ps : List Piece, ps.map Piece.bytes = s.output ∧ (ps.flatMap Piece.content).Sublist s.lines ∧
      (NoOverload s → (∀ p ∈ ps, ∃ ls, p = .lines ls) ∧ ps.flatMap Piece.content <+: s.lines) := by
  obtain ⟨segs, hsegs, hlines⟩ := h.lines
  unfold held at hsegs
  rw [List.append_assoc, List.append_assoc] at hsegs
  obtain ⟨old, rest, rfl, hold, hrest⟩ := List.map_eq_append_iff.1 hsegs
  obtain ⟨new, later, rfl, hnew, -⟩ := List.map_eq_append_iff.1 hrest
  rw [List.flatten_append, List.flatten_append] at hlines
  obtain ⟨ps, hps, hsub, hfull⟩ := past_pieces h.past hold
  -- the running iteration, as far as it has come
  obtain ⟨qs, hqs, hsub', hfull'⟩ : ∃ qs : List Piece, qs.map Piece.bytes = s.now.outs ∧
      (qs.flatMap Piece.content).Sublist new.flatten ∧
      (s.now.taken.length ≤ 25 → ∃ n, qs = (new.take n).map .lines) := by
    rcases h.now with ⟨-, houts, -⟩ | ⟨-, hlen, -, out, hout, houts⟩ | hcomplete
    · exact ⟨[], houts.symm, List.nil_sublist _, fun _ => ⟨0, rfl⟩⟩
    · exact ⟨[.notice (s.now.taken.length - 2) out hout], houts.symm, List.nil_sublist _, fun hle => by omega⟩
    · obtain ⟨qs, hqs, hsub', hfull'⟩ := complete_pieces hcomplete hnew
      refine ⟨qs.take s.now.outs.length, ?_, ?_, ?_⟩
      · rw [List.map_take, hqs, List.take_left]
      · exact ((List.take_sublist _ qs).flatMap _).trans hsub'
      · intro hle
        exact ⟨s.now.outs.length, by rw [hfull' hle, List.map_take]⟩
  refine ⟨ps ++ qs, ?_, ?_, ?_⟩
  · rw [List.map_append, hps, hqs, h.output]
  · rw [List.flatMap_append, ← hlines]
    exact hsub.append (hsub'.trans (List.sublist_append_left _ _))
  · intro hno
    obtain ⟨n, rfl⟩ := hfull' hno.1
    obtain rfl := hfull hno.2
    rw [← List.map_append]
    refine ⟨?_, ?_⟩
    · intro p hp
      obtain ⟨ls, -, rfl⟩ := List.mem_map.1 hp
      exact ⟨ls, rfl⟩
    · rw [content_lines, List.flatten_append, ← hlines]
      refine (List.prefix_append_right_inj _).2 ?_
      calc (new.take n).flatten
          <+: new.flatten := ⟨(new.drop n).flatten, by rw [← List.flatten_append, List.take_append_drop]⟩
        _ <+: new.flatten ++ later.flatten := List.prefix_append _ _

/-! ## The back-end and its LogFile -/

/-- threadFunc has constructed its LogFile -/
def begun : Pc → Bool
  | .notStarted | .entry | .setup => false
  | _ => true

/-- between the swap of an iteration and its flush -/
def busy : Pc → Bool
  | .taken | .dropping | .writing _ | .resize | .refill1 | .refill2 | .clear => true
  | _ => false

variable {s t : AsyncLogging.St}

/-- the front end and the owner -/
theorem step_front {o : AsyncLogging.Op} (ho : ∀ now, o ≠ .back now) (h : AsyncLogging.Inv s)
    (hst : AsyncLogging.step s o = some t) :
    t.output = s.output ∧ begun t.pc = begun s.pc ∧ busy t.pc = busy s.pc ∧
      (t.owner = .stopped → s.owner = .stopped ∧ t.pc = s.pc ∨ t.pc = .done) := by
  unfold AsyncLogging.step at hst
  rw [if_neg (by simp [h.noFault])] at hst
  cases o with
  | back now => exact absurd rfl (ho now)
  | append logline len =>
    cases hst
    obtain ⟨cur, hcur⟩ := Option.ne_none_iff_exists'.1 h.current
    unfold AsyncLogging.append
    simp only [hcur]
    split_ifs
    · exact ⟨rfl, rfl, rfl, fun hs => Or.inl ⟨hs, rfl⟩⟩
    · exact ⟨rfl, rfl, rfl, fun hs => Or.inl ⟨hs, rfl⟩⟩
  | start =>
    simp only [Option.ite_none_right_eq_some, Option.some.injEq] at hst
    obtain ⟨hown, rfl⟩ := hst
    rw [(h.idle hown).1]
    exact ⟨rfl, rfl, rfl, fun hs => by cases hs⟩
  | join =>
    simp only [Option.ite_none_right_eq_some, Option.some.injEq] at hst
    obtain ⟨⟨-, hdone⟩, rfl⟩ := hst
    exact ⟨rfl, rfl, rfl, fun _ => Or.inr hdone⟩
  | startReturn | stop | notify =>
    simp only [Option.ite_none_right_eq_some, Option.some.injEq] at hst
    obtain ⟨-, rfl⟩ := hst
    exact ⟨rfl, rfl, rfl, fun hs => by cases hs⟩

/-- the back-end where it neither constructs nor flushes its LogFile -/
theorem back_piece {now : Timestamp} (hb : AsyncLogging.back s now = some t) (hsetup : s.pc ≠ .setup)
    (hclear : s.pc ≠ .clear) (hexit : s.pc ≠ .exit) (ht : t.fault = none) :
    begun t.pc = begun s.pc ∧ t.owner = s.owner ∧ s.pc ≠ .done ∧
      (t.output = s.output ∧ (busy t.pc = false → busy s.pc = false) ∨
        ∃ data, t.output = s.output ++ [data] ∧ busy t.pc = true) := by
  unfold AsyncLogging.back at hb
  cases hpc : s.pc with
  | notStarted => simp [hpc] at hb
  | done => simp [hpc] at hb
  | setup => exact absurd hpc hsetup
  | clear => exact absurd hpc hclear
  | exit => exact absurd hpc hexit
  | writing i =>
    simp only [hpc] at hb
    split at hb
    · cases hb; exact ⟨rfl, rfl, by simp, Or.inl ⟨rfl, fun hq => by cases hq⟩⟩
    · cases hb; cases ht
    · cases hb; exact ⟨rfl, rfl, by simp, Or.inr ⟨_, rfl, rfl⟩⟩
  | taken =>
    simp only [hpc] at hb
    split_ifs at hb <;> cases hb
    · cases ht
    · exact ⟨rfl, rfl, by simp, Or.inr ⟨_, rfl, rfl⟩⟩
    · exact ⟨rfl, rfl, by simp, Or.inl ⟨rfl, fun hq => by cases hq⟩⟩
  | test =>
    simp only [hpc] at hb
    cases hb
    cases s.running <;> exact ⟨rfl, rfl, by simp, Or.inl ⟨rfl, fun _ => rfl⟩⟩
  | _ =>
    simp only [hpc] at hb
    repeat' split at hb
    all_goals first
      | (cases hb; cases ht)
      | (cases hb; exact ⟨rfl, rfl, by simp, Or.inl ⟨rfl, fun _ => rfl⟩⟩)
      | (cases hb; exact ⟨rfl, rfl, by simp, Or.inl ⟨rfl, fun hq => by cases hq⟩⟩)

/-! ## The LogFile -/

theorem rollFile_records (cfg : LogFile.Config) (f : LogFile.St) (now : ℤ) :
    (LogFile.rollFile cfg f now).1.records = f.records := by
  unfold LogFile.rollFile
  dsimp only
  split_ifs <;> rfl

theorem append_records {cfg : LogFile.Config} {f f' : LogFile.St} {data : Bytes} {results : List ℕ} {check now : ℤ}
    (h : LogFile.append cfg f data results check now = some f') : f'.records = f.records ++ [data] := by
  cases LogFile.append_appended h with
  | full | day => rw [rollFile_records]; rfl
  | kept => rfl

theorem init_records (cfg : LogFile.Config) (now : ℤ) : (LogFile.init cfg now).records = [] :=
  rollFile_records cfg _ now

/-- the files together -/
theorem files_content {cfg : LogFile.Config} {f : LogFile.St} (h : LogFile.Inv cfg f) :
    f.closed.flatMap LogFile.AppendFile.content ++ current f = f.records.flatten := by
  obtain ⟨file, hfile, -⟩ := h.file
  rw [← h.kept.contents, LogFile.files, current, hfile, List.map_append, List.flatten_append, List.flatMap_def]
  simp

/-! ## The invariant -/

structure Inv (cfg : LogFile.Config) (p : St) : Prop where
  log : LogInv p.log
  before : begun p.log.pc = false → p.file = none
  empty : p.file = none → p.log.output = []
  file : ∀ f, p.file = some f → LogFile.Inv cfg f ∧ f.records = p.log.output ∧ p.written ≤ (current f).length
  flushed : busy p.log.pc = false → ∀ f, p.file = some f → p.written = (current f).length
  stopped : p.log.owner = .stopped → p.log.pc = .done

theorem inv_init (cfg : LogFile.Config) : Inv cfg init where
  log := logInv_init
  before := fun _ => rfl
  empty := fun _ => rfl
  file := fun f h => by cases h
  flushed := fun _ f h => by cases h
  stopped := fun h => by cases h

/-- a step that leaves the LogFile alone -/
theorem Inv.still {cfg : LogFile.Config} {p : St} {log : AsyncLogging.St} (h : Inv cfg p) (hlog : LogInv log)
    (hbegun : begun log.pc = begun p.log.pc) (houtput : log.output = p.log.output)
    (hbusy : busy log.pc = false → busy p.log.pc = false) (hstopped : log.owner = .stopped → log.pc = .done) :
    Inv cfg { p with log := log } where
  log := hlog
  before := fun hb => h.before (hbegun ▸ hb)
  empty := fun hf => houtput.trans (h.empty hf)
  file := by
    intro f hf
    obtain ⟨hinv, hrecords, hle⟩ := h.file f hf
    exact ⟨hinv, hrecords.trans houtput.symm, hle⟩
  flushed := fun hb => h.flushed (hbusy hb)
  stopped := hstopped

/-- lines that a buffer can hold, and a clock past the epoch -/
def Regular (o : Op) : Prop := LineOk o.op ∧ 0 < o.now

/-- one more record in the LogFile -/
theorem Inv.append {cfg : LogFile.Config} {p q : St} {log : AsyncLogging.St} {data : Bytes} {o : Op} (h : Inv cfg p)
    (hlog : LogInv log) (hbegun : begun log.pc = begun p.log.pc) (houtput : log.output = p.log.output ++ [data])
    (hbusy : busy log.pc = true) (hstopped : log.owner = .stopped → log.pc = .done)
    (hst : LogPipeline.append cfg p log data o = some q) : Inv cfg q := by
  obtain ⟨f, hf, hst⟩ := Option.bind_eq_some_iff.1 hst
  obtain ⟨f', hf', hst⟩ := Option.bind_eq_some_iff.1 hst
  split_ifs at hst with hwritten
  cases hst
  obtain ⟨hinv, hrecords, -⟩ := h.file f hf
  have hinv' : LogFile.Inv cfg f' := LogFile.step_inv cfg f (.append data o.results o.check o.now) f' hinv hf'
  refine { log := hlog, before := ?_, empty := ?_, file := ?_, flushed := ?_, stopped := hstopped }
  · intro hb
    have := h.before (hbegun ▸ hb)
    rw [hf] at this
    cases this
  · intro hnone; cases hnone
  · intro g hg
    cases hg
    exact ⟨hinv', by rw [append_records hf', hrecords, houtput], hwritten.1⟩
  · intro hb
    rw [hbusy] at hb
    cases hb

/-- output.flush -/
theorem Inv.flush {cfg : LogFile.Config} {p q : St} {log : AsyncLogging.St} (h : Inv cfg p) (hlog : LogInv log)
    (hbegun : begun log.pc = true) (houtput : log.output = p.log.output) (hstopped : log.owner = .stopped → log.pc = .done)
    (hst : LogPipeline.flush p log = some q) : Inv cfg q := by
  obtain ⟨f, hf, rfl⟩ := Option.map_eq_some_iff.1 hst
  obtain ⟨hinv, hrecords, -⟩ := h.file f hf
  refine { log := hlog, before := ?_, empty := ?_, file := ?_, flushed := ?_, stopped := hstopped }
  · intro hb
    rw [hbegun] at hb
    cases hb
  · intro hnone; cases hnone
  · intro g hg
    cases hg
    exact ⟨hinv, hrecords.trans houtput.symm, le_rfl⟩
  · intro _ g hg
    cases hg
    rfl

theorem back_inv {cfg : LogFile.Config} {p q : St} {log : AsyncLogging.St} {o : Op} {now : Timestamp} (h : Inv cfg p)
    (hlog : LogInv log) (hnow : 0 < o.now) (hb : AsyncLogging.back p.log now = some log)
    (hst : back cfg p log o = some q) : Inv cfg q := by
  have hpiece := back_piece hb
  unfold back at hst
  split at hst
  · -- LogFile output(basename_, rollSize_)
    rename_i hpc
    cases hst
    unfold AsyncLogging.back at hb
    simp only [hpc] at hb
    cases hb
    have hnone := h.before (by rw [hpc]; rfl)
    refine { log := hlog, before := ?_, empty := ?_, file := ?_, flushed := ?_, stopped := ?_ }
    · intro hb; cases hb
    · intro hf; cases hf
    · intro f hf
      cases hf
      exact ⟨LogFile.init_inv cfg hnow, (init_records cfg o.now).trans (h.empty hnone).symm, Nat.zero_le _⟩
    · intro _ f hf
      cases hf
      simp [current, LogFile.init, LogFile.rollFile, hnow]
    · intro hs
      have := h.stopped hs
      rw [hpc] at this
      cases this
  · -- the flush at the end of an iteration
    rename_i hpc
    unfold AsyncLogging.back at hb
    simp only [hpc] at hb
    cases hb
    refine h.flush hlog rfl rfl ?_ hst
    intro hs
    have := h.stopped hs
    rw [hpc] at this
    cases this
  · -- the flush behind the loop
    rename_i hpc
    unfold AsyncLogging.back at hb
    simp only [hpc] at hb
    cases hb
    exact h.flush hlog rfl rfl (fun _ => rfl) hst
  · rename_i hsetup hclear hexit
    obtain ⟨hbegun, howner, hdone, hpiece⟩ := hpiece hsetup hclear hexit hlog.inv.noFault
    have hstopped : log.owner = .stopped → log.pc = .done := fun hs => absurd (h.stopped (howner ▸ hs)) hdone
    rcases hpiece with ⟨houtput, hbusy⟩ | ⟨data, houtput, hbusy⟩
    · have hnone : handed p.log log = none := by rw [handed, houtput]; exact List.getElem?_eq_none le_rfl
      rw [hnone] at hst
      cases hst
      exact h.still hlog hbegun houtput hbusy hstopped
    · have hsome : handed p.log log = some data := by rw [handed, houtput]; simp
      rw [hsome] at hst
      exact h.append hlog hbegun houtput hbusy hstopped hst

theorem step_inv {cfg : LogFile.Config} {p q : St} {o : Op} (h : Inv cfg p) (ho : Regular o)
    (hst : step cfg p o = some q) : Inv cfg q := by
  obtain ⟨log, hlogstep, hst⟩ := Option.bind_eq_some_iff.1 hst
  have hlog := step_logInv p.log o.op log h.log ho.1 hlogstep
  by_cases hback : ∃ now, o.op = .back now
  · obtain ⟨now, hop⟩ := hback
    rw [hop] at hst hlogstep
    unfold AsyncLogging.step at hlogstep
    rw [if_neg (by simp [h.log.inv.noFault])] at hlogstep
    exact back_inv h hlog ho.2 hlogstep hst
  · have hfront : ∀ now, o.op ≠ .back now := fun now hop => hback ⟨now, hop⟩
    obtain ⟨houtput, hbegun, hbusy, hstopped⟩ := step_front hfront h.log.inv hlogstep
    have hst : some { p with log := log } = some q := by
      split at hst
      · rename_i now hop; exact absurd hop (hfront now)
      · exact hst
    cases hst
    refine h.still hlog hbegun houtput (fun hb => hbusy ▸ hb) ?_
    intro hs
    rcases hstopped hs with ⟨hs, hpc⟩ | hdone
    · rw [hpc]; exact h.stopped hs
    · exact hdone

theorem run_inv {cfg : LogFile.Config} {ops : List Op} {p : St} (hops : ∀ o ∈ ops, Regular o)
    (hrun : Machine.run (step cfg) init ops = some p) : Inv cfg p := by
  refine Machine.run_inv_of_meets (I := Inv cfg) ?_ (inv_init cfg) (Machine.meets_of_forall hops) hrun
  intro _ _ _ h ho hst
  exact step_inv h ho hst

/-! ## What the files hold -/

/-- a list that is cut into pieces was cut where its images are -/
theorem exists_groups {α β : Type*} {f : α → β} {cuts : List (List β)} {xs : List α} (h : xs.map f = cuts.flatten) :
    ∃ groups : List (List α), groups.map (List.map f) = cuts ∧ groups.flatten = xs := by
  induction cuts generalizing xs with
  | nil => exact ⟨[], rfl, (List.map_eq_nil_iff.1 h).symm⟩
  | cons cut cuts ih =>
    obtain ⟨first, rest, rfl, hfirst, hrest⟩ := List.map_eq_append_iff.1 (h.trans List.flatten_cons)
    obtain ⟨groups, hgroups, hflat⟩ := ih hrest
    exact ⟨first :: groups, by rw [List.map_cons, hfirst, hgroups], by rw [List.flatten_cons, hflat]⟩

/-- what the files are made of -/
structure Delivered (p : St) (f : LogFile.St) : Prop where
  names : ((LogFile.files f).map LogFile.AppendFile.filename).Nodup
  /-- each file is made of notices and whole lines; the lines of all files are appended lines, in order, each at most once,
  and without overload they are the first ones and there is nothing else -/
  whole : ∃ groups : List (List Piece),
    (LogFile.files f).map LogFile.AppendFile.content = groups.map (fun g => (g.map Piece.bytes).flatten) ∧
      (groups.flatten.flatMap Piece.content).Sublist p.log.lines ∧
      (NoOverload p.log →
        (∀ piece ∈ groups.flatten, ∃ ls, piece = .lines ls) ∧ groups.flatten.flatMap Piece.content <+: p.log.lines)

theorem Inv.delivered {cfg : LogFile.Config} {p : St} {f : LogFile.St} (h : Inv cfg p) (hf : p.file = some f) :
    Delivered p f := by
  obtain ⟨hinv, hrecords, -⟩ := h.file f hf
  refine ⟨hinv.kept.names, ?_⟩
  obtain ⟨ps, hps, hsub, hfirst⟩ := output_pieces h.log.conserved
  have hcuts : ps.map Piece.bytes = ((LogFile.files f).map LogFile.AppendFile.records).flatten := by
    rw [← List.flatMap_def, hinv.order, hrecords, hps]
  obtain ⟨groups, hgroups, rfl⟩ := exists_groups hcuts
  refine ⟨groups, ?_, hsub, hfirst⟩
  calc (LogFile.files f).map LogFile.AppendFile.content
      = ((LogFile.files f).map LogFile.AppendFile.records).map List.flatten := by
        rw [List.map_map]
        exact List.map_congr_left fun file hfile => hinv.whole file hfile
    _ = (groups.map (List.map Piece.bytes)).map List.flatten := by rw [hgroups]
    _ = groups.map (fun g => (g.map Piece.bytes).flatten) := List.map_map

/-- **From append() to the files.** However the threads interleave, whatever the clock shows and however fwrite and stdio
cut the data: the files have distinct names and hold whole lines, in the order of the appends. -/
theorem lines_whole {cfg : LogFile.Config} {ops : List Op} {p : St} {f : LogFile.St} (hops : ∀ o ∈ ops, Regular o)
    (hrun : Machine.run (step cfg) init ops = some p) (hf : p.file = some f) : Delivered p f :=
  (run_inv hops hrun).delivered hf

/-- **Durability.** What has been written out is always the beginning of what was handed over; between two iterations, and
so when stop() has returned, it is all of it. -/
theorem flushed_each_iteration {cfg : LogFile.Config} {ops : List Op} {p : St} (hops : ∀ o ∈ ops, Regular o)
    (hrun : Machine.run (step cfg) init ops = some p) :
    onDisk p <+: p.log.output.flatten ∧
      (busy p.log.pc = false ∨ p.log.owner = .stopped → onDisk p = p.log.output.flatten) := by
  have h := run_inv hops hrun
  cases hf : p.file with
  | none =>
    have hdisk : onDisk p = [] := by rw [onDisk, hf]; rfl
    rw [hdisk, h.empty hf]
    exact ⟨List.nil_prefix, fun _ => rfl⟩
  | some f =>
    obtain ⟨hinv, hrecords, -⟩ := h.file f hf
    have hdisk : onDisk p = f.closed.flatMap LogFile.AppendFile.content ++ (current f).take p.written := by
      rw [onDisk, hf]; rfl
    rw [hdisk, ← hrecords, ← files_content hinv]
    refine ⟨(List.prefix_append_right_inj _).2 (List.take_prefix _ _), ?_⟩
    intro hquiet
    have hidle : busy p.log.pc = false := by
      rcases hquiet with hb | hs
      · exact hb
      · rw [h.stopped hs]; rfl
    rw [h.flushed hidle f hf, List.take_length]

/-- every record rolls the file -/
def rolling : LogFile.Config := ⟨ascii "log", 0, 3, 1024, ascii "host", 7⟩

def backSteps (n : ℕ) (now : ℤ) : List Op := List.replicate n ⟨.back ⟨0⟩, [1], 0, now, 0⟩

/-- two lines, an iteration of threadFunc for each, and the day changes in between -/
def twoIterations : List Op :=
  [⟨.append (ascii "a") 1, [], 0, 1, 0⟩, ⟨.start, [], 0, 1, 0⟩] ++ backSteps 2 86399 ++ [⟨.startReturn, [], 0, 1, 0⟩] ++
    backSteps 11 90000 ++ [⟨.append (ascii "b") 1, [], 0, 1, 0⟩] ++ backSteps 11 90001

theorem twoIterations_ok : ∀ o ∈ twoIterations, Regular o := by
  have hback : ∀ n now, 0 < now → ∀ o ∈ backSteps n now, Regular o := by
    intro n now hnow o ho
    rw [List.eq_of_mem_replicate ho]
    exact ⟨trivial, hnow⟩
  have hline : ∀ l : Bytes, l.length = 1 → LineOk (.append l 1) := by
    intro l hl
    exact ⟨by rw [hl]; rfl, by rw [hl]; decide⟩
  intro o ho
  simp only [twoIterations, List.mem_append, List.mem_cons, List.not_mem_nil, or_false] at ho
  rcases ho with (((((rfl | rfl) | ho) | rfl) | ho) | rfl) | ho
  · exact ⟨hline _ (by decide), Int.one_pos⟩
  · exact ⟨trivial, Int.one_pos⟩
  · exact hback 2 _ (by decide) o ho
  · exact ⟨trivial, Int.one_pos⟩
  · exact hback 11 _ (by decide) o ho
  · exact ⟨hline _ (by decide), Int.one_pos⟩
  · exact hback 11 _ (by decide) o ho

theorem lines_whole_rolled : ∃ p f, Machine.run (step rolling) init twoIterations = some p ∧ p.file = some f ∧
    (LogFile.files f).map LogFile.AppendFile.content = [ascii "a", ascii "b", []] ∧ Delivered p f := by
  have hrun : (Machine.run (step rolling) init twoIterations).any fun p =>
      p.file.any fun f => (LogFile.files f).map LogFile.AppendFile.content = [ascii "a", ascii "b", []] := by
    decide +kernel
  obtain ⟨p, hp, hfile⟩ := (Option.any_eq_true _ _).1 hrun
  obtain ⟨f, hf, hcontent⟩ := (Option.any_eq_true _ _).1 hfile
  exact ⟨p, f, hp, hf, of_decide_eq_true hcontent, lines_whole twoIterations_ok hp hf⟩

theorem flushed_each_iteration_rolled : ∃ p, Machine.run (step rolling) init twoIterations = some p ∧
    p.log.pc = .test ∧ p.log.output = [ascii "a", ascii "b"] ∧ onDisk p = p.log.output.flatten := by
  have hrun : (Machine.run (step rolling) init twoIterations).any fun p =>
      p.log.pc = .test ∧ p.log.output = [ascii "a", ascii "b"] := by decide +kernel
  obtain ⟨p, hp, hfacts⟩ := (Option.any_eq_true _ _).1 hrun
  obtain ⟨hpc, houtput⟩ := of_decide_eq_true hfacts
  exact ⟨p, hp, hpc, houtput, (flushed_each_iteration twoIterations_ok hp).2 (Or.inl (by rw [hpc]; rfl))⟩

end Glacier.LogPipeline
