/-
Conservation and order of the log data while the logger runs.

`held` lists the contents of every buffer that has been filled so far, oldest first: those taken by finished
iterations, those taken by the running one, `buffers`, `currentBuffer`. `Conserved` says
- `lines`: these contents are the appended lines in the order the appends took the mutex, cut between lines only. So
  no line is split between two buffers, lost or duplicated on the way to the back-end;
- `output`, `past`, `now`: what output.append got is, iteration by iteration, what the iteration took, with the one
  exception of `Complete`: an iteration that took k > 25 buffers hands over a notice that announces k - 2 (`Announces`,
  its text in full) and the first two.
Main results, for lines shorter than a buffer:
- `step_logInv`: one step of any thread preserves the invariant;
- `log_conserved`: `Conserved` in every reachable state, between any two steps;
- `log_conserved_flat`: while no iteration took more than 25 buffers, the bytes handed over, then those taken and not
  yet written, then `buffers`, then `currentBuffer` are the concatenation of the appended lines.
-/
import Glacier.Base.BufferRotation

namespace Glacier.AsyncLogging

open Cxx

/-- the text that announces how many buffers were dropped -/
def announcement (time : Bytes) (dropped : ℕ) : Bytes :=
  ascii "Dropped log messages at " ++ time ++ ascii ", " ++ decimal dropped ++ ascii " larger buffers\n"

/-- the announcement with the formatted text of some reading of the clock; it is whole for every size_t -/
def Announces (dropped : ℕ) (out : Bytes) : Prop :=
  ∃ now : Timestamp, out = (announcement (now.toFormattedString true) dropped).take 255 ∧
    (dropped < 2 ^ 64 → out = announcement (now.toFormattedString true) dropped)

/-- what an iteration that took `taken` hands over when it runs to its end -/
def Complete (taken outs : List Bytes) : Prop :=
  (taken.length ≤ 25 ∧ outs = taken) ∨
    (25 < taken.length ∧ ∃ out, Announces (taken.length - 2) out ∧ outs = out :: taken.take 2)

/-- the contents of the buffers that the back-end has taken and not yet handed over -/
def unwritten (s : St) : List Bytes :=
  match s.pc with
  | .taken | .dropping => contents s.buffersToWrite
  | .writing i => contents (s.buffersToWrite.drop i)
  | _ => []

/-- the contents of every buffer filled so far, oldest first -/
def held (s : St) : List Bytes :=
  s.past.flatMap Iteration.taken ++ s.now.taken ++ contents s.buffers ++ [bytes s.currentBuffer]

structure Conserved (s : St) : Prop where
  lines : ∃ segs : List (List Bytes), segs.map List.flatten = held s ∧ segs.flatten = s.lines
  output : s.output = s.past.flatMap Iteration.outs ++ s.now.outs
  past : ∀ it ∈ s.past, Complete it.taken it.outs
  /-- the running iteration: before the write loop, between the notice and the erase, and from then on -/
  now : (s.pc = .taken ∧ s.now.outs = [] ∧ unwritten s = s.now.taken) ∨
    (s.pc = .dropping ∧ 25 < s.now.taken.length ∧ unwritten s = s.now.taken ∧
      ∃ out, Announces (s.now.taken.length - 2) out ∧ s.now.outs = [out]) ∨
    Complete s.now.taken (s.now.outs ++ unwritten s)

/-- the line is handed to append with its own length, and a buffer can hold it -/
def LineOk : Op → Prop
  | .append logline len => len = logline.length ∧ logline.length < kLargeBuffer
  | _ => True

/-- the running iteration at each point of threadFunc -/
def Progress (s : St) : Prop :=
  match s.pc with
  | .taken => s.now = ⟨contents s.buffersToWrite, []⟩
  | .dropping => 25 < s.buffersToWrite.length ∧
      ∃ out, Announces (s.buffersToWrite.length - 2) out ∧ s.now = ⟨contents s.buffersToWrite, [out]⟩
  | .writing i => Complete s.now.taken (s.now.outs ++ contents (s.buffersToWrite.drop i))
  | .resize | .refill1 | .refill2 | .clear => Complete s.now.taken s.now.outs
  | _ => s.now = ⟨[], []⟩

structure LogInv (s : St) : Prop where
  inv : Inv s
  lines : ∃ segs : List (List Bytes), segs.map List.flatten = held s ∧ segs.flatten = s.lines
  output : s.output = s.past.flatMap Iteration.outs ++ s.now.outs
  past : ∀ it ∈ s.past, Complete it.taken it.outs
  progress : Progress s

theorem logInv_init : LogInv init :=
  ⟨inv_init, ⟨[[]], by simp [held, init, contents, bytes]⟩, rfl, by simp [init], rfl⟩

@[simp] theorem contents_length (l : List (Option Buffer)) : (contents l).length = l.length := by simp [contents]

theorem complete_nil : Complete [] [] := Or.inl ⟨by simp, rfl⟩

/-! ## The notice -/

theorem length_announcement (now : Timestamp) {dropped : ℕ} (h : dropped < 2 ^ 64) :
    (announcement (now.toFormattedString true) dropped).length ≤ 255 := by
  have htime := now.length_toFormattedString
  have hnumber := length_decimal_le (n := dropped) (k := 20) (by decide) (by omega)
  have hbefore : (ascii "Dropped log messages at ").length = 24 := by decide
  have hbetween : (ascii ", ").length = 2 := by decide
  have hafter : (ascii " larger buffers\n").length = 16 := by decide
  simp only [announcement, List.length_append, hbefore, hbetween, hafter]
  omega

theorem notice_announces (now : Timestamp) (dropped : ℕ) : Announces dropped (notice now dropped) := by
  refine ⟨now, rfl, ?_⟩
  intro h
  exact List.take_of_length_le (length_announcement now h)

/-! ## Front end -/

/-- a line of admissible length fits a fresh buffer -/
theorem append_fresh (b : Buffer) (hb : b.data = []) (l : Bytes) (hl : l.length < kLargeBuffer) :
    (b.append l l.length).data = l := by
  have hroom : (l.length : ℤ) < b.avail := by
    unfold FixedBuffer.avail FixedBuffer.length; rw [hb]; simp; omega
  rw [FixedBuffer.append_of_lt (by unfold kLargeBuffer; norm_num) hroom, hb, List.nil_append]

theorem toSizeT_natCast_of_lt {n : ℕ} (h : n < kLargeBuffer) : toSizeT (n : ℤ) = n := by
  unfold kLargeBuffer at h
  rw [toSizeT_of_nonneg (by omega) (by omega)]; simp

theorem append_logInv (s : St) (l : Bytes) (h : LogInv s) (hl : l.length < kLargeBuffer) :
    LogInv (append s l l.length) := by
  have hinv := append_inv s l l.length h.inv
  obtain ⟨cur, hcur⟩ := Option.ne_none_iff_exists'.1 h.inv.current
  obtain ⟨segs, hsegs, hlines⟩ := h.lines
  have hp := h.progress
  have hlen := toSizeT_natCast_of_lt hl
  simp only [append, hcur] at hinv ⊢
  split_ifs at hinv ⊢ with hfit
  · refine ⟨hinv, ?_, h.output, h.past, hp⟩
    -- the line joins the last segment
    simp only [held, hcur, bytes] at hsegs ⊢
    obtain ⟨front, last, rfl, hfront, hlast⟩ := List.map_eq_append_iff.1 hsegs
    obtain ⟨seg, rfl, hseg⟩ := List.map_eq_singleton_iff.1 hlast
    refine ⟨front ++ [seg ++ [l]], ?_, ?_⟩
    · rw [hlen, FixedBuffer.append_of_lt (by unfold kLargeBuffer; norm_num) (by exact_mod_cast hfit)]
      simp [hfront, hseg]
    · rw [← hlines]; simp
  · refine ⟨hinv, ?_, h.output, h.past, hp⟩
    -- the line starts the segment of a fresh buffer
    have hfresh : ∀ b : Buffer, b.data = [] → (b.append l (toSizeT l.length)).data = l := fun b hb => by
      rw [hlen]; exact append_fresh b hb l hl
    refine ⟨segs ++ [[l]], ?_, ?_⟩
    · simp only [held, hcur, bytes, contents] at hsegs ⊢
      cases hn : s.nextBuffer with
      | none => simp [hsegs, hfresh .new rfl, bytes]
      | some b => simp [hsegs, hfresh b (h.inv.nextSpare b hn), bytes]
    · rw [← hlines]; simp

/-! ## Back end -/

/-- the swap starts an iteration; the front end goes on with an empty buffer -/
theorem swap_logInv (s : St) (h : LogInv s) (h1 : Spare s.newBuffer1) (h2 : Spare s.newBuffer2)
    (hw : s.buffersToWrite = []) (hnow : s.now = ⟨[], []⟩) : LogInv (swapBuffers s) := by
  obtain ⟨segs, hsegs, hlines⟩ := h.lines
  refine ⟨swap_inv s h.inv h1 h2 hw, ⟨segs ++ [[]], ?_, ?_⟩, ?_, h.past, rfl⟩
  · simp only [held, swapBuffers, hw, contents] at hsegs ⊢
    simp [hsegs, hnow, h1.eq, bytes]
  · calc (segs ++ [[]]).flatten = segs.flatten := by simp
      _ = s.lines := hlines
  · have := h.output; simp only [hnow, List.append_nil] at this; simpa [swapBuffers] using this

/-- a local step of the back-end that keeps the buffers of the front end, the history and the output -/
theorem local_logInv {s t : St} (h : LogInv s) (ht : Inv t) (hc : t.currentBuffer = s.currentBuffer)
    (hb : t.buffers = s.buffers) (hl : t.lines = s.lines) (hpast : t.past = s.past) (hnow : t.now = s.now)
    (ho : t.output = s.output) (hp : Progress t) : LogInv t := by
  refine ⟨ht, ?_, ?_, ?_, hp⟩
  · simpa only [held, hc, hb, hl, hpast, hnow] using h.lines
  · rw [ho, hpast, hnow]; exact h.output
  · rw [hpast]; exact h.past

/-- a step of the back-end that hands one piece to the LogFile -/
theorem hand_logInv {s : St} (h : LogInv s) (data : Bytes) (pc : Pc) (ht : Inv { hand s data with pc := pc })
    (hp : Progress { hand s data with pc := pc }) : LogInv { hand s data with pc := pc } := by
  refine ⟨ht, h.lines, ?_, h.past, hp⟩
  simp [hand, h.output]

variable {s t : St} {now : Timestamp}

/-- the iteration begins to write, or hands over its notice first -/
theorem taken_logInv (h : LogInv s) (ht : Inv t) (hpc : s.pc = .taken) (hb : back s now = some t) : LogInv t := by
  have hl := h.inv.locals
  have hp := h.progress
  simp only [Progress, hpc] at hp
  simp only [Locals, hpc] at hl
  simp only [back, hpc, List.isEmpty_iff, hl.2.1, ite_false] at hb
  split_ifs at hb with hlen
  · cases hb
    exact hand_logInv h _ _ ht (And.intro hlen ⟨_, notice_announces now _, by simp [hand, hp]⟩)
  · cases hb
    refine local_logInv h ht rfl rfl rfl rfl rfl rfl (Or.inl ⟨?_, ?_⟩)
    · simp [hp]; omega
    · simp [hp]

/-- the erase behind the notice -/
theorem dropping_logInv (h : LogInv s) (ht : Inv t) (hpc : s.pc = .dropping) (hb : back s now = some t) : LogInv t := by
  have hp := h.progress
  simp only [Progress, hpc] at hp
  obtain ⟨hlen, out, hout, hnow⟩ := hp
  simp only [back, hpc] at hb
  cases hb
  refine local_logInv h ht rfl rfl rfl rfl rfl rfl (Or.inr ⟨?_, out, ?_, ?_⟩)
  · simpa [hnow] using hlen
  · simpa [hnow] using hout
  · simp [hnow, contents, List.map_take]

/-- one buffer of the write loop, or its end -/
theorem writing_logInv {i : ℕ} (h : LogInv s) (ht : Inv t) (hpc : s.pc = .writing i) (hb : back s now = some t) :
    LogInv t := by
  have hp := h.progress
  simp only [Progress, hpc] at hp
  simp only [back, hpc] at hb
  split at hb
  · rename_i hi
    cases hb
    apply local_logInv h ht rfl rfl rfl rfl rfl rfl
    rw [List.drop_eq_nil_of_le (List.getElem?_eq_none_iff.1 hi)] at hp
    have hdone : Complete s.now.taken s.now.outs := by simpa [contents] using hp
    exact hdone
  · cases hb; exact absurd ht.noFault (by simp)
  · rename_i b hi
    cases hb
    obtain ⟨hlt, hget⟩ := List.getElem?_eq_some_iff.1 hi
    apply hand_logInv h _ _ ht
    rw [List.drop_eq_getElem_cons hlt, hget] at hp
    simpa [Progress, hand, contents, bytes] using hp

/-- the running iteration becomes a finished one -/
theorem clear_logInv (h : LogInv s) (ht : Inv t) (hpc : s.pc = .clear) (hb : back s now = some t) : LogInv t := by
  have hp := h.progress
  simp only [Progress, hpc] at hp
  simp only [back, hpc] at hb
  cases hb
  refine ⟨ht, ?_, ?_, ?_, rfl⟩
  · simpa [held] using h.lines
  · simpa using h.output
  · intro it hit
    rcases List.mem_append.1 hit with hit | hit
    · exact h.past it hit
    · simp only [List.mem_singleton] at hit; subst hit; exact hp

theorem back_logInv (s t : St) (now : Timestamp) (h : LogInv s) (hb : back s now = some t) : LogInv t := by
  have ht := back_inv s t now h.inv hb
  have hl := h.inv.locals
  have hp := h.progress
  have hstep := hb
  unfold back at hb
  cases hpc : s.pc with
  | notStarted => simp [hpc] at hb
  | entry =>
    simp only [Progress, hpc] at hp
    simp only [hpc] at hb
    rw [if_pos (h.inv.handshake (h.inv.latch hpc).2)] at hb
    cases hb; exact local_logInv h ht rfl rfl rfl rfl rfl rfl hp
  | test =>
    simp only [Progress, hpc] at hp
    simp only [hpc] at hb
    cases hb
    apply local_logInv h ht rfl rfl rfl rfl rfl rfl
    cases s.running <;> exact hp
  | head =>
    simp only [Progress, hpc] at hp
    simp only [hpc] at hb
    split_ifs at hb
    · cases hb; exact local_logInv h ht rfl rfl rfl rfl rfl rfl hp
    · cases hb; exact absurd ht.noFault (by simp)
  | lock =>
    simp only [Progress, hpc] at hp
    simp only [Locals, hpc] at hl
    simp only [hpc] at hb
    split_ifs at hb
    · cases hb; exact local_logInv h ht rfl rfl rfl rfl rfl rfl hp
    · cases hb; exact swap_logInv s h hl.1 hl.2.1 hl.2.2 hp
  | waiting =>
    simp only [Progress, hpc] at hp
    simp only [Locals, hpc] at hl
    simp only [hpc] at hb
    cases hb; exact swap_logInv s h hl.1 hl.2.1 hl.2.2 hp
  | taken => exact taken_logInv h ht hpc hstep
  | dropping => exact dropping_logInv h ht hpc hstep
  | writing i => exact writing_logInv h ht hpc hstep
  | refill1 | refill2 =>
    simp only [Progress, hpc] at hp
    simp only [hpc] at hb
    split_ifs at hb
    · split at hb
      · cases hb; exact absurd ht.noFault (by simp)
      · cases hb; exact local_logInv h ht rfl rfl rfl rfl rfl rfl hp
    · cases hb; exact local_logInv h ht rfl rfl rfl rfl rfl rfl hp
  | clear => exact clear_logInv h ht hpc hstep
  | setup | resize | exit =>
    simp only [Progress, hpc] at hp
    simp only [hpc] at hb
    cases hb; exact local_logInv h ht rfl rfl rfl rfl rfl rfl hp
  | done => simp [hpc] at hb

/-- one step of any thread -/
theorem step_logInv (s : St) (o : Op) (t : St) (h : LogInv s) (ho : LineOk o) (hst : step s o = some t) :
    LogInv t := by
  have ht := step_inv s o t h.inv hst
  have hp := h.progress
  unfold step at hst
  rw [if_neg (by simp [h.inv.noFault])] at hst
  cases o with
  | append logline len =>
    obtain ⟨rfl, hlt⟩ := ho
    cases hst; exact append_logInv s logline h hlt
  | start =>
    simp only [Option.ite_none_right_eq_some, Option.some.injEq] at hst
    obtain ⟨hown, rfl⟩ := hst
    simp only [Progress, (h.inv.idle hown).1] at hp
    exact local_logInv h ht rfl rfl rfl rfl rfl rfl hp
  | back now => exact back_logInv s t now h hst
  | startReturn | stop | notify | join =>
    simp only [Option.ite_none_right_eq_some, Option.some.injEq] at hst
    obtain ⟨-, rfl⟩ := hst
    exact local_logInv h ht rfl rfl rfl rfl rfl rfl hp

theorem run_logInv {ops : List Op} {s t : St} (h : LogInv s) (hops : ∀ o ∈ ops, LineOk o)
    (hrun : Machine.run step s ops = some t) : LogInv t :=
  Machine.run_inv_of_meets step_logInv h (Machine.meets_of_forall hops) hrun

theorem LogInv.conserved {s : St} (h : LogInv s) : Conserved s := by
  refine ⟨h.lines, h.output, h.past, ?_⟩
  have hp := h.progress
  cases hpc : s.pc with
  | taken =>
    simp only [Progress, hpc] at hp
    exact Or.inl ⟨rfl, by simp [hp], by simp [unwritten, hpc, hp]⟩
  | dropping =>
    simp only [Progress, hpc] at hp
    obtain ⟨hlen, out, hout, hnow⟩ := hp
    refine Or.inr (Or.inl ⟨rfl, ?_, ?_, out, ?_, ?_⟩)
    · simpa [hnow] using hlen
    · simp [unwritten, hpc, hnow]
    · simpa [hnow] using hout
    · simp [hnow]
  | _ =>
    simp only [Progress, hpc] at hp
    right; right
    first
      | simpa [unwritten, hpc] using hp
      | (rw [hp]; simpa [unwritten, hpc] using complete_nil)

/-- **Conservation and order.** For appends of lines shorter than a buffer by any number of threads, interleaved in any
way with the steps of the back-end: in every state reached the log data is conserved. -/
theorem log_conserved (ops : List Op) (s : St) (hops : ∀ o ∈ ops, LineOk o)
    (h : Machine.run step init ops = some s) : Conserved s :=
  (run_logInv logInv_init hops h).conserved

/-- the front end after the `n + 2`-th line that fills a buffer -/
def filled (l : Bytes) (n : ℕ) : St :=
  { init with
    currentBuffer := some ⟨l⟩
    nextBuffer := none
    buffers := List.replicate (n + 1) (some ⟨l⟩)
    lines := List.replicate (n + 2) l }

theorem fill_fresh {l : Bytes} (hl : l.length + 1 = kLargeBuffer) :
    (FixedBuffer.new : Buffer).append l (toSizeT l.length) = ⟨l⟩ := by
  rw [toSizeT_natCast_of_lt (by omega)]
  exact congrArg FixedBuffer.mk (append_fresh .new rfl l (by omega))

theorem not_fits {l : Bytes} (hl : l.length + 1 = kLargeBuffer) :
    ¬ (⟨l⟩ : Buffer).avail > (l.length : ℤ) := by
  unfold kLargeBuffer at hl
  unfold FixedBuffer.avail FixedBuffer.length kLargeBuffer
  push_cast
  omega

/-- each such line takes a buffer of its own -/
theorem run_filled {l : Bytes} (hl : l.length + 1 = kLargeBuffer) (n : ℕ) :
    Machine.run step init (List.replicate (n + 2) (.append l l.length)) = some (filled l n) := by
  induction n with
  | zero =>
    have hfirst : step init (.append l l.length) = some { init with currentBuffer := some ⟨l⟩, lines := [l] } := by
      have hroom : (FixedBuffer.new : Buffer).avail > (l.length : ℤ) := by
        unfold kLargeBuffer at hl
        unfold FixedBuffer.avail FixedBuffer.length kLargeBuffer
        rw [FixedBuffer.new_data, List.length_nil]
        push_cast
        omega
      simp only [step, init, append, hroom, if_true, fill_fresh hl]
      rfl
    have hsecond : step { init with currentBuffer := some ⟨l⟩, lines := [l] } (.append l l.length) =
        some (filled l 0) := by
      simp only [step, init, append, not_fits hl, if_false, fill_fresh hl]
      rfl
    exact Machine.run_cons.2 ⟨_, hfirst, Machine.run_cons.2 ⟨_, hsecond, rfl⟩⟩
  | succ n ih =>
    have hnext : step (filled l n) (.append l l.length) = some (filled l (n + 1)) := by
      simp only [step, filled, init, append, not_fits hl, if_false, fill_fresh hl, ← List.replicate_succ']
      rfl
    rw [List.replicate_succ']
    exact Machine.run_append.2 ⟨_, ih, Machine.run_cons.2 ⟨_, hnext, rfl⟩⟩

/-- a line that fills a buffer but for one byte -/
def fullLine : Bytes := List.replicate (kLargeBuffer - 1) 120

theorem length_fullLine : fullLine.length + 1 = kLargeBuffer := by
  rw [fullLine, List.length_replicate, Nat.sub_add_cancel (by decide)]

/-- 26 full buffers before the back-end's first iteration, which runs to the end of its write loop -/
def overloadTrace : List Op :=
  List.replicate 26 (.append fullLine fullLine.length) ++ .start :: List.replicate 10 (.back ⟨0⟩)

theorem overloadTrace_ok : ∀ o ∈ overloadTrace, LineOk o := by
  intro o ho
  rcases List.mem_append.1 ho with ho | ho
  · rw [List.eq_of_mem_replicate ho]
    exact ⟨rfl, by have := length_fullLine; omega⟩
  · rcases List.mem_cons.1 ho with rfl | ho
    · trivial
    · rw [List.eq_of_mem_replicate ho]
      trivial

theorem log_conserved_overload : ∃ s, Machine.run step init overloadTrace = some s ∧ s.pc = .resize ∧
    s.lines = List.replicate 26 fullLine ∧
    s.output = [ascii "Dropped log messages at 19700101 00:00:00.000000, 24 larger buffers\n", fullLine, fullLine] ∧
    Conserved s := by
  have htext : notice ⟨0⟩ 24 = ascii "Dropped log messages at 19700101 00:00:00.000000, 24 larger buffers\n" := by
    decide +kernel
  have hback : (Machine.run step (filled fullLine 24) (.start :: List.replicate 10 (.back ⟨0⟩))).map
      (fun s => (s.pc, s.lines, s.output)) =
      some (.resize, List.replicate 26 fullLine, [notice ⟨0⟩ 24, fullLine, fullLine]) := rfl
  obtain ⟨s, hs, hfacts⟩ := Option.map_eq_some_iff.1 hback
  obtain ⟨hpc, hlines, houtput⟩ : s.pc = _ ∧ s.lines = _ ∧ s.output = _ := by simpa only [Prod.mk.injEq] using hfacts
  have hrun : Machine.run step init overloadTrace = some s :=
    Machine.run_append.2 ⟨_, run_filled length_fullLine 24, hs⟩
  exact ⟨s, hrun, hpc, hlines, htext ▸ houtput, log_conserved overloadTrace s overloadTrace_ok hrun⟩

/-- no iteration, finished or running, took more than 25 buffers -/
def NoOverload (s : St) : Prop := s.now.taken.length ≤ 25 ∧ ∀ it ∈ s.past, it.taken.length ≤ 25

/-- an iteration without overload hands over what it took -/
theorem Complete.outs_eq {taken outs : List Bytes} (h : Complete taken outs) (hlen : taken.length ≤ 25) :
    outs = taken := by
  rcases h with ⟨-, h⟩ | ⟨hlt, -⟩
  · exact h
  · omega

/-- **Conservation without overload.** The bytes handed over, taken and not yet written, in `buffers` and in
`currentBuffer` are the concatenation of the appended lines. -/
theorem log_conserved_flat (s : St) (h : Conserved s) (hno : NoOverload s) :
    s.output.flatten ++ (unwritten s).flatten ++ (contents s.buffers).flatten ++ bytes s.currentBuffer =
      s.lines.flatten := by
  obtain ⟨segs, hsegs, hlines⟩ := h.lines
  have hpast : s.past.flatMap Iteration.outs = s.past.flatMap Iteration.taken :=
    List.flatMap_congr fun it hit => (h.past it hit).outs_eq (hno.2 it hit)
  have hnow : s.now.outs ++ unwritten s = s.now.taken := by
    rcases h.now with ⟨-, ho, hu⟩ | ⟨-, hlt, -⟩ | hc
    · rw [ho, hu, List.nil_append]
    · have := hno.1; omega
    · exact hc.outs_eq hno.1
  calc s.output.flatten ++ (unwritten s).flatten ++ (contents s.buffers).flatten ++ bytes s.currentBuffer
      = (s.past.flatMap Iteration.taken ++ (s.now.outs ++ unwritten s) ++ contents s.buffers ++
          [bytes s.currentBuffer]).flatten := by rw [h.output, hpast]; simp
    _ = (held s).flatten := by rw [hnow]; rfl
    _ = segs.flatten.flatten := by rw [← hsegs, List.flatten_flatten]
    _ = s.lines.flatten := by rw [hlines]

end Glacier.AsyncLogging
