/-
Buffer rotation of the asynchronous logger never touches a missing buffer.

Six places hold buffers: `currentBuffer`, `nextBuffer`, `buffers` on the front-end side, `buffersToWrite` and the two
spares `newBuffer1`, `newBuffer2` on the back-end side. `Inv` says, for every point of threadFunc, which of them are
present and empty (`Locals`). The non-local fact is `next`: `nextBuffer` is only missing while `buffers` holds a full
buffer, because a swap always refills it and only an append that pushed a full buffer takes it away. So the swap that
gives `newBuffer2` away takes at least two buffers, and the second refill finds one to recycle.
- `step_inv`: every step of either side preserves `Inv`.
- `rotation_safe`: in every reachable state no assert has failed, no null buffer was dereferenced and no empty vector
  was popped; and the facts above hold at the points they are about.
Lines of any length are covered, also those that no buffer can hold and negative lengths.
-/
import Glacier.Base.AsyncLogging

namespace Glacier.AsyncLogging

open Cxx

/-- allocated and of length 0 -/
def Spare (p : Option Buffer) : Prop := p = some ⟨[]⟩

theorem Spare.eq {p : Option Buffer} (h : Spare p) : p = some ⟨[]⟩ := h

/-- after a swap: something was taken, and at least two buffers where newBuffer2 was given away -/
def Refillable (s : St) : Prop :=
  s.buffersToWrite ≠ [] ∧ (s.newBuffer2 = none ∧ 2 ≤ s.buffersToWrite.length ∨ Spare s.newBuffer2)

/-- the back-end's locals at each point of threadFunc -/
def Locals (s : St) : Prop :=
  match s.pc with
  | .notStarted | .entry | .setup => s.newBuffer1 = none ∧ s.newBuffer2 = none ∧ s.buffersToWrite = []
  | .test | .head | .lock | .waiting | .exit | .done =>
    Spare s.newBuffer1 ∧ Spare s.newBuffer2 ∧ s.buffersToWrite = []
  | .taken | .dropping | .writing _ | .resize | .refill1 => s.newBuffer1 = none ∧ Refillable s
  | .refill2 => Spare s.newBuffer1 ∧ (s.newBuffer2 = none ∧ s.buffersToWrite ≠ [] ∨ Spare s.newBuffer2)
  | .clear => Spare s.newBuffer1 ∧ Spare s.newBuffer2

structure Inv (s : St) : Prop where
  noFault : s.fault = none
  current : s.currentBuffer ≠ none
  next : s.nextBuffer = none → s.buffers ≠ []
  nextSpare : ∀ b, s.nextBuffer = some b → b.data = []
  full : none ∉ s.buffers
  written : none ∉ s.buffersToWrite
  locals : Locals s
  /-- the owner is in start() until the back-end has counted the latch down -/
  handshake : s.owner = .starting → s.running = true
  latch : s.pc = .entry → s.latch = 1 ∧ s.owner = .starting
  idle : s.owner = .constructed → s.pc = .notStarted ∧ s.latch = 1

theorem inv_init : Inv init := by
  constructor <;> simp [init, Locals, FixedBuffer.new]

theorem append_inv (s : St) (logline : Bytes) (len : ℤ) (h : Inv s) : Inv (append s logline len) := by
  obtain ⟨cur, hcur⟩ := Option.ne_none_iff_exists'.1 h.current
  have hlocals := h.locals
  simp only [append, hcur]
  split_ifs
  · exact { h with current := by simp, locals := hlocals }
  · refine { h with current := by simp, next := by simp, nextSpare := by simp, full := ?_, locals := hlocals }
    intro hm
    rcases List.mem_append.1 hm with hm | hm
    · exact h.full hm
    · simp at hm

/-- the swap, from either point at which the back-end holds the mutex -/
theorem swap_inv (s : St) (h : Inv s) (h1 : Spare s.newBuffer1) (h2 : Spare s.newBuffer2)
    (hw : s.buffersToWrite = []) : Inv (swapBuffers s) := by
  obtain ⟨cur, hcur⟩ := Option.ne_none_iff_exists'.1 h.current
  have hfull : none ∉ s.buffers ++ [s.currentBuffer] := by
    rw [hcur]; intro hm
    rcases List.mem_append.1 hm with hm | hm
    · exact h.full hm
    · simp at hm
  refine { noFault := h.noFault, current := ?_, next := ?_, nextSpare := ?_, full := ?_, written := hfull,
           locals := ?_, handshake := h.handshake, latch := by simp [swapBuffers], idle := ?_ }
  · simp only [swapBuffers]; rw [h1]; simp
  · simp only [swapBuffers]
    cases hn : s.nextBuffer with
    | none => simp [h2.eq]
    | some b => simp
  · simp only [swapBuffers]
    cases hn : s.nextBuffer with
    | none => rw [h2.eq]; simp
    | some b => simpa [hn] using h.nextSpare b hn
  · simp only [swapBuffers]; rw [hw]; simp
  · -- newBuffer2 was given away only if nextBuffer was missing, and then buffers was not empty
    refine And.intro rfl (And.intro (by simp [swapBuffers]) ?_)
    simp only [swapBuffers]
    cases hn : s.nextBuffer with
    | none =>
      left
      have := List.length_pos_iff.2 (h.next hn)
      exact ⟨by simp, by simp; omega⟩
    | some b => right; simpa using h2
  · intro ho
    have := (h.idle ho).1
    have hl := h.locals
    simp only [Locals, this] at hl
    rw [hl.1] at h1; cases h1

/-- recycling the last taken buffer succeeds as long as one is left -/
theorem takeBack_ok (s : St) (hne : s.buffersToWrite ≠ []) (hw : none ∉ s.buffersToWrite) :
    takeBack s = .ok (⟨[]⟩, s.buffersToWrite.dropLast) := by
  unfold takeBack
  rw [List.getLast?_eq_some_getLast hne]
  cases hb : s.buffersToWrite.getLast hne with
  | none => exact absurd (hb ▸ List.getLast_mem hne) hw
  | some b => rfl

theorem refillable_take (s : St) (h : Refillable s) :
    s.buffersToWrite.take 2 ≠ [] ∧
      (s.newBuffer2 = none ∧ 2 ≤ (s.buffersToWrite.take 2).length ∨ Spare s.newBuffer2) := by
  obtain ⟨hne, h2⟩ := h
  have hpos := List.length_pos_iff.2 hne
  refine ⟨List.length_pos_iff.1 (by simp; omega), ?_⟩
  rcases h2 with ⟨hn, hlen⟩ | hs
  · exact Or.inl ⟨hn, by simp; omega⟩
  · exact Or.inr hs

/-- a step of the back-end outside the swap leaves the front end's buffers, running_ and the owner alone -/
theorem Inv.back {s t : St} (h : Inv s) (hstarted : s.pc ≠ .notStarted) (hlocals : Locals t)
    (hwritten : none ∉ t.buffersToWrite) (hentry : t.pc ≠ .entry) (hfault : t.fault = s.fault)
    (hcurrent : t.currentBuffer = s.currentBuffer) (hnext : t.nextBuffer = s.nextBuffer) (hbuffers : t.buffers = s.buffers)
    (hrunning : t.running = s.running) (howner : t.owner = s.owner) : Inv t where
  noFault := by rw [hfault]; exact h.noFault
  current := by rw [hcurrent]; exact h.current
  next := by rw [hnext, hbuffers]; exact h.next
  nextSpare := by rw [hnext]; exact h.nextSpare
  full := by rw [hbuffers]; exact h.full
  written := hwritten
  locals := hlocals
  handshake := by rw [howner, hrunning]; exact h.handshake
  latch := fun hpc => absurd hpc hentry
  idle := by
    intro ho
    rw [howner] at ho
    exact absurd (h.idle ho).1 hstarted

variable {s t : St} {now : Timestamp}

/-- the asserts at the loop head hold -/
theorem head_inv (h : Inv s) (hpc : s.pc = .head) (hb : back s now = some t) : Inv t := by
  have hl := h.locals
  simp only [Locals, hpc] at hl
  obtain ⟨h1, h2, hw⟩ := hl
  have hempty : (emptyBuffer s.newBuffer1 && emptyBuffer s.newBuffer2 && s.buffersToWrite.isEmpty) = true := by
    rw [h1.eq, h2.eq, hw]; rfl
  simp only [back, hpc] at hb
  rw [if_pos hempty] at hb
  cases hb
  exact h.back (by simp [hpc]) (And.intro h1 (And.intro h2 hw)) h.written (by simp) rfl rfl rfl rfl rfl rfl

/-- no pointer in the write loop is null -/
theorem writing_inv {i : ℕ} (h : Inv s) (hpc : s.pc = .writing i) (hb : back s now = some t) : Inv t := by
  have hl := h.locals
  simp only [Locals, hpc] at hl
  simp only [back, hpc] at hb
  split at hb
  · cases hb
    exact h.back (by simp [hpc]) hl h.written (by simp) rfl rfl rfl rfl rfl rfl
  · rename_i hi; exact absurd (List.mem_of_getElem? hi) h.written
  · cases hb
    exact h.back (by simp [hpc]) hl h.written (by simp) rfl rfl rfl rfl rfl rfl

theorem resize_inv (h : Inv s) (hpc : s.pc = .resize) (hb : back s now = some t) : Inv t := by
  have hl := h.locals
  simp only [Locals, hpc] at hl
  simp only [back, hpc, Option.some.injEq] at hb
  subst hb
  refine h.back (by simp [hpc]) (And.intro hl.1 ?_) ?_ (by simp) rfl rfl rfl rfl rfl rfl
  · unfold Refillable
    split_ifs
    · exact refillable_take s hl.2
    · exact hl.2
  · split_ifs
    · exact fun hm => h.written (List.mem_of_mem_take hm)
    · exact h.written

/-- the first refill leaves a buffer for the second one, if that has to refill too -/
theorem refill1_inv (h : Inv s) (hpc : s.pc = .refill1) (hb : back s now = some t) : Inv t := by
  have hl := h.locals
  simp only [Locals, hpc] at hl
  obtain ⟨h1, hne, h2⟩ := hl
  simp only [back, hpc, h1, Option.isNone_none, ite_true, takeBack_ok s hne h.written, Option.some.injEq] at hb
  subst hb
  refine h.back (by simp [hpc]) (And.intro rfl ?_) (fun hm => h.written (List.mem_of_mem_dropLast hm)) (by simp)
    rfl rfl rfl rfl rfl rfl
  rcases h2 with ⟨hn, hlen⟩ | hs
  · exact Or.inl ⟨hn, List.length_pos_iff.1 (by simp; omega)⟩
  · exact Or.inr hs

theorem refill2_inv (h : Inv s) (hpc : s.pc = .refill2) (hb : back s now = some t) : Inv t := by
  have hl := h.locals
  simp only [Locals, hpc] at hl
  obtain ⟨h1, ⟨hn, hne⟩ | hs⟩ := hl
  · simp only [back, hpc, hn, Option.isNone_none, ite_true, takeBack_ok s hne h.written, Option.some.injEq] at hb
    subst hb
    exact h.back (by simp [hpc]) (And.intro h1 rfl) (fun hm => h.written (List.mem_of_mem_dropLast hm)) (by simp)
      rfl rfl rfl rfl rfl rfl
  · have hsome : ¬ s.newBuffer2.isNone = true := by rw [hs.eq]; simp
    simp only [back, hpc] at hb
    rw [if_neg hsome] at hb
    cases hb
    exact h.back (by simp [hpc]) (And.intro h1 hs) h.written (by simp) rfl rfl rfl rfl rfl rfl

theorem back_inv (s t : St) (now : Timestamp) (h : Inv s) (hb : back s now = some t) : Inv t := by
  have hl := h.locals
  have hstep := hb
  unfold back at hb
  cases hpc : s.pc with
  | notStarted => simp [hpc] at hb
  | entry =>
    have hrun := h.handshake (h.latch hpc).2
    simp only [hpc] at hb
    rw [if_pos hrun] at hb
    simp only [Locals, hpc] at hl
    cases hb
    exact h.back (by simp [hpc]) hl h.written (by simp) rfl rfl rfl rfl rfl rfl
  | setup =>
    simp only [hpc, Option.some.injEq] at hb
    subst hb
    exact h.back (by simp [hpc]) (And.intro rfl (And.intro rfl rfl)) (by simp) (by simp) rfl rfl rfl rfl rfl rfl
  | test =>
    simp only [hpc, Option.some.injEq] at hb
    simp only [Locals, hpc] at hl
    subst hb
    refine h.back (by simp [hpc]) ?_ h.written ?_ rfl rfl rfl rfl rfl rfl
    · cases s.running <;> exact hl
    · cases s.running <;> simp
  | head => exact head_inv h hpc hstep
  | lock =>
    simp only [Locals, hpc] at hl
    simp only [hpc] at hb
    split_ifs at hb
    · cases hb
      exact h.back (by simp [hpc]) hl h.written (by simp) rfl rfl rfl rfl rfl rfl
    · cases hb; exact swap_inv s h hl.1 hl.2.1 hl.2.2
  | waiting =>
    simp only [Locals, hpc] at hl
    simp only [hpc, Option.some.injEq] at hb
    subst hb; exact swap_inv s h hl.1 hl.2.1 hl.2.2
  | taken =>
    simp only [Locals, hpc] at hl
    simp only [hpc, List.isEmpty_iff, hl.2.1, ite_false] at hb
    split_ifs at hb <;> cases hb
    · exact h.back (by simp [hpc]) hl h.written (by simp) rfl rfl rfl rfl rfl rfl
    · exact h.back (by simp [hpc]) hl h.written (by simp) rfl rfl rfl rfl rfl rfl
  | dropping =>
    simp only [Locals, hpc] at hl
    simp only [hpc, Option.some.injEq] at hb
    subst hb
    exact h.back (by simp [hpc]) (And.intro hl.1 (refillable_take s hl.2)) (fun hm => h.written (List.mem_of_mem_take hm))
      (by simp) rfl rfl rfl rfl rfl rfl
  | writing i => exact writing_inv h hpc hstep
  | resize => exact resize_inv h hpc hstep
  | refill1 => exact refill1_inv h hpc hstep
  | refill2 => exact refill2_inv h hpc hstep
  | clear =>
    simp only [Locals, hpc] at hl
    simp only [hpc, Option.some.injEq] at hb
    subst hb
    exact h.back (by simp [hpc]) (And.intro hl.1 (And.intro hl.2 rfl)) (by simp) (by simp) rfl rfl rfl rfl rfl rfl
  | exit =>
    simp only [Locals, hpc] at hl
    simp only [hpc, Option.some.injEq] at hb
    subst hb
    exact h.back (by simp [hpc]) hl h.written (by simp) rfl rfl rfl rfl rfl rfl
  | done => simp [hpc] at hb

theorem step_inv (s : St) (o : Op) (t : St) (h : Inv s) (hst : step s o = some t) : Inv t := by
  have hl := h.locals
  unfold step at hst
  rw [if_neg (by simp [h.noFault])] at hst
  cases o with
  | append logline len => cases hst; exact append_inv s logline len h
  | start =>
    simp only [Option.ite_none_right_eq_some, Option.some.injEq] at hst
    obtain ⟨ho, rfl⟩ := hst
    obtain ⟨hpc, hlatch⟩ := h.idle ho
    simp only [Locals, hpc] at hl
    exact { h with locals := hl, handshake := fun _ => rfl, latch := fun _ => ⟨hlatch, rfl⟩, idle := by simp }
  | startReturn =>
    simp only [Option.ite_none_right_eq_some, Option.some.injEq] at hst
    obtain ⟨⟨_, h0⟩, rfl⟩ := hst
    exact { h with
      locals := hl, handshake := by simp, latch := fun hp => absurd (h.latch hp).1 (by omega), idle := by simp }
  | stop | notify =>
    simp only [Option.ite_none_right_eq_some, Option.some.injEq] at hst
    obtain ⟨ho, rfl⟩ := hst
    exact { h with
      locals := hl, handshake := by simp, latch := fun hp => absurd (h.latch hp).2 (by simp [ho]), idle := by simp }
  | join =>
    simp only [Option.ite_none_right_eq_some, Option.some.injEq] at hst
    obtain ⟨⟨ho, _⟩, rfl⟩ := hst
    exact { h with
      locals := hl, handshake := by simp, latch := fun hp => absurd (h.latch hp).2 (by simp [ho]), idle := by simp }
  | back now => exact back_inv s t now h hst

/-- **Rotation is safe.** In every state that appends of any length and the back-end's steps reach: nothing has failed,
currentBuffer is present, nextBuffer is missing only while buffers is not empty, the loop head finds two empty spares
and nothing to write, and a swap took at least one buffer, two where newBuffer2 was given away. -/
theorem rotation_safe (ops : List Op) (s : St) (h : Machine.run step init ops = some s) :
    s.fault = none ∧ s.currentBuffer ≠ none ∧ (s.nextBuffer = none → s.buffers ≠ []) ∧
      (s.pc = .head → Spare s.newBuffer1 ∧ Spare s.newBuffer2 ∧ s.buffersToWrite = []) ∧
      (s.pc = .taken → s.buffersToWrite ≠ [] ∧ (s.newBuffer2 = none → 2 ≤ s.buffersToWrite.length)) := by
  have hinv : Inv s := Machine.run_inv step_inv inv_init h
  have hl := hinv.locals
  refine ⟨hinv.noFault, hinv.current, hinv.next, ?_, ?_⟩
  · intro hp
    simp only [Locals, hp] at hl; exact hl
  · intro hp
    simp only [Locals, hp] at hl
    obtain ⟨-, hne, ⟨-, hlen⟩ | hs⟩ := hl
    · exact ⟨hne, fun _ => hlen⟩
    · exact ⟨hne, fun hn => by rw [hs.eq] at hn; cases hn⟩

/-- a line that no buffer can hold still rotates the buffers; the next swap then takes two and gives newBuffer2 away -/
def rotateTrace : List Op :=
  [.append [] 4000000, .start, .back ⟨0⟩, .startReturn, .back ⟨0⟩, .back ⟨0⟩, .back ⟨0⟩, .back ⟨0⟩]

theorem rotation_safe_two : ∃ s, Machine.run step init rotateTrace = some s ∧ s.newBuffer2 = none ∧ s.fault = none ∧
    2 ≤ s.buffersToWrite.length := by
  have hrun : (Machine.run step init rotateTrace).map (fun s => (s.pc, s.newBuffer2)) = some (.taken, none) := by
    decide +kernel
  obtain ⟨s, hs, hpair⟩ := Option.map_eq_some_iff.1 hrun
  obtain ⟨hpc, hn⟩ := Prod.mk.inj hpair
  obtain ⟨hf, -, -, -, ht⟩ := rotation_safe rotateTrace s hs
  exact ⟨s, hs, hn, hf, (ht hpc).2 hn⟩

end Glacier.AsyncLogging
