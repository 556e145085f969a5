/-
Stopping the asynchronous logger: which lines are handed over when stop() returns.

The loop of threadFunc tests `running_` once an iteration, before its swap, and after the loop nothing more is taken:
what stands in `buffers` and `currentBuffer` when the loop ends stays there. Whether stop() loses lines is decided at
its store `running_ = false`, by where the back-end stands then.
- `stop_hands_all_iff`: with no append after the store and no overload, everything appended has been handed over when
  stop() returns if and only if, at the store, the back-end had passed the loop test and not yet swapped, or the front
  end held nothing.
- `stop_loses_line`: a line appended after the swap of the running iteration, with stop() called during its write
  phase, is never handed over.
-/
import Glacier.Base.LogConservation

namespace Glacier.AsyncLogging

open Cxx

/-- the bytes that the front end holds: in full buffers and in the current one -/
def front (s : St) : Bytes := (contents s.buffers).flatten ++ bytes s.currentBuffer

/-- the back-end has passed the test of `running_` and has not swapped in this iteration yet -/
def beforeSwap : Pc → Bool
  | .head | .lock | .waiting => true
  | _ => false

/-- every appended line has been handed to the LogFile, in order -/
def AllHanded (s : St) : Prop := s.output.flatten = s.lines.flatten

def IsAppend : Op → Prop
  | .append _ _ => True
  | _ => False

/-- what is true from the store on, of a run that stored in state `s` -/
structure Stopping (s x : St) : Prop where
  log : LogInv x
  running : x.running = false
  owner : x.owner ≠ .constructed
  joined : x.owner = .stopped → x.pc = .done
  /-- a swap that is still to come takes everything -/
  drains : beforeSwap s.pc = true → beforeSwap x.pc = true ∨ front x = []
  /-- without one the front end keeps what it has -/
  keeps : beforeSwap s.pc = false → beforeSwap x.pc = false ∧ front x = front s

theorem swap_front (s : St) (h1 : Spare s.newBuffer1) (hw : s.buffersToWrite = []) : front (swapBuffers s) = [] := by
  simp [front, swapBuffers, hw, contents, bytes, h1.eq]

/-- one back-end step once `running_` is false: no iteration is begun, and a pending swap empties the front end -/
theorem back_stopping (x y : St) (now : Timestamp) (h : LogInv x) (hrun : x.running = false)
    (hb : back x now = some y) :
    y.running = false ∧ y.owner = x.owner ∧ x.pc ≠ .done ∧
      (beforeSwap x.pc = true ∧ (beforeSwap y.pc = true ∧ front y = front x ∨ front y = []) ∨
        beforeSwap x.pc = false ∧ beforeSwap y.pc = false ∧ front y = front x) := by
  have hl := h.inv.locals
  have ht := (back_inv x y now h.inv hb).noFault
  unfold back at hb
  cases hpc : x.pc with
  | notStarted => simp [hpc] at hb
  | done => simp [hpc] at hb
  | lock =>
    simp only [Locals, hpc] at hl
    simp only [hpc] at hb
    split_ifs at hb <;> cases hb
    · exact ⟨hrun, rfl, by simp, Or.inl ⟨rfl, Or.inl ⟨rfl, rfl⟩⟩⟩
    · exact ⟨hrun, rfl, by simp, Or.inl ⟨rfl, Or.inr (swap_front x hl.1 hl.2.2)⟩⟩
  | waiting =>
    simp only [Locals, hpc] at hl
    simp only [hpc] at hb
    cases hb
    exact ⟨hrun, rfl, by simp, Or.inl ⟨rfl, Or.inr (swap_front x hl.1 hl.2.2)⟩⟩
  | head =>
    simp only [hpc] at hb
    split_ifs at hb <;> cases hb
    · exact ⟨hrun, rfl, by simp, Or.inl ⟨rfl, Or.inl ⟨rfl, rfl⟩⟩⟩
    · simp at ht
  | test =>
    simp only [hpc, hrun] at hb
    cases hb
    exact ⟨rfl, rfl, by simp, Or.inr ⟨rfl, rfl, rfl⟩⟩
  | _ =>
    simp only [hpc] at hb
    repeat' split at hb
    all_goals first
      | (cases hb; simp at ht; done)
      | (cases hb; exact ⟨hrun, rfl, by simp, Or.inr ⟨rfl, rfl, rfl⟩⟩)

theorem step_stopping (s x : St) (o : Op) (y : St) (h : Stopping s x) (ho : ¬ IsAppend o)
    (hst : step x o = some y) : Stopping s y := by
  have hlog : LogInv y := step_logInv x o y h.log (by cases o <;> simp_all [LineOk, IsAppend]) hst
  unfold step at hst
  rw [if_neg (by simp [h.log.inv.noFault])] at hst
  cases o with
  | append logline len => exact absurd trivial ho
  | start =>
    simp only [Option.ite_none_right_eq_some] at hst
    exact absurd hst.1 h.owner
  | back now =>
    obtain ⟨hrun, hown, hpc, hcase⟩ := back_stopping x y now h.log h.running hst
    refine ⟨hlog, hrun, hown ▸ h.owner, fun hs => absurd (h.joined (hown ▸ hs)) hpc, ?_, ?_⟩
    · intro hb
      rcases hcase with ⟨-, ⟨hy, -⟩ | hy⟩ | ⟨hx, -, hf⟩
      · exact Or.inl hy
      · exact Or.inr hy
      · rcases h.drains hb with hx' | hx'
        · rw [hx] at hx'; cases hx'
        · exact Or.inr (hf.trans hx')
    · intro hb
      obtain ⟨hx, hfx⟩ := h.keeps hb
      rcases hcase with ⟨hx', -⟩ | ⟨-, hy, hf⟩
      · rw [hx] at hx'; cases hx'
      · exact ⟨hy, hf.trans hfx⟩
  | join =>
    simp only [Option.ite_none_right_eq_some, Option.some.injEq] at hst
    obtain ⟨⟨-, hd⟩, rfl⟩ := hst
    exact ⟨hlog, h.running, by simp, fun _ => hd, h.drains, h.keeps⟩
  | stop =>
    simp only [Option.ite_none_right_eq_some, Option.some.injEq] at hst
    obtain ⟨-, rfl⟩ := hst
    exact ⟨hlog, rfl, by simp, by simp, h.drains, h.keeps⟩
  | startReturn | notify =>
    simp only [Option.ite_none_right_eq_some, Option.some.injEq] at hst
    obtain ⟨-, rfl⟩ := hst
    exact ⟨hlog, h.running, by simp, by simp, h.drains, h.keeps⟩

/-- **Stopping hands everything over exactly when the store finds a swap still to come or nothing to take.** -/
theorem stop_hands_all_iff (before after : List Op) (s t u : St) (hlines : ∀ o ∈ before, LineOk o)
    (hs : Machine.run step init before = some s) (hstop : step s .stop = some t) (hafter : ∀ o ∈ after, ¬ IsAppend o)
    (hu : Machine.run step t after = some u) (hret : u.owner = .stopped) (hno : NoOverload u) :
    AllHanded u ↔ beforeSwap s.pc = true ∨ front s = [] := by
  have hlog : LogInv s := run_logInv logInv_init hlines hs
  have ht : Stopping s t := by
    have hlogt : LogInv t := step_logInv s .stop t hlog trivial hstop
    unfold step at hstop
    rw [if_neg (by simp [hlog.inv.noFault])] at hstop
    simp only [Option.ite_none_right_eq_some, Option.some.injEq] at hstop
    obtain ⟨-, rfl⟩ := hstop
    exact ⟨hlogt, rfl, by simp, by simp, Or.inl, fun hb => ⟨hb, rfl⟩⟩
  have hfin : Stopping s u :=
    Machine.run_inv_of_meets (step_stopping s) ht (Machine.meets_of_forall hafter) hu
  have hdone := hfin.joined hret
  -- nothing is in flight in the back-end, so what is not handed over is what the front end holds
  have hflat : u.output.flatten ++ front u = u.lines.flatten := by
    have := log_conserved_flat u hfin.log.conserved hno
    simpa [unwritten, hdone, front] using this
  have hall : AllHanded u ↔ front u = [] := by
    unfold AllHanded; rw [← hflat]; simp
  rw [hall]
  cases hb : beforeSwap s.pc with
  | true =>
    rcases hfin.drains hb with hx | hx
    · rw [hdone] at hx; cases hx
    · simp [hx]
  | false => simp [(hfin.keeps hb).2]

/-- the back-end has taken the (empty) current buffer when the line is appended -/
def lossBefore : List Op :=
  [.start, .back ⟨0⟩, .startReturn, .back ⟨0⟩, .back ⟨0⟩, .back ⟨0⟩, .back ⟨0⟩, .back ⟨0⟩, .append (ascii "a") 1]

def lossAfter : List Op := .notify :: List.replicate 9 (.back ⟨0⟩) ++ [.join]

theorem lossBefore_ok : ∀ o ∈ lossBefore, LineOk o := by
  have hlen : (ascii "a").length = 1 := by decide
  simp [lossBefore, LineOk, hlen, kLargeBuffer]

/-- **The loss**: stop() returns, every append had returned before it, no iteration was overloaded, and the line was
never handed over. -/
theorem stop_loses_line : ∃ s t u, Machine.run step init lossBefore = some s ∧ (∀ o ∈ lossBefore, LineOk o) ∧
    step s .stop = some t ∧ (∀ o ∈ lossAfter, ¬ IsAppend o) ∧ Machine.run step t lossAfter = some u ∧
    u.owner = .stopped ∧ NoOverload u ∧ u.lines = [ascii "a"] ∧ u.output = [[]] ∧ ¬ AllHanded u := by
  have hrun : (Machine.run step init (lossBefore ++ .stop :: lossAfter)).map
      (fun u => (u.owner, u.lines, u.output, u.now, u.past)) =
      some (.stopped, [ascii "a"], [[]], ⟨[], []⟩, [⟨[[]], [[]]⟩]) := by decide +kernel
  obtain ⟨u, hu, htup⟩ := Option.map_eq_some_iff.1 hrun
  obtain ⟨s, hs, hu⟩ := Machine.run_append.1 hu
  obtain ⟨t, ht, hu⟩ := Machine.run_cons.1 hu
  simp only [Prod.mk.injEq] at htup
  obtain ⟨hown, hl, ho, hnow, hpast⟩ := htup
  refine ⟨s, t, u, hs, lossBefore_ok, ht, ?_, hu, hown, ?_, hl, ho, ?_⟩
  · simp [lossAfter, IsAppend]
  · simp [NoOverload, hnow, hpast]
  · have hne : ascii "a" ≠ [] := by decide
    simpa [AllHanded, hl, ho] using hne.symm

/-- the same line with the store at the loop head: the pending swap takes it -/
def drainBefore : List Op :=
  [.start, .back ⟨0⟩, .startReturn, .back ⟨0⟩, .back ⟨0⟩, .append (ascii "a") 1]

def drainAfter : List Op := .notify :: List.replicate 12 (.back ⟨0⟩) ++ [.join]

theorem stop_hands_all_drain : ∃ u, Machine.run step init (drainBefore ++ .stop :: drainAfter) = some u ∧
    u.owner = .stopped ∧ AllHanded u := by
  have hrun : (Machine.run step init (drainBefore ++ .stop :: drainAfter)).map
      (fun u => (u.owner, u.now, u.past)) = some (.stopped, ⟨[], []⟩, [⟨[ascii "a"], [ascii "a"]⟩]) := by
    decide +kernel
  have hhead : (Machine.run step init drainBefore).map St.pc = some .head := by decide +kernel
  have hlen : (ascii "a").length = 1 := by decide
  obtain ⟨u, hu, htup⟩ := Option.map_eq_some_iff.1 hrun
  obtain ⟨s, hs, hu'⟩ := Machine.run_append.1 hu
  obtain ⟨t, ht, hu'⟩ := Machine.run_cons.1 hu'
  simp only [Prod.mk.injEq] at htup
  obtain ⟨hown, hnow, hpast⟩ := htup
  have hpc : s.pc = .head := by simpa [hs] using hhead
  refine ⟨u, hu, hown, (stop_hands_all_iff drainBefore drainAfter s t u ?_ hs ht ?_ hu' hown ?_).2 (Or.inl ?_)⟩
  · simp [drainBefore, LineOk, hlen, kLargeBuffer]
  · simp [drainAfter, IsAppend]
  · simp [NoOverload, hnow, hpast]
  · rw [hpc]; rfl

end Glacier.AsyncLogging
