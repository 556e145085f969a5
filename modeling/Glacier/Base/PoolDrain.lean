/-
Which tasks the thread pool has executed when its destructor returns.

The outer `while (!stoped_)` ends a worker after its current task even if the queue still holds tasks; only the inner
`if` looks at the queue. So a worker takes at most one task after the store of stoped_, and none if it stands before
the outer test or in a task at the store.
- `never_front_empty`: no worker calls front() on an empty queue.
- `drains_iff`: the tasks committed before the store have all been executed when the destructor returns if and only if,
  at the store, those not yet taken are no more than the workers that stand between the outer test and their pop.
- `second_task_lost`: one worker, two tasks, and the destructor while the first one runs.
-/
import Glacier.Base.ThreadPool

namespace Glacier.ThreadPool

open Threads

variable {n : ℕ} {κ τ : Type}

/-- the task that a worker has taken and not completed -/
def Pc.held : Pc τ → Multiset τ
  | .running task => {task}
  | _ => 0

/-- the worker is past the outer test and has not taken a task since -/
def Pc.inside : Pc τ → ℕ
  | .test | .running _ | .exited => 0
  | _ => 1

/-- the workers that can still take one task each once stoped_ is set -/
def inside (s : St n κ τ) : ℕ := total Pc.inside s.workers

/-! ## The queue and its history -/

structure Ledger (s : St n κ τ) : Prop where
  /-- the queue is first in, first out -/
  queue : s.pushed = s.taken ++ s.tasks
  /-- a taken task has been completed or is being run -/
  once : (s.executed : Multiset τ) + total Pc.held s.workers = s.taken
  calls : ∀ q i, s.calls q = .unlocked i ∨ s.calls q = .locked i → i < s.pushed.length
  positions : ∀ i ∈ s.returned, i < s.pushed.length

theorem ledger_init : Ledger (init : St n κ τ) where
  queue := rfl
  once := by
    rw [total_eq_zero]
    · rfl
    · intro w; rfl
  calls := by simp [init]
  positions := by simp [init]

/-- a worker that neither takes nor completes a task -/
theorem Ledger.move {s : St n κ τ} (h : Ledger s) (w : Fin n) {p : Pc τ} (hp : p.held = (s.workers w).held) :
    Ledger (setWorker s w p) := by
  refine { h with once := ?_ }
  rw [setWorker, total_update_of_eq hp]
  exact h.once

theorem Ledger.notified {s x : St n κ τ} (h : Ledger s) (hx : Notified s x) : Ledger x := by
  cases hx with
  | none => exact h
  | woke w hpc => exact h.move w (by rw [hpc]; rfl)

variable [DecidableEq κ]

theorem Ledger.returns {s : St n κ τ} (h : Ledger s) {q : κ} {i : ℕ}
    (hc : s.calls q = .unlocked i ∨ s.calls q = .locked i) : Ledger (returns s q i) := by
  refine { h with calls := ?_, positions := ?_ }
  · intro r j hr
    simp only [ThreadPool.returns, setCall, Function.update_apply] at hr
    split_ifs at hr
    · simp at hr
    · exact h.calls r j hr
  · intro j hj
    rcases List.mem_cons.1 hj with rfl | hj
    · exact h.calls q j hc
    · exact h.positions j hj

/-- a push, by either commit -/
theorem Ledger.push {s : St n κ τ} (h : Ledger s) (q : κ) (task : τ) {c : Call τ}
    (hc : c = .unlocked s.pushed.length ∨ c = .locked s.pushed.length) : Ledger (setCall (pushTask s task) q c) := by
  refine { queue := ?_, once := h.once, calls := ?_, positions := ?_ }
  · simp [setCall, pushTask, h.queue]
  · intro r j hr
    simp only [setCall, pushTask, Function.update_apply, List.length_append, List.length_singleton] at hr ⊢
    split_ifs at hr
    · rcases hc with rfl | rfl <;> simp at hr <;> omega
    · exact Nat.lt_succ_of_lt (h.calls r j hr)
  · intro j hj
    have := h.positions j hj
    simp only [setCall, pushTask, List.length_append, List.length_singleton]
    omega

theorem step_ledger (hn : 0 < n) (s : St n κ τ) (o : Op n κ τ) (t : St n κ τ) (h : Ledger s)
    (hst : step s o = some t) : Ledger t := by
  cases stepped hst with
  | take w task rest hpc ht =>
    refine { queue := ?_, once := ?_, calls := h.calls, positions := h.positions }
    · simp [setWorker, h.queue, ht]
    · have hsum := sum_update Pc.held s.workers w (.running task)
      rw [hpc] at hsum
      simp only [Pc.held, add_zero] at hsum
      simp only [setWorker, hsum]
      rw [← add_assoc, h.once, ← Multiset.coe_singleton, Multiset.coe_add]
  | finish w task hpc =>
    refine { h with once := ?_ }
    have hsum := sum_update Pc.held s.workers w .test
    rw [hpc] at hsum
    simp only [Pc.held, add_zero] at hsum
    have honce := h.once
    rw [← hsum, ← add_assoc] at honce
    simp only [setWorker]
    rw [← honce, ← Multiset.coe_add, Multiset.coe_singleton]
    exact add_right_comm _ _ _
  | stop w hpc | enter w hpc | holds w hpc | fails w hpc => exact h.move w (by rw [hpc]; rfl)
  | wake w hpc => exact h.move w (by rw [hpc]; rfl)
  | acquire w hpc =>
    have := h.move w (p := .pred) (by rcases hpc with hpc | hpc <;> rw [hpc] <;> rfl)
    exact { this with }
  | block w hpc | leave w hpc =>
    refine { h with once := ?_ }
    rw [setWorker, total_update_of_eq (by rw [hpc]; rfl)]
    exact h.once
  | throws => exact h
  | tests q task hc =>
    refine { h with calls := ?_ }
    intro r j hr
    simp only [setCall, Function.update_apply] at hr
    split_ifs at hr
    · simp at hr
    · exact h.calls r j hr
  | push q task => exact h.push q task (Or.inl rfl)
  | inline q task h0 => omega
  | commit q task =>
    have := h.push q task (Or.inr rfl)
    exact { this with }
  | notify q i target x hx hc =>
    refine (h.notified hx).returns (Or.inl ?_)
    cases hx <;> exact hc
  | unlock q i target x hx hc =>
    have : Ledger (returns x q i) := by
      refine (h.notified hx).returns (Or.inr ?_)
      cases hx <;> exact hc
    exact { this with }
  | notifyAll =>
    refine { h with once := ?_ }
    rw [← h.once]
    congr 1
    apply total_congr
    intro w
    dsimp only
    cases s.workers w <;> rfl
  | store | joined | returned => exact { h with }

/-! ## The mutex -/

/-- the worker has the mutex -/
def Pc.locks : Pc τ → Bool
  | .pred | .sleep | .take => true
  | _ => false

/-- the committing thread has the mutex -/
def Call.locks : Call τ → Bool
  | .locked _ => true
  | _ => false

structure Mutex (s : St n κ τ) : Prop where
  worker : ∀ w, (s.workers w).locks = true ↔ s.mtx = some (.inl w)
  caller : ∀ q, (s.calls q).locks = true ↔ s.mtx = some (.inr q)
  /-- what the predicate of the wait has found still stands -/
  ready : ∀ w, s.workers w = .take → s.stoped = true ∨ s.tasks ≠ []

omit [DecidableEq κ] in
/-- a worker that keeps what it has of the mutex and does not come to the `if` -/
theorem Mutex.move {s : St n κ τ} (h : Mutex s) (w : Fin n) {p : Pc τ} (hp : p.locks = (s.workers w).locks)
    (ht : p = .take → s.stoped = true ∨ s.tasks ≠ []) : Mutex (setWorker s w p) := by
  refine { h with worker := ?_, ready := ?_ }
  · intro v
    simp only [setWorker, Function.update_apply]
    split_ifs with hv
    · subst hv; rw [hp]; exact h.worker v
    · exact h.worker v
  · intro v hv
    simp only [setWorker, Function.update_apply] at hv ⊢
    split_ifs at hv
    · exact ht hv
    · exact h.ready v hv

omit [DecidableEq κ] in
/-- a worker that releases the mutex, whatever becomes of the queue -/
theorem Mutex.release {s : St n κ τ} (h : Mutex s) (w : Fin n) (hw : (s.workers w).locks = true) {p : Pc τ}
    (hp : p.locks = false) (rest : List τ) : Mutex { setWorker s w p with mtx := none, tasks := rest } := by
  have hmtx := (h.worker w).1 hw
  have hother : ∀ v, v ≠ w → (s.workers v).locks = false := by
    intro v hv
    cases hl : (s.workers v).locks with
    | false => rfl
    | true =>
      rw [(h.worker v).1 hl] at hmtx
      cases hmtx
      exact absurd rfl hv
  have hnone : ∀ v, (Function.update s.workers w p v).locks = false := by
    intro v
    rw [Function.update_apply]
    split_ifs with hv
    · exact hp
    · exact hother v hv
  refine { worker := ?_, caller := ?_, ready := ?_ }
  · intro v; simp [setWorker, hnone v]
  · intro q
    have := h.caller q
    rw [hmtx] at this
    simpa [setWorker] using this
  · intro v hv
    have := hnone v
    simp only [setWorker] at hv
    rw [hv] at this
    cases this

omit [DecidableEq κ] in
theorem Mutex.notified {s x : St n κ τ} (h : Mutex s) (hx : Notified s x) : Mutex x := by
  cases hx with
  | none => exact h
  | woke w hpc => exact h.move w (by rw [hpc]; rfl) (fun hc => by cases hc)

/-- a committing thread that keeps what it has of the mutex -/
theorem Mutex.call {s : St n κ τ} (h : Mutex s) (q : κ) {c : Call τ} (hc : c.locks = (s.calls q).locks) :
    Mutex (setCall s q c) := by
  refine { h with caller := ?_ }
  intro r
  simp only [setCall, Function.update_apply]
  split_ifs with hr
  · subst hr; rw [hc]; exact h.caller r
  · exact h.caller r

omit [DecidableEq κ] in
theorem Mutex.push {s : St n κ τ} (h : Mutex s) (task : τ) : Mutex (pushTask s task) :=
  { h with ready := fun _ _ => Or.inr (by simp [pushTask]) }

theorem step_mutex (s : St n κ τ) (o : Op n κ τ) (t : St n κ τ) (h : Mutex s) (hst : step s o = some t) : Mutex t := by
  cases stepped hst with
  | stop w hpc | enter w hpc => exact h.move w (by rw [hpc]; rfl) (fun hc => by cases hc)
  | wake w hpc => exact h.move w (by rw [hpc]; rfl) (fun hc => by cases hc)
  | holds w hpc hp => exact h.move w (by rw [hpc]; rfl) (fun _ => hp)
  | fails w hpc => exact h.move w (by rw [hpc]; rfl) (fun hc => by cases hc)
  | finish w task hpc =>
    have := h.move w (p := .test) (by rw [hpc]; rfl) (fun hc => by cases hc)
    exact { this with }
  | acquire w hpc hm =>
    have hfree : ∀ v, (s.workers v).locks = false := by
      intro v
      have := h.worker v
      rw [hm] at this
      simpa using this
    refine { worker := ?_, caller := ?_, ready := ?_ }
    · intro v
      simp only [setWorker, Function.update_apply, Option.some.injEq, Sum.inl.injEq]
      split_ifs with hv
      · subst hv; simp [Pc.locks]
      · simp [hfree v, Ne.symm hv]
    · intro q
      have := h.caller q
      rw [hm] at this
      simpa [setWorker] using this
    · intro v hv
      simp only [setWorker, Function.update_apply] at hv ⊢
      split_ifs at hv
      exact h.ready v hv
  | block w hpc => exact h.release w (by rw [hpc]; rfl) rfl s.tasks
  | leave w hpc => exact h.release w (by rw [hpc]; rfl) rfl s.tasks
  | take w task rest hpc ht =>
    have := h.release w (p := .running task) (by rw [hpc]; rfl) rfl rest
    exact { this with }
  | throws => exact h
  | tests q task hc => exact h.call q (by rw [hc]; rfl)
  | push q task hc => exact (h.push task).call q (by rw [pushTask, hc]; rfl)
  | inline => exact { h with }
  | commit q task hc hm =>
    have hpush := h.push task
    refine { hpush with worker := ?_, caller := ?_ }
    · intro w
      have := h.worker w
      rw [hm] at this
      simpa [setCall, pushTask] using this
    · intro r
      have := h.caller r
      rw [hm] at this
      simp only [setCall, pushTask, Function.update_apply, Option.some.injEq, Sum.inr.injEq]
      split_ifs with hr
      · subst hr; simp [Call.locks]
      · simp [Ne.symm hr, this]
  | notify q i target x hx hc =>
    have hcx : x.calls q = .unlocked i := by cases hx <;> exact hc
    have := (h.notified hx).call q (c := .idle) (by rw [hcx]; rfl)
    exact { this with }
  | unlock q i target x hx hc =>
    have hcx : x.calls q = .locked i := by cases hx <;> exact hc
    have hmx := h.notified hx
    have hmtx := (hmx.caller q).1 (by rw [hcx]; rfl)
    refine { worker := ?_, caller := ?_, ready := hmx.ready }
    · intro w
      have := hmx.worker w
      rw [hmtx] at this
      simpa [returns, setCall] using this
    · intro r
      have := hmx.caller r
      simp only [returns, setCall, Function.update_apply]
      split_ifs with hr
      · simp [Call.locks]
      · rw [hmtx] at this
        simpa [Ne.symm hr] using this
  | store => exact { h with ready := fun _ _ => Or.inl rfl }
  | notifyAll hd =>
    refine { h with worker := ?_, ready := ?_ }
    · intro w
      rw [← h.worker w]
      dsimp only
      cases s.workers w <;> simp [Pc.isBlocked, Pc.locks]
    · intro w hw
      refine h.ready w ?_
      dsimp only at hw
      split_ifs at hw
      exact hw
  | joined | returned => exact { h with }

omit [DecidableEq κ] in
theorem mutex_init : Mutex (init : St n κ τ) where
  worker := by simp [init, Pc.locks]
  caller := by simp [init, Call.locks]
  ready := by simp [init]

/-- **front() is never called on an empty queue.** A worker that comes out of its wait can always take its next
step. -/
theorem never_front_empty (ops : List (Op n κ τ)) (s : St n κ τ) (hs : Machine.run step init ops = some s) (w : Fin n)
    (hw : s.workers w = .take) : (worker s w).isSome = true := by
  have hmutex : Mutex s := Machine.run_inv step_mutex mutex_init hs
  rcases hmutex.ready w hw with hstop | hne
  · cases ht : s.tasks <;> simp [worker, hw, hstop, ht]
  · obtain ⟨task, rest, ht⟩ := List.exists_cons_of_ne_nil hne
    simp [worker, hw, ht]

/-! ## The joins -/

/-- the destructor goes on past a thread only when it has exited -/
structure Joins (s : St n κ τ) : Prop where
  joined : ∀ k, s.dtor = .joining k → ∀ w : Fin n, w.val < k → s.workers w = .exited
  returned : s.dtor = .returned → ∀ w, s.workers w = .exited

omit [DecidableEq κ] in
/-- a worker that takes a step has not exited -/
theorem Joins.move {s : St n κ τ} (h : Joins s) (w : Fin n) {p : Pc τ} (hw : s.workers w ≠ .exited) :
    Joins (setWorker s w p) := by
  have hkeep : ∀ v, s.workers v = .exited → (setWorker s w p).workers v = .exited := by
    intro v hv
    have hne : v ≠ w := by rintro rfl; exact hw hv
    simp [setWorker, hne, hv]
  exact ⟨fun k hk v hv => hkeep v (h.joined k hk v hv), fun hr v => hkeep v (h.returned hr v)⟩

omit [DecidableEq κ] in
theorem Joins.notified {s x : St n κ τ} (h : Joins s) (hx : Notified s x) : Joins x := by
  cases hx with
  | none => exact h
  | woke w hpc => exact h.move w (by simp [hpc])

theorem step_joins (s : St n κ τ) (o : Op n κ τ) (t : St n κ τ) (h : Joins s) (hst : step s o = some t) : Joins t := by
  cases stepped hst with
  | stop w hpc | enter w hpc | holds w hpc | fails w hpc => exact h.move w (by simp [hpc])
  | wake w hpc => exact h.move w (by simp [hpc])
  | acquire w hpc =>
    have := h.move w (p := .pred) (by rcases hpc with hpc | hpc <;> simp [hpc])
    exact { this with }
  | block w hpc =>
    have := h.move w (p := .blocked) (by simp [hpc])
    exact { this with }
  | leave w hpc =>
    have := h.move w (p := .exited) (by simp [hpc])
    exact { this with }
  | take w task rest hpc =>
    have := h.move w (p := .running task) (by simp [hpc])
    exact { this with }
  | finish w task hpc =>
    have := h.move w (p := .test) (by simp [hpc])
    exact { this with }
  | notify q i target x hx | unlock q i target x hx =>
    have := h.notified hx
    exact { this with }
  | store hd => exact ⟨by simp, by simp⟩
  | notifyAll hd =>
    refine ⟨?_, by simp⟩
    intro k hk w hw
    cases hk
    omega
  | joined k hk hd hpc =>
    refine ⟨?_, by simp⟩
    intro k' hk' w hw
    cases hk'
    rcases Nat.lt_succ_iff_lt_or_eq.1 hw with hlt | heq
    · exact h.joined k hd w hlt
    · have hw : w = ⟨k, hk⟩ := Fin.ext heq
      rw [hw]; exact hpc
  | returned k hk hd =>
    refine ⟨by simp, ?_⟩
    intro _ w
    exact h.joined k hd w (lt_of_lt_of_le w.isLt hk)
  | _ => exact { h with }

/-! ## After the store -/

/-- one step of a stopped pool: a worker that is inside takes a task and is inside no more, or it leaves when
everything has been taken -/
theorem step_inside (s : St n κ τ) (o : Op n κ τ) (t : St n κ τ) (h : Ledger s) (hs : s.stoped = true)
    (hst : step s o = some t) :
    t.taken.length + inside t = s.taken.length + inside s ∨
      t.taken.length + inside t < s.taken.length + inside s ∧ t.taken = t.pushed := by
  have hmove : ∀ (w : Fin n) (p : Pc τ), p.inside = (s.workers w).inside →
      total Pc.inside (Function.update s.workers w p) = total Pc.inside s.workers :=
    fun w p hp => total_update_of_eq hp
  cases stepped hst with
  | enter w hpc hf => rw [hs] at hf; cases hf
  | stop w hpc | holds w hpc | fails w hpc | block w hpc | finish w task hpc =>
    left; simp only [inside, setWorker]; rw [hmove w _ (by rw [hpc]; rfl)]
  | wake w hpc => left; simp only [inside, setWorker]; rw [hmove w _ (by rw [hpc]; rfl)]
  | acquire w hpc =>
    left; simp only [inside, setWorker]; rw [hmove w _ (by rcases hpc with hpc | hpc <;> rw [hpc] <;> rfl)]
  | leave w hpc hstop ht =>
    right
    have hsum := sum_update Pc.inside s.workers w .exited
    rw [hpc] at hsum
    simp only [Pc.inside, add_zero] at hsum
    refine ⟨?_, by simp [setWorker, h.queue, ht]⟩
    simp only [inside, setWorker]
    omega
  | take w task rest hpc ht =>
    left
    have hsum := sum_update Pc.inside s.workers w (.running task)
    rw [hpc] at hsum
    simp only [Pc.inside, add_zero] at hsum
    simp only [inside, setWorker, List.length_append, List.length_singleton]
    omega
  | notify q i target x hx | unlock q i target x hx =>
    left
    cases hx with
    | none => rfl
    | woke w hpc =>
      simp only [inside, setWorker, returns, setCall]; rw [hmove w _ (by rw [hpc]; rfl)]
  | notifyAll =>
    left
    simp only [inside]
    congr 1
    apply total_congr
    intro w
    cases s.workers w <;> rfl
  | _ => left; rfl

/-- the history only grows, and the flag is never cleared -/
theorem step_grows (s : St n κ τ) (o : Op n κ τ) (t : St n κ τ) (hst : step s o = some t) :
    s.taken.length ≤ t.taken.length ∧ s.pushed.length ≤ t.pushed.length ∧ (s.stoped = true → t.stoped = true) := by
  cases stepped hst with
  | take | push | commit => simp [setWorker, setCall, pushTask]
  | notify q i target x hx | unlock q i target x hx => cases hx <;> exact ⟨le_rfl, le_rfl, id⟩
  | store => exact ⟨le_rfl, le_rfl, fun _ => rfl⟩
  | _ => exact ⟨le_rfl, le_rfl, id⟩

/-- what is true from the store on, of a run that stored in state `s` -/
structure Draining (s x : St n κ τ) : Prop where
  ledger : Ledger x
  stoped : x.stoped = true
  pushed : s.pushed.length ≤ x.pushed.length
  /-- no more can be taken than the workers inside can take -/
  most : x.taken.length + inside x ≤ s.taken.length + inside s
  /-- and each of them takes one, unless it finds everything taken -/
  least : x.taken.length + inside x = s.taken.length + inside s ∨ s.pushed.length ≤ x.taken.length

theorem step_draining (hn : 0 < n) {s : St n κ τ} (x : St n κ τ) (o : Op n κ τ) (y : St n κ τ) (h : Draining s x)
    (hst : step x o = some y) : Draining s y := by
  obtain ⟨htaken, hpushed, hstop⟩ := step_grows x o y hst
  have hinside := step_inside x o y h.ledger h.stoped hst
  refine ⟨step_ledger hn x o y h.ledger hst, hstop h.stoped, h.pushed.trans hpushed, ?_, ?_⟩
  · have := h.most
    rcases hinside with heq | ⟨hlt, -⟩ <;> omega
  · rcases h.least with hleast | hall
    · rcases hinside with heq | ⟨-, heq⟩
      · exact Or.inl (heq.trans hleast)
      · have := h.pushed
        exact Or.inr (by rw [heq]; omega)
    · exact Or.inr (hall.trans htaken)

/-- every task whose commit had returned in `s` has been taken and executed, each taken task was executed once, and
tasks were taken in the order of their commits -/
structure Drained (s u : St n κ τ) : Prop where
  order : u.taken <+: u.pushed
  once : u.executed.Perm u.taken
  all : ∀ i ∈ s.returned, i < u.taken.length

/-- **The pool drains its queue exactly when the workers inside suffice.** When the destructor returns, the tasks
committed before its store of stoped_ have been executed, each once and taken in commit order, if and only if each of
them was, at the store, taken already or among the first tasks of the queue, as many as there were workers between the
outer test and their pop. -/
theorem drains_iff (hn : 0 < n) (before after : List (Op n κ τ)) (s t u : St n κ τ)
    (hs : Machine.run step init before = some s) (ht : step s .store = some t)
    (hu : Machine.run step t after = some u) (hret : u.dtor = .returned) :
    Drained s u ↔ ∀ i ∈ s.returned, i < s.taken.length + inside s := by
  have hledger : Ledger s := Machine.run_inv (step_ledger hn) ledger_init hs
  have hjoins : Joins s :=
    Machine.run_inv step_joins ⟨fun k hk => by simp [init] at hk, fun hr => by simp [init] at hr⟩ hs
  have hstart : Draining s t := by
    refine ⟨step_ledger hn s _ t hledger ht, ?_, (step_grows s _ t ht).2.1, ?_, ?_⟩ <;> cases stepped ht
    · rfl
    · exact le_rfl
    · exact Or.inl rfl
  have hend : Draining s u := Machine.run_inv (step_draining hn) hstart hu
  have hexited := (Machine.run_inv step_joins (step_joins s _ t hjoins ht) hu).returned hret
  -- all workers have exited, so that none is inside and none holds a task
  have hinside : inside u = 0 := total_eq_zero fun w => by rw [hexited w]; rfl
  have hheld : total Pc.held u.workers = 0 := total_eq_zero fun w => by rw [hexited w]; rfl
  have hmost := hend.most
  have hleast := hend.least
  rw [hinside, add_zero] at hmost hleast
  constructor
  · intro hdrained i hi
    exact (hdrained.all i hi).trans_le hmost
  · intro hall
    refine ⟨⟨u.tasks, hend.ledger.queue.symm⟩, ?_, ?_⟩
    · have honce := hend.ledger.once
      rw [hheld, add_zero] at honce
      exact Multiset.coe_eq_coe.1 honce
    · intro i hi
      rcases hleast with heq | hle
      · exact (hall i hi).trans_eq heq.symm
      · exact (hledger.positions i hi).trans_le hle

/-- one worker waits, a task is committed, and the destructor starts before the worker has taken it -/
def oneTaskBefore : List (Op 1 Unit Char) :=
  [.worker 0, .worker 0, .worker 0, .worker 0, .commit () 'a', .notifyOne () (some 0)]

def oneTaskAfter : List (Op 1 Unit Char) :=
  [.notifyAll, .worker 0, .worker 0, .worker 0, .worker 0, .worker 0, .join, .join]

theorem drains_iff_one_task : ∃ s t u : St 1 Unit Char, Machine.run step init oneTaskBefore = some s ∧
    step s .store = some t ∧ Machine.run step t oneTaskAfter = some u ∧ s.returned = [0] ∧ Drained s u := by
  have hrun : (Machine.run step init (oneTaskBefore ++ .store :: oneTaskAfter)).map (·.dtor) = some .returned := by
    decide +kernel
  have hstore : (Machine.run step init oneTaskBefore).map (fun s => (s.returned, s.taken.length, inside s)) =
      some ([0], 0, 1) := by decide +kernel
  obtain ⟨u, hu, hret⟩ := Option.map_eq_some_iff.1 hrun
  obtain ⟨s, hs, hu⟩ := Machine.run_append.1 hu
  obtain ⟨t, ht, hu⟩ := Machine.run_cons.1 hu
  simp only [hs, Option.map_some, Option.some.injEq, Prod.mk.injEq] at hstore
  obtain ⟨hreturned, htaken, hinside⟩ := hstore
  refine ⟨s, t, u, hs, ht, hu, hreturned, ?_⟩
  refine (drains_iff (by decide) oneTaskBefore oneTaskAfter s t u hs ht hu hret).2 ?_
  simp [hreturned, htaken, hinside]

/-- one worker, two tasks, and the destructor while the worker runs the first -/
def twoTasksBefore : List (Op 1 Unit Char) :=
  [.worker 0, .worker 0, .worker 0, .worker 0, .commit () 'a', .notifyOne () (some 0), .commit () 'b',
    .notifyOne () none, .worker 0, .worker 0, .worker 0]

def twoTasksAfter : List (Op 1 Unit Char) := [.notifyAll, .worker 0, .worker 0, .join, .join]

theorem second_task_lost : ∃ s t u : St 1 Unit Char, Machine.run step init twoTasksBefore = some s ∧
    step s .store = some t ∧ Machine.run step t twoTasksAfter = some u ∧ u.dtor = .returned ∧
    s.returned = [1, 0] ∧ u.pushed = ['a', 'b'] ∧ u.executed = ['a'] ∧ ¬ Drained s u := by
  have hrun : (Machine.run step init (twoTasksBefore ++ .store :: twoTasksAfter)).map
      (fun u => (u.dtor, u.pushed, u.taken, u.executed)) = some (.returned, ['a', 'b'], ['a'], ['a']) := by
    decide +kernel
  have hstore : (Machine.run step init twoTasksBefore).map St.returned = some [1, 0] := by decide +kernel
  obtain ⟨u, hu, hend⟩ := Option.map_eq_some_iff.1 hrun
  obtain ⟨s, hs, hu⟩ := Machine.run_append.1 hu
  obtain ⟨t, ht, hu⟩ := Machine.run_cons.1 hu
  simp only [hs, Option.map_some, Option.some.injEq] at hstore
  simp only [Prod.mk.injEq] at hend
  obtain ⟨hret, hpushed, htaken, hexecuted⟩ := hend
  refine ⟨s, t, u, hs, ht, hu, hret, hstore, hpushed, hexecuted, ?_⟩
  intro hdrained
  have := hdrained.all 1 (by simp [hstore])
  simp [htaken] at this

end Glacier.ThreadPool
