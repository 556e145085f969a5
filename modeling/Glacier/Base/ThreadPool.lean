/-
The thread pool (base/threadpool.h): `n` workers, any number of threads that commit tasks, and the destructor.

Actors, all through `step`, interleaved arbitrarily:
- the workers: `worker w` is the next step of worker `w`, and `wake w` a return of its wait without a notification;
- the committing threads `κ`: the template commit in three steps, `commitTest` (the load of stoped_), `push` under
  mtx_ and `notifyOne`; commit(Task) in two, `commit` (lock and push) and `notifyOne` (notify and unlock). notify_one
  wakes any blocked worker. A task may itself commit, and a call may come at any time, also while the destructor runs;
- the destructor: `store`, `notifyAll`, then one `join` for each thread and one to return.

condition_.wait(lock, pred) is: holding the mutex, evaluate pred; if it is false, release the mutex and block, in one
step, until notified; then take the mutex again. `pushed`, `taken`, `executed` and `returned` are history: the tasks in
the order they were pushed, taken from the queue and completed, and the positions in `pushed` of the commit calls that
have returned.
-/
import Glacier.Lib.Machine
import Glacier.Lib.Threads

namespace Glacier.ThreadPool

/-- where a worker stands -/
inductive Pc (τ : Type) where
  /-- before the test of `while (!this->stoped_)` -/
  | test
  /-- before it has the mutex -/
  | lock
  /-- in wait, with the mutex, before the predicate -/
  | pred
  /-- in wait, with the mutex: the predicate was false -/
  | sleep
  /-- in wait, blocked on condition_ -/
  | blocked
  /-- in wait, notified, before it has the mutex again -/
  | woken
  /-- wait has returned; with the mutex, before the `if` -/
  | take
  | running (task : τ)
  | exited

/-- where a committing thread stands -/
inductive Call (τ : Type) where
  | idle
  /-- template commit: stoped_ was false -/
  | tested (task : τ)
  /-- template commit: pushed at this position, the mutex released, before notify_one -/
  | unlocked (i : ℕ)
  /-- commit(Task): pushed at this position, with the mutex, before notify_one -/
  | locked (i : ℕ)

inductive Dtor where
  | idle
  /-- before `notify_all` -/
  | stored
  /-- before `t.join()` of this thread, or at the end of the loop -/
  | joining (k : ℕ)
  | returned
deriving DecidableEq, Repr

structure St (n : ℕ) (κ τ : Type) where
  workers : Fin n → Pc τ
  calls : κ → Call τ
  dtor : Dtor
  mtx : Option (Fin n ⊕ κ)
  tasks : List τ
  stoped : Bool
  pushed : List τ
  taken : List τ
  executed : List τ
  returned : List ℕ

inductive Op (n : ℕ) (κ τ : Type) where
  | worker (w : Fin n)
  | wake (w : Fin n)
  | commitTest (q : κ) (task : τ)
  | push (q : κ)
  | commit (q : κ) (task : τ)
  | notifyOne (q : κ) (target : Option (Fin n))
  | store
  | notifyAll
  | join

variable {n : ℕ} {κ τ : Type}

/-- the constructor has returned: every worker has been started -/
def init : St n κ τ where
  workers := fun _ => .test
  calls := fun _ => .idle
  dtor := .idle
  mtx := none
  tasks := []
  stoped := false
  pushed := []
  taken := []
  executed := []
  returned := []

def Pc.isBlocked : Pc τ → Bool
  | .blocked => true
  | _ => false

def Pc.isExited : Pc τ → Bool
  | .exited => true
  | _ => false

@[simp] theorem isBlocked_iff (p : Pc τ) : p.isBlocked = true ↔ p = .blocked := by cases p <;> simp [Pc.isBlocked]

@[simp] theorem isExited_iff (p : Pc τ) : p.isExited = true ↔ p = .exited := by cases p <;> simp [Pc.isExited]

def setWorker (s : St n κ τ) (w : Fin n) (p : Pc τ) : St n κ τ :=
  { s with workers := Function.update s.workers w p }

/-- the next step of a worker -/
def worker (s : St n κ τ) (w : Fin n) : Option (St n κ τ) :=
  match s.workers w with
  | .test => some (setWorker s w (if s.stoped then .exited else .lock))
  | .lock | .woken => if s.mtx.isNone then some { setWorker s w .pred with mtx := some (.inl w) } else none
  | .pred => some (setWorker s w (if s.stoped || !s.tasks.isEmpty then .take else .sleep))
  | .sleep => some { setWorker s w .blocked with mtx := none }
  | .take =>
    if s.stoped && s.tasks.isEmpty then some { setWorker s w .exited with mtx := none }
    else match s.tasks with
      | task :: rest =>
        some { setWorker s w (.running task) with tasks := rest, mtx := none, taken := s.taken ++ [task] }
      -- front() of an empty queue: `take_ready` says that no worker comes here
      | [] => none
  | .running task => some { setWorker s w .test with executed := s.executed ++ [task] }
  | .blocked | .exited => none

variable [DecidableEq κ]

def setCall (s : St n κ τ) (q : κ) (c : Call τ) : St n κ τ := { s with calls := Function.update s.calls q c }

/-- `tasks_.emplace` -/
def pushTask (s : St n κ τ) (task : τ) : St n κ τ :=
  { s with tasks := s.tasks ++ [task], pushed := s.pushed ++ [task] }

/-- notify_one: some blocked worker, if there is one -/
def notify (s : St n κ τ) : Option (Fin n) → Option (St n κ τ)
  | some w => if (s.workers w).isBlocked then some (setWorker s w .woken) else none
  | none => if ∀ w, (s.workers w).isBlocked = false then some s else none

/-- the commit call that pushed at position `i` returns -/
def returns (s : St n κ τ) (q : κ) (i : ℕ) : St n κ τ := { setCall s q .idle with returned := i :: s.returned }

def step (s : St n κ τ) : Op n κ τ → Option (St n κ τ)
  | .worker w => worker s w
  | .wake w => if (s.workers w).isBlocked then some (setWorker s w .woken) else none
  | .commitTest q task =>
    match s.calls q with
    -- a commit on a stopped pool throws
    | .idle => some (if s.stoped then s else setCall s q (.tested task))
    | _ => none
  | .push q =>
    match s.calls q with
    | .tested task =>
      if s.mtx.isNone then some (setCall (pushTask s task) q (.unlocked s.pushed.length)) else none
    | _ => none
  | .commit q task =>
    match s.calls q with
    | .idle =>
      if n = 0 then some { s with executed := s.executed ++ [task] }
      else if s.mtx.isNone then
        some { setCall (pushTask s task) q (.locked s.pushed.length) with mtx := some (.inr q) }
      else none
    | _ => none
  | .notifyOne q target =>
    match s.calls q with
    | .unlocked i => (notify s target).map fun t => returns t q i
    | .locked i => (notify s target).map fun t => { returns t q i with mtx := none }
    | _ => none
  | .store => if s.dtor = .idle then some { s with stoped := true, dtor := .stored } else none
  | .notifyAll =>
    if s.dtor = .stored then
      some { s with
        workers := fun w => if (s.workers w).isBlocked then .woken else s.workers w
        dtor := .joining 0 }
    else none
  | .join =>
    match s.dtor with
    | .joining k =>
      if h : k < n then
        if (s.workers ⟨k, h⟩).isExited then some { s with dtor := .joining (k + 1) } else none
      else some { s with dtor := .returned }
    | _ => none

/-! ## What a step does -/

/-- what notify_one leaves -/
inductive Notified (s : St n κ τ) : St n κ τ → Prop where
  | none : Notified s s
  | woke (w : Fin n) (hpc : s.workers w = .blocked) : Notified s (setWorker s w .woken)

/-- the steps, one constructor for each branch of the source -/
inductive Stepped (s : St n κ τ) : Op n κ τ → St n κ τ → Prop where
  | stop (w : Fin n) (hpc : s.workers w = .test) (hs : s.stoped = true) :
    Stepped s (.worker w) (setWorker s w .exited)
  | enter (w : Fin n) (hpc : s.workers w = .test) (hs : s.stoped = false) :
    Stepped s (.worker w) (setWorker s w .lock)
  | acquire (w : Fin n) (hpc : s.workers w = .lock ∨ s.workers w = .woken) (hm : s.mtx = none) :
    Stepped s (.worker w) { setWorker s w .pred with mtx := some (.inl w) }
  | holds (w : Fin n) (hpc : s.workers w = .pred) (hp : s.stoped = true ∨ s.tasks ≠ []) :
    Stepped s (.worker w) (setWorker s w .take)
  | fails (w : Fin n) (hpc : s.workers w = .pred) (hs : s.stoped = false) (ht : s.tasks = []) :
    Stepped s (.worker w) (setWorker s w .sleep)
  | block (w : Fin n) (hpc : s.workers w = .sleep) :
    Stepped s (.worker w) { setWorker s w .blocked with mtx := none }
  | leave (w : Fin n) (hpc : s.workers w = .take) (hs : s.stoped = true) (ht : s.tasks = []) :
    Stepped s (.worker w) { setWorker s w .exited with mtx := none }
  | take (w : Fin n) (task : τ) (rest : List τ) (hpc : s.workers w = .take) (ht : s.tasks = task :: rest) :
    Stepped s (.worker w)
      { setWorker s w (.running task) with tasks := rest, mtx := none, taken := s.taken ++ [task] }
  | finish (w : Fin n) (task : τ) (hpc : s.workers w = .running task) :
    Stepped s (.worker w) { setWorker s w .test with executed := s.executed ++ [task] }
  | wake (w : Fin n) (hpc : s.workers w = .blocked) : Stepped s (.wake w) (setWorker s w .woken)
  | throws (q : κ) (task : τ) : Stepped s (.commitTest q task) s
  | tests (q : κ) (task : τ) (hc : s.calls q = .idle) : Stepped s (.commitTest q task) (setCall s q (.tested task))
  | push (q : κ) (task : τ) (hc : s.calls q = .tested task) (hm : s.mtx = none) :
    Stepped s (.push q) (setCall (pushTask s task) q (.unlocked s.pushed.length))
  | inline (q : κ) (task : τ) (hn : n = 0) : Stepped s (.commit q task) { s with executed := s.executed ++ [task] }
  | commit (q : κ) (task : τ) (hc : s.calls q = .idle) (hm : s.mtx = none) :
    Stepped s (.commit q task)
      { setCall (pushTask s task) q (.locked s.pushed.length) with mtx := some (.inr q) }
  | notify (q : κ) (i : ℕ) (target : Option (Fin n)) (x : St n κ τ) (hx : Notified s x) (hc : s.calls q = .unlocked i) :
    Stepped s (.notifyOne q target) (returns x q i)
  | unlock (q : κ) (i : ℕ) (target : Option (Fin n)) (x : St n κ τ) (hx : Notified s x) (hc : s.calls q = .locked i) :
    Stepped s (.notifyOne q target) { returns x q i with mtx := none }
  | store (hd : s.dtor = .idle) : Stepped s .store { s with stoped := true, dtor := .stored }
  | notifyAll (hd : s.dtor = .stored) :
    Stepped s .notifyAll
      { s with workers := fun w => if (s.workers w).isBlocked then .woken else s.workers w, dtor := .joining 0 }
  | joined (k : ℕ) (h : k < n) (hd : s.dtor = .joining k) (hpc : s.workers ⟨k, h⟩ = .exited) :
    Stepped s .join { s with dtor := .joining (k + 1) }
  | returned (k : ℕ) (h : n ≤ k) (hd : s.dtor = .joining k) : Stepped s .join { s with dtor := .returned }

theorem worker_stepped {s t : St n κ τ} {w : Fin n} (h : worker s w = some t) : Stepped s (.worker w) t := by
  unfold worker at h
  cases hpc : s.workers w with
  | test =>
    simp only [hpc, Option.some.injEq] at h
    subst h
    by_cases hs : s.stoped = true
    · rw [if_pos hs]; exact .stop w hpc hs
    · rw [if_neg hs]; exact .enter w hpc (by simpa using hs)
  | lock | woken =>
    simp only [hpc, Option.isNone_iff_eq_none, Option.ite_none_right_eq_some, Option.some.injEq] at h
    obtain ⟨hm, rfl⟩ := h
    exact .acquire w (by simp [hpc]) hm
  | pred =>
    simp only [hpc, Option.some.injEq] at h
    subst h
    by_cases hp : (s.stoped || !s.tasks.isEmpty) = true
    · rw [if_pos hp]; exact .holds w hpc (by simpa using hp)
    · rw [if_neg hp]
      simp only [Bool.or_eq_true, Bool.not_eq_true', List.isEmpty_eq_false_iff, not_or, ne_eq, not_not,
        Bool.not_eq_true] at hp
      exact .fails w hpc hp.1 hp.2
  | sleep =>
    simp only [hpc, Option.some.injEq] at h
    subst h
    exact .block w hpc
  | take =>
    simp only [hpc] at h
    by_cases he : (s.stoped && s.tasks.isEmpty) = true
    · rw [if_pos he] at h; cases h
      simp only [Bool.and_eq_true, List.isEmpty_iff] at he
      exact .leave w hpc he.1 he.2
    · rw [if_neg he] at h
      cases ht : s.tasks with
      | nil => simp [ht] at h
      | cons task rest =>
        simp only [ht, Option.some.injEq] at h
        subst h
        exact .take w task rest hpc ht
  | running task =>
    simp only [hpc, Option.some.injEq] at h
    subst h
    exact .finish w task hpc
  | blocked | exited => simp [hpc] at h

omit [DecidableEq κ] in
theorem notify_notified {s t : St n κ τ} {target : Option (Fin n)} (h : notify s target = some t) : Notified s t := by
  cases target with
  | none =>
    simp only [notify, Option.ite_none_right_eq_some, Option.some.injEq] at h
    obtain ⟨-, rfl⟩ := h
    exact .none
  | some w =>
    simp only [notify, isBlocked_iff, Option.ite_none_right_eq_some, Option.some.injEq] at h
    obtain ⟨hpc, rfl⟩ := h
    exact .woke w hpc

/-- every step is one of the listed ones -/
theorem stepped {s t : St n κ τ} {o : Op n κ τ} (h : step s o = some t) : Stepped s o t := by
  cases o with
  | worker w => exact worker_stepped h
  | wake w =>
    simp only [step, isBlocked_iff, Option.ite_none_right_eq_some, Option.some.injEq] at h
    obtain ⟨hpc, rfl⟩ := h
    exact .wake w hpc
  | commitTest q task =>
    simp only [step] at h
    cases hc : s.calls q with
    | idle =>
      simp only [hc, Option.some.injEq] at h
      subst h
      by_cases hs : s.stoped = true
      · rw [if_pos hs]; exact .throws q task
      · rw [if_neg hs]; exact .tests q task hc
    | _ => simp [hc] at h
  | push q =>
    simp only [step] at h
    cases hc : s.calls q with
    | tested task =>
      simp only [hc, Option.isNone_iff_eq_none, Option.ite_none_right_eq_some, Option.some.injEq] at h
      obtain ⟨hm, rfl⟩ := h
      exact .push q task hc hm
    | _ => simp [hc] at h
  | commit q task =>
    simp only [step] at h
    cases hc : s.calls q with
    | idle =>
      simp only [hc, Option.isNone_iff_eq_none] at h
      split_ifs at h with hn hm
      · cases h; exact .inline q task hn
      · cases h; exact .commit q task hc hm
    | _ => simp [hc] at h
  | notifyOne q target =>
    simp only [step] at h
    cases hc : s.calls q with
    | unlocked i =>
      simp only [hc, Option.map_eq_some_iff] at h
      obtain ⟨x, hx, rfl⟩ := h
      exact .notify q i target x (notify_notified hx) hc
    | locked i =>
      simp only [hc, Option.map_eq_some_iff] at h
      obtain ⟨x, hx, rfl⟩ := h
      exact .unlock q i target x (notify_notified hx) hc
    | _ => simp [hc] at h
  | store =>
    simp only [step, Option.ite_none_right_eq_some, Option.some.injEq] at h
    obtain ⟨hd, rfl⟩ := h
    exact .store hd
  | notifyAll =>
    simp only [step, Option.ite_none_right_eq_some, Option.some.injEq] at h
    obtain ⟨hd, rfl⟩ := h
    exact .notifyAll hd
  | join =>
    simp only [step] at h
    cases hd : s.dtor with
    | joining k =>
      simp only [hd] at h
      split_ifs at h with hk hpc
      · cases h; exact .joined k hk hd ((isExited_iff _).1 hpc)
      · cases h; exact .returned k (Nat.le_of_not_lt hk) hd
    | _ => simp [hd] at h

end Glacier.ThreadPool
