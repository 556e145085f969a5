/-
EventLoopThreadPool::start (eventloop_threadpool.cc) with startLoop and threadFunc of EventLoopThread (eventloop_thread.cc):
the main thread creates one thread after the other and waits for each to publish its loop.

A thread constructs its EventLoop on its stack, publishes the address in loop_ under the mutex, notifies, and runs the loop.
Nothing calls quit() before start() returns, so that no loop ends meanwhile, and the EventLoops that exist at one time have
different addresses. startLoop reads loop_ once more when it has given the mutex up.
- `start_returns`: in every interleaving, whatever spurious wakeups there are, the loops in loops_ are not null and
  different, and the threads can stand still only when start() has returned with all of them; which they do, after a bounded
  number of steps.
-/
import Glacier.Lib.Machine
import Glacier.Lib.Monitor

namespace Glacier

open Monitor

/-- where a thread stands in threadFunc, with the address of its EventLoop -/
inductive ThreadPc where
  | notCreated
  | created
  | constructed (addr : ℕ)
  | looping (addr : ℕ)
deriving DecidableEq, Repr

structure EventLoopThread where
  /-- loop_ -/
  loop : Option ℕ
  pc : ThreadPc
deriving DecidableEq, Repr

def EventLoopThread.new : EventLoopThread := ⟨none, .notCreated⟩

/-- the address of the thread's EventLoop, once it exists -/
def EventLoopThread.address (t : EventLoopThread) : Option ℕ :=
  match t.pc with
  | .constructed addr | .looping addr => some addr
  | .notCreated | .created => none

/-- EventLoopThreadPool::start at work -/
structure StartLoops where
  numThreads : ℕ
  i : ℕ
  /-- in startLoop of `threads_[i]`, at its wait -/
  main : Option Waiter
  threads : ℕ → EventLoopThread
  /-- loops_ -/
  loops : List (Option ℕ)

namespace StartLoops

def init (numThreads : ℕ) : StartLoops := ⟨numThreads, 0, none, fun _ => .new, []⟩

inductive Op where
  /-- the next EventLoopThread, and its std::thread -/
  | create
  /-- the test in startLoop, at first or after the notification -/
  | look
  | spurious
  /-- `return loop_`, and push_back -/
  | ret
  /-- `EventLoop loop;` of thread `j` -/
  | construct (j addr : ℕ)
  /-- `loop_ = &loop; condition_.notify_all()` of thread `j` -/
  | publish (j : ℕ)
deriving DecidableEq

/-- all steps but spurious wakeups -/
def Op.real : Op → Bool
  | .spurious => false
  | _ => true

def setThread (s : StartLoops) (j : ℕ) (t : EventLoopThread) : StartLoops :=
  { s with threads := Function.update s.threads j t }

def look (s : StartLoops) : StartLoops := { s with main := some (.look (s.threads s.i).loop.isSome) }

def step (s : StartLoops) : Op → Option StartLoops
  | .create =>
    if s.main = none ∧ s.i < s.numThreads then some { s.setThread s.i ⟨none, .created⟩ with main := some .outside } else none
  | .look => if s.main = some .outside ∨ s.main = some .woken then some s.look else none
  | .spurious => if s.main = some .blocked then some s.look else none
  | .ret =>
    if s.main = some .passed then
      some { s with loops := s.loops ++ [(s.threads s.i).loop], i := s.i + 1, main := none }
    else none
  | .construct j addr =>
    if (s.threads j).pc = .created ∧ ∀ k < s.numThreads, (s.threads k).address ≠ some addr then
      some (s.setThread j ⟨(s.threads j).loop, .constructed addr⟩)
    else none
  | .publish j =>
    match (s.threads j).pc with
    | .constructed addr =>
      -- the condition is the one of thread `j`
      some { s.setThread j ⟨some addr, .looping addr⟩ with main := if j = s.i then s.main.map Waiter.notify else s.main }
    | _ => none

/-- start() has returned -/
def Returned (s : StartLoops) : Prop := s.i = s.numThreads ∧ s.main = none

/-! ## The invariant -/

/-- the main thread's place in the loop of start() -/
structure MainInv (s : StartLoops) : Prop where
  le : s.i ≤ s.numThreads
  waiting : ∀ w, s.main = some w → s.i < s.numThreads ∧ w.Awake (s.threads s.i).loop.isSome
  found : s.main = some .woken ∨ s.main = some .passed → (s.threads s.i).loop ≠ none
  loops : s.loops = (List.range s.i).map fun j => (s.threads j).loop

/-- the threads -/
structure Inv (s : StartLoops) : Prop extends MainInv s where
  notCreated : ∀ j, (s.threads j).pc = .notCreated ↔ s.i < j ∨ j = s.i ∧ s.main = none
  published : ∀ j a, (s.threads j).loop = some a ↔ (s.threads j).pc = .looping a
  started : ∀ j < s.i, (s.threads j).loop ≠ none
  distinct : ∀ j k a, (s.threads j).address = some a → (s.threads k).address = some a → j = k

theorem inv_init (n : ℕ) : Inv (init n) where
  le := Nat.zero_le n
  waiting := fun w h => by cases h
  found := fun h => by rcases h with h | h <;> cases h
  loops := rfl
  notCreated := fun j => iff_of_true rfl ((Nat.eq_zero_or_pos j).symm.imp id fun h => ⟨h, rfl⟩)
  published := fun j a => iff_of_false (fun h => by cases h) fun h => by cases h
  started := fun j h => absurd h (Nat.not_lt_zero j)
  distinct := fun j k a h => by cases h

variable {s t : StartLoops}

@[simp] theorem setThread_self (s : StartLoops) (j : ℕ) (u : EventLoopThread) : (s.setThread j u).threads j = u :=
  Function.update_self ..

theorem setThread_of_ne (s : StartLoops) {j k : ℕ} (u : EventLoopThread) (h : k ≠ j) :
    (s.setThread j u).threads k = s.threads k := Function.update_of_ne h ..

/-- threads that have published stay as they are, so that loops_ still says what they have published -/
theorem Inv.loops_congr (h : Inv s) (hsame : ∀ j < s.i, t.threads j = s.threads j) :
    s.loops = (List.range s.i).map fun j => (t.threads j).loop := by
  rw [h.loops]
  refine List.map_congr_left ?_
  intro j hj
  rw [hsame j (List.mem_range.1 hj)]

theorem address_of_looping {u : EventLoopThread} {a : ℕ} (h : u.pc = .looping a) : u.address = some a := by
  rw [EventLoopThread.address, h]

theorem create_inv (h : Inv s) (hstep : s.step .create = some t) : Inv t := by
  simp only [step, Option.ite_none_right_eq_some, Option.some.injEq] at hstep
  obtain ⟨⟨hmain, hlt⟩, rfl⟩ := hstep
  have hother : ∀ j, j ≠ s.i → (s.setThread s.i ⟨none, .created⟩).threads j = s.threads j := fun j hj =>
    setThread_of_ne s _ hj
  refine { le := h.le, waiting := ?_, found := ?_, loops := h.loops_congr fun j hj => hother j hj.ne, notCreated := ?_,
           published := ?_, started := ?_, distinct := ?_ }
  · intro w hw
    cases hw
    exact ⟨hlt, fun _ hb => by cases hb⟩
  · intro hw
    rcases hw with hw | hw <;> cases hw
  · intro j
    dsimp only
    by_cases hj : j = s.i
    · subst hj
      rw [setThread_self]
      refine iff_of_false (fun hc => by cases hc) ?_
      rintro (hc | ⟨-, hc⟩)
      · exact absurd hc (lt_irrefl _)
      · cases hc
    · rw [hother j hj, h.notCreated]
      simp [hj, setThread]
  · intro j a
    dsimp only
    by_cases hj : j = s.i
    · subst hj
      rw [setThread_self]
      exact iff_of_false (fun hc => by cases hc) fun hc => by cases hc
    · rw [hother j hj]; exact h.published j a
  · intro j hj
    dsimp only at hj ⊢
    rw [hother j hj.ne]; exact h.started j hj
  · intro j k a hja hka
    dsimp only at hja hka
    by_cases hj : j = s.i
    · subst hj; rw [setThread_self] at hja; cases hja
    by_cases hk : k = s.i
    · subst hk; rw [setThread_self] at hka; cases hka
    rw [hother j hj] at hja
    rw [hother k hk] at hka
    exact h.distinct j k a hja hka

theorem look_inv (h : Inv s) (hmain : s.main ≠ none) : Inv s.look := by
  obtain ⟨w, hw⟩ := Option.ne_none_iff_exists'.1 hmain
  refine { h with waiting := ?_, found := ?_, notCreated := ?_ }
  · intro w' hw'
    cases hw'
    exact ⟨(h.waiting w hw).1, Waiter.Awake.look _⟩
  · intro hf
    change (s.threads s.i).loop ≠ none
    intro hnone
    rw [look, hnone] at hf
    rcases hf with hf | hf <;> cases hf
  · intro j
    rw [show (s.look.threads j).pc = (s.threads j).pc from rfl, h.notCreated]
    simp [look, hmain]

theorem ret_inv (h : Inv s) (hstep : s.step .ret = some t) : Inv t := by
  simp only [step, Option.ite_none_right_eq_some, Option.some.injEq] at hstep
  obtain ⟨hmain, rfl⟩ := hstep
  have hlt := (h.waiting _ hmain).1
  refine { h with le := hlt, waiting := ?_, found := ?_, loops := ?_, notCreated := ?_, started := ?_ }
  · intro w hw; cases hw
  · intro hw; rcases hw with hw | hw <;> cases hw
  · dsimp only
    rw [List.range_succ, List.map_append, ← h.loops, List.map_singleton]
  · intro j
    dsimp only
    rw [h.notCreated, hmain]
    simp
    omega
  · intro j hj
    rcases Nat.lt_succ_iff_lt_or_eq.1 hj with hj | rfl
    · exact h.started j hj
    · exact h.found (Or.inr hmain)

/-- a thread that is there and has not published is the one that the main thread waits for -/
theorem Inv.current (h : Inv s) {j : ℕ} (hj : (s.threads j).pc ≠ .notCreated) (hloop : (s.threads j).loop = none) :
    j = s.i ∧ ∃ w, s.main = some w := by
  rcases Nat.lt_trichotomy j s.i with hlt | heq | hgt
  · exact absurd hloop (h.started j hlt)
  · exact ⟨heq, Option.ne_none_iff_exists'.1 fun hmain => hj ((h.notCreated j).2 (Or.inr ⟨heq, hmain⟩))⟩
  · exact absurd ((h.notCreated j).2 (Or.inl hgt)) hj

/-- thread `j`, which is there and has not published, moves on -/
theorem Inv.advance {j : ℕ} {u : EventLoopThread} {main : Option Waiter} (h : Inv s) (hj : (s.threads j).pc ≠ .notCreated)
    (hloop : (s.threads j).loop = none) (hu : u.pc ≠ .notCreated) (hpublished : ∀ a, u.loop = some a ↔ u.pc = .looping a)
    (hdistinct : ∀ k a, k ≠ j → u.address = some a → (s.threads k).address ≠ some a) (hnone : main = none ↔ s.main = none)
    (hwaiting : ∀ w, main = some w → w.Awake ((s.setThread j u).threads s.i).loop.isSome)
    (hfound : main = some .woken ∨ main = some .passed → ((s.setThread j u).threads s.i).loop ≠ none) :
    Inv { s.setThread j u with main := main } := by
  obtain ⟨hji, w, hw⟩ := h.current hj hloop
  have hother : ∀ k, k ≠ j → (s.setThread j u).threads k = s.threads k := fun k hk => setThread_of_ne s u hk
  have hlt : ∀ k < s.i, k ≠ j := fun k hk => by rw [hji]; exact hk.ne
  refine { le := h.le, waiting := ?_, found := hfound, loops := h.loops_congr fun k hk => hother k (hlt k hk),
           notCreated := ?_, published := ?_, started := ?_, distinct := ?_ }
  · intro w' hw'
    exact ⟨(h.waiting w hw).1, hwaiting w' hw'⟩
  · intro k
    change ((s.setThread j u).threads k).pc = .notCreated ↔ s.i < k ∨ k = s.i ∧ main = none
    rw [hnone]
    by_cases hk : k = j
    · rw [hk, setThread_self]
      refine iff_of_false hu ?_
      rintro (hgt | ⟨-, hmain⟩)
      · exact absurd hgt (by rw [hji]; exact lt_irrefl _)
      · rw [hw] at hmain; cases hmain
    · rw [hother k hk]; exact h.notCreated k
  · intro k a
    change ((s.setThread j u).threads k).loop = some a ↔ ((s.setThread j u).threads k).pc = .looping a
    by_cases hk : k = j
    · rw [hk, setThread_self]; exact hpublished a
    · rw [hother k hk]; exact h.published k a
  · intro k hk
    change ((s.setThread j u).threads k).loop ≠ none
    rw [hother k (hlt k hk)]; exact h.started k hk
  · intro k l a hka hla
    change ((s.setThread j u).threads k).address = some a at hka
    change ((s.setThread j u).threads l).address = some a at hla
    by_cases hk : k = j <;> by_cases hl : l = j
    · rw [hk, hl]
    · rw [hk, setThread_self] at hka
      rw [hother l hl] at hla
      exact absurd hla (hdistinct l a hl hka)
    · rw [hother k hk] at hka
      rw [hl, setThread_self] at hla
      exact absurd hka (hdistinct k a hk hla)
    · rw [hother k hk] at hka
      rw [hother l hl] at hla
      exact h.distinct k l a hka hla

theorem construct_inv {j addr : ℕ} (h : Inv s) (hstep : s.step (.construct j addr) = some t) : Inv t := by
  simp only [step, Option.ite_none_right_eq_some, Option.some.injEq] at hstep
  obtain ⟨⟨hpc, hfresh⟩, rfl⟩ := hstep
  have hcreated : (s.threads j).pc ≠ .notCreated := by rw [hpc]; intro hc; cases hc
  have hloop : (s.threads j).loop = none := by
    rw [Option.eq_none_iff_forall_ne_some]
    intro a ha
    rw [h.published, hpc] at ha
    cases ha
  obtain ⟨hji, w, hw⟩ := h.current hcreated hloop
  rw [hloop]
  change Inv { s.setThread j ⟨none, .constructed addr⟩ with main := s.main }
  refine h.advance hcreated hloop (fun hc => by cases hc) ?_ ?_ Iff.rfl ?_ ?_
  · intro a
    exact iff_of_false (fun hc => by cases hc) fun hc => by cases hc
  · intro k a hk ha hka
    cases ha
    by_cases hkn : k < s.numThreads
    · exact hfresh k hkn hka
    · -- there is no such thread
      have hlt := (h.waiting w hw).1
      have hpck : (s.threads k).pc = .notCreated := (h.notCreated k).2 (Or.inl (by omega))
      rw [EventLoopThread.address, hpck] at hka
      cases hka
  · intro w' _ hsome
    rw [← hji, setThread_self] at hsome
    cases hsome
  · intro hf
    exact absurd (hji ▸ hloop) (h.found hf)

theorem publish_inv {j : ℕ} (h : Inv s) (hstep : s.step (.publish j) = some t) : Inv t := by
  simp only [step] at hstep
  split at hstep
  · rename_i addr hpc
    cases hstep
    have hcreated : (s.threads j).pc ≠ .notCreated := by rw [hpc]; intro hc; cases hc
    have hloop : (s.threads j).loop = none := by
      rw [Option.eq_none_iff_forall_ne_some]
      intro a ha
      rw [h.published, hpc] at ha
      cases ha
    obtain ⟨hji, w, hw⟩ := h.current hcreated hloop
    rw [if_pos hji, hw]
    refine h.advance hcreated hloop (fun hc => by cases hc) ?_ ?_ ?_ ?_ ?_
    · intro a
      constructor
      · intro ha; cases ha; rfl
      · intro ha; cases ha; rfl
    · intro k a hk ha hka
      cases ha
      exact hk (h.distinct k j addr hka (by rw [EventLoopThread.address, hpc]))
    · rw [hw]
      exact iff_of_false (Option.some_ne_none _) (Option.some_ne_none _)
    · intro w' hw'
      cases hw'
      exact Waiter.Awake.notify _ w
    · intro _
      rw [← hji, setThread_self]
      exact Option.some_ne_none addr
  · cases hstep

theorem step_inv {o : Op} (h : Inv s) (hstep : s.step o = some t) : Inv t := by
  cases o with
  | create => exact create_inv h hstep
  | look =>
    simp only [step, Option.ite_none_right_eq_some, Option.some.injEq] at hstep
    obtain ⟨hw, rfl⟩ := hstep
    exact look_inv h (by rcases hw with hw | hw <;> rw [hw] <;> exact Option.some_ne_none _)
  | spurious =>
    simp only [step, Option.ite_none_right_eq_some, Option.some.injEq] at hstep
    obtain ⟨hw, rfl⟩ := hstep
    exact look_inv h (by rw [hw]; exact Option.some_ne_none _)
  | ret => exact ret_inv h hstep
  | construct j addr => exact construct_inv h hstep
  | publish j => exact publish_inv h hstep

theorem step_numThreads {o : Op} (hstep : s.step o = some t) : t.numThreads = s.numThreads := by
  cases o with
  | publish j =>
    simp only [step] at hstep
    split at hstep
    · cases hstep; rfl
    · cases hstep
  | _ =>
    simp only [step, Option.ite_none_right_eq_some, Option.some.injEq] at hstep
    obtain ⟨-, rfl⟩ := hstep
    rfl

/-! ## Progress -/

/-- how many steps a thread has before it -/
def threadRank : ThreadPc → ℕ
  | .notCreated | .created => 2
  | .constructed _ => 1
  | .looping _ => 0

/-- and the main thread, of the four that a turn of start() takes it -/
def mainRank : Option Waiter → ℕ
  | none => 0
  | some .outside => 1
  | some .blocked | some .woken => 2
  | some .passed => 3

def rank (s : StartLoops) : ℕ :=
  ∑ j ∈ Finset.range s.numThreads, threadRank (s.threads j).pc + (4 * (s.numThreads - s.i) - mainRank s.main)

/-- a thread that moves on -/
theorem sum_setThread {j : ℕ} {u : EventLoopThread} (hj : j < s.numThreads) :
    ∑ k ∈ Finset.range s.numThreads, threadRank ((s.setThread j u).threads k).pc + threadRank (s.threads j).pc =
      ∑ k ∈ Finset.range s.numThreads, threadRank (s.threads k).pc + threadRank u.pc := by
  have hmem := Finset.mem_range.2 hj
  rw [← Finset.add_sum_erase _ _ hmem, ← Finset.add_sum_erase _ (fun k => threadRank (s.threads k).pc) hmem, setThread_self]
  have hrest : ∑ k ∈ (Finset.range s.numThreads).erase j, threadRank ((s.setThread j u).threads k).pc =
      ∑ k ∈ (Finset.range s.numThreads).erase j, threadRank (s.threads k).pc := by
    refine Finset.sum_congr rfl ?_
    intro k hk
    rw [setThread_of_ne s u (Finset.ne_of_mem_erase hk)]
  rw [hrest]
  ring

theorem mainRank_notify (main : Option Waiter) : mainRank (main.map Waiter.notify) = mainRank main := by
  cases main with
  | none => rfl
  | some w => cases w <;> rfl

/-- a thread that is there is one of those that start() creates -/
theorem Inv.lt_of_created (h : Inv s) {j : ℕ} (hj : (s.threads j).pc ≠ .notCreated) : j < s.numThreads := by
  rcases Nat.lt_trichotomy j s.i with hlt | heq | hgt
  · exact hlt.trans_le h.le
  · obtain ⟨w, hw⟩ := Option.ne_none_iff_exists'.1 fun hmain => hj ((h.notCreated j).2 (Or.inr ⟨heq, hmain⟩))
    rw [heq]; exact (h.waiting w hw).1
  · exact absurd ((h.notCreated j).2 (Or.inl hgt)) hj

/-- the main thread tests: it goes on, but for a spurious wakeup, after which it sleeps again -/
theorem look_rank (h : Inv s) {w : Waiter} (hw : s.main = some w) (hpassed : w ≠ .passed) :
    rank s.look ≤ rank s ∧ (w ≠ .blocked → rank s.look < rank s) := by
  have hlt := (h.waiting w hw).1
  have hrank : rank s.look = ∑ j ∈ Finset.range s.numThreads, threadRank (s.threads j).pc +
      (4 * (s.numThreads - s.i) - mainRank (some (.look (s.threads s.i).loop.isSome))) := rfl
  rw [hrank, rank, hw]
  have hgo : mainRank (some w) ≤ mainRank (some (.look (s.threads s.i).loop.isSome)) ∧
      (w ≠ .blocked → mainRank (some w) < mainRank (some (.look (s.threads s.i).loop.isSome))) := by
    cases hloop : (s.threads s.i).loop with
    | some a => cases w <;> simp_all [Waiter.look, mainRank]
    | none =>
      have hwoken : w ≠ .woken := fun hc => h.found (Or.inl (hw.trans (congrArg some hc))) hloop
      cases w <;> simp_all [Waiter.look, mainRank]
  have hle : mainRank (some (.look (s.threads s.i).loop.isSome)) ≤ 3 := by
    cases (s.threads s.i).loop <;> simp [Waiter.look, mainRank]
  constructor
  · omega
  · intro hb
    have := hgo.2 hb
    omega

/-- no step raises the rank, and only spurious wakeups do not lower it -/
theorem step_rank {o : Op} (h : Inv s) (hstep : s.step o = some t) :
    if o.real then rank t < rank s else rank t ≤ rank s := by
  cases o with
  | create =>
    simp only [step, Option.ite_none_right_eq_some, Option.some.injEq] at hstep
    obtain ⟨⟨hmain, hlt⟩, rfl⟩ := hstep
    have hpc := (h.notCreated s.i).2 (Or.inr ⟨rfl, hmain⟩)
    have hsum := sum_setThread (s := s) (u := ⟨none, .created⟩) hlt
    rw [hpc] at hsum
    have hsum := Nat.add_right_cancel hsum
    change ∑ j ∈ Finset.range s.numThreads, threadRank ((s.setThread s.i ⟨none, .created⟩).threads j).pc +
      (4 * (s.numThreads - s.i) - 1) < rank s
    rw [hsum, rank, hmain, mainRank]
    omega
  | look =>
    simp only [step, Option.ite_none_right_eq_some, Option.some.injEq] at hstep
    obtain ⟨hw, rfl⟩ := hstep
    rcases hw with hw | hw
    · exact (look_rank h hw fun hc => by cases hc).2 fun hc => by cases hc
    · exact (look_rank h hw fun hc => by cases hc).2 fun hc => by cases hc
  | spurious =>
    simp only [step, Option.ite_none_right_eq_some, Option.some.injEq] at hstep
    obtain ⟨hw, rfl⟩ := hstep
    exact (look_rank h hw fun hc => by cases hc).1
  | ret =>
    simp only [step, Option.ite_none_right_eq_some, Option.some.injEq] at hstep
    obtain ⟨hmain, rfl⟩ := hstep
    have hlt := (h.waiting _ hmain).1
    simp only [Op.real, if_true, rank, hmain, mainRank]
    omega
  | construct j addr =>
    simp only [step, Option.ite_none_right_eq_some, Option.some.injEq] at hstep
    obtain ⟨⟨hpc, -⟩, rfl⟩ := hstep
    have hlt := h.lt_of_created (j := j) (by rw [hpc]; intro hc; cases hc)
    have hsum := sum_setThread (u := ⟨(s.threads j).loop, .constructed addr⟩) hlt
    rw [hpc] at hsum
    change _ + 2 = _ + 1 at hsum
    change ∑ k ∈ Finset.range s.numThreads,
        threadRank ((s.setThread j ⟨(s.threads j).loop, .constructed addr⟩).threads k).pc +
      (4 * (s.numThreads - s.i) - mainRank s.main) < rank s
    unfold rank
    omega
  | publish j =>
    simp only [step] at hstep
    split at hstep
    · rename_i addr hpc
      cases hstep
      have hlt := h.lt_of_created (j := j) (by rw [hpc]; intro hc; cases hc)
      have hsum := sum_setThread (u := ⟨some addr, .looping addr⟩) hlt
      rw [hpc] at hsum
      change _ + 1 = _ + 0 at hsum
      have hmain : mainRank (if j = s.i then s.main.map Waiter.notify else s.main) = mainRank s.main := by
        split_ifs
        · exact mainRank_notify s.main
        · rfl
      change ∑ k ∈ Finset.range s.numThreads, threadRank ((s.setThread j ⟨some addr, .looping addr⟩).threads k).pc +
        (4 * (s.numThreads - s.i) - mainRank (if j = s.i then s.main.map Waiter.notify else s.main)) < rank s
      rw [hmain]
      unfold rank
      omega
    · cases hstep

/-- where start() has not returned, some thread can go on -/
theorem exists_step (h : Inv s) (hret : ¬ Returned s) : ∃ o, o.real = true ∧ s.step o ≠ none := by
  cases hmain : s.main with
  | none =>
    have hlt : s.i < s.numThreads := lt_of_le_of_ne h.le fun heq => hret ⟨heq, hmain⟩
    exact ⟨.create, rfl, by rw [step, if_pos ⟨hmain, hlt⟩]; exact Option.some_ne_none _⟩
  | some w =>
    cases w with
    | outside => exact ⟨.look, rfl, by rw [step, if_pos (Or.inl hmain)]; exact Option.some_ne_none _⟩
    | woken => exact ⟨.look, rfl, by rw [step, if_pos (Or.inr hmain)]; exact Option.some_ne_none _⟩
    | passed => exact ⟨.ret, rfl, by rw [step, if_pos hmain]; exact Option.some_ne_none _⟩
    | blocked =>
      -- the thread has not published yet
      have hloop : (s.threads s.i).loop = none := by
        by_contra hsome
        exact (h.waiting _ hmain).2 (Option.isSome_iff_ne_none.2 hsome) rfl
      have hcreated : (s.threads s.i).pc ≠ .notCreated := by
        rw [Ne, h.notCreated, hmain]
        simp
      cases hpc : (s.threads s.i).pc with
      | notCreated => exact absurd hpc hcreated
      | looping a =>
        rw [(h.published _ _).2 hpc] at hloop
        cases hloop
      | constructed addr =>
        exact ⟨.publish s.i, rfl, by simp only [step, hpc]; exact Option.some_ne_none _⟩
      | created =>
        -- an address that no EventLoop has
        obtain ⟨addr, haddr⟩ := Infinite.exists_notMem_finset
          ((Finset.range s.numThreads).biUnion fun k => (s.threads k).address.toFinset)
        refine ⟨.construct s.i addr, rfl, ?_⟩
        rw [step, if_pos]
        · exact Option.some_ne_none _
        · refine ⟨hpc, ?_⟩
          intro k hk hka
          exact haddr (Finset.mem_biUnion.2 ⟨k, Finset.mem_range.2 hk, by rw [hka]; simp⟩)

theorem rank_init (n : ℕ) : rank (init n) = 6 * n := by
  have hsum : ∑ j ∈ Finset.range n, threadRank ((init n).threads j).pc = n * 2 := by
    simp [init, EventLoopThread.new, threadRank]
  calc rank (init n) = n * 2 + (4 * (n - 0) - 0) := congrArg (· + _) hsum
    _ = 6 * n := by omega

/-- when start() has returned, the threads run their loops -/
theorem Inv.looping (h : Inv s) (hret : Returned s) (j : ℕ) :
    (s.threads j).pc = .notCreated ∨ ∃ a, (s.threads j).pc = .looping a := by
  rcases Nat.lt_or_ge j s.i with hlt | hge
  · obtain ⟨a, ha⟩ := Option.ne_none_iff_exists'.1 (h.started j hlt)
    exact Or.inr ⟨a, (h.published j a).1 ha⟩
  · rcases Nat.eq_or_lt_of_le hge with heq | hgt
    · exact Or.inl ((h.notCreated j).2 (Or.inr ⟨heq.symm, hret.2⟩))
    · exact Or.inl ((h.notCreated j).2 (Or.inl hgt))

/-- and nothing is left to do -/
theorem step_of_returned (h : Inv s) (hret : Returned s) (o : Op) : s.step o = none := by
  have hlooping := h.looping hret
  cases o with
  | create => exact if_neg fun hc => absurd hc.2 (by rw [hret.1]; exact lt_irrefl _)
  | look => exact if_neg (by rw [hret.2]; rintro (hc | hc) <;> cases hc)
  | spurious => exact if_neg (by rw [hret.2]; intro hc; cases hc)
  | ret => exact if_neg (by rw [hret.2]; intro hc; cases hc)
  | construct j addr =>
    refine if_neg fun hc => ?_
    rcases hlooping j with hpc | ⟨a, hpc⟩ <;> rw [hpc] at hc <;> cases hc.1
  | publish j =>
    rcases hlooping j with hpc | ⟨a, hpc⟩ <;> simp only [step, hpc]

/-- **Starting the loops.** In every run of start() and the threads it creates, with any spurious wakeups: the pointers in
loops_ are not null and different from each other; start() has returned, with all `n` of them, exactly when no thread can
take a step but a spurious wakeup; and before that there are at most `6 * n` such steps. -/
theorem start_returns {n : ℕ} {ops : List Op} (hrun : Machine.run step (init n) ops = some s) :
    (none ∉ s.loops ∧ s.loops.Nodup) ∧ (Returned s ↔ ∀ o, o.real = true → s.step o = none) ∧
      (Returned s → s.loops.length = n) ∧ ops.countP Op.real ≤ 6 * n := by
  have h : Inv s ∧ s.numThreads = n := Machine.run_inv (I := fun u => Inv u ∧ u.numThreads = n)
    (fun u o v hu huv => ⟨step_inv hu.1 huv, (step_numThreads huv).trans hu.2⟩) ⟨inv_init n, rfl⟩ hrun
  refine ⟨⟨?_, ?_⟩, ?_, ?_, ?_⟩
  · intro hnone
    rw [h.1.loops] at hnone
    obtain ⟨j, hj, hloop⟩ := List.mem_map.1 hnone
    exact h.1.started j (List.mem_range.1 hj) hloop
  · rw [h.1.loops]
    refine List.Nodup.map_on ?_ List.nodup_range
    intro j hj k hk heq
    obtain ⟨a, ha⟩ := Option.ne_none_iff_exists'.1 (h.1.started j (List.mem_range.1 hj))
    have hka : (s.threads k).loop = some a := by rw [← heq]; exact ha
    exact h.1.distinct j k a (address_of_looping ((h.1.published j a).1 ha)) (address_of_looping ((h.1.published k a).1 hka))
  · constructor
    · intro hret o _
      exact step_of_returned h.1 hret o
    · intro hstuck
      by_contra hret
      obtain ⟨o, hreal, ho⟩ := exists_step h.1 hret
      exact ho (hstuck o hreal)
  · intro hret
    rw [h.1.loops, List.length_map, List.length_range, hret.1, h.2]
  · have hstep : ∀ u o v, Inv u → step u o = some v → Inv v ∧ (if o.real then rank v < rank u else rank v ≤ rank u) :=
      fun u o v hu huv => ⟨step_inv hu huv, step_rank hu huv⟩
    have hle := Machine.run_countP hstep (inv_init n) hrun
    rw [rank_init] at hle
    omega

/-- two threads; the main thread tests too early, and wakes for no reason -/
def twoThreads : List Op :=
  [.create, .look, .construct 0 40, .spurious, .publish 0, .look, .ret, .create, .construct 1 41, .publish 1, .look, .ret]

theorem start_returns_two : ∃ s, Machine.run step (init 2) twoThreads = some s ∧ s.loops = [some 40, some 41] ∧
    Returned s ∧ ∀ o, o.real = true → s.step o = none := by
  have hrun : (Machine.run step (init 2) twoThreads).any fun s =>
      s.loops = [some 40, some 41] ∧ s.i = s.numThreads ∧ s.main = none := by decide
  obtain ⟨s, hs, hfacts⟩ := (Option.any_eq_true _ _).1 hrun
  obtain ⟨hloops, hret⟩ := of_decide_eq_true hfacts
  exact ⟨s, hs, hloops, hret, (start_returns hs).2.1.1 hret⟩

end StartLoops

end Glacier
