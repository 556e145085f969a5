/-
CountDownLatch (base/countdown.cc), with any threads in wait() and any calls of countDown().

The predicate of wait() is `count_ == 0`, and countDown() goes on below 0: a call more than the count makes it false again.
- `latch_spec`: wait() returns only after `count` calls; no wakeup is lost; and a thread that has not returned can still do
  so exactly while there were no more calls than that.
-/
import Glacier.Lib.Machine
import Glacier.Lib.Monitor

namespace Glacier

open Monitor

structure CountDownLatch (ι : Type*) where
  count : ℤ
  /-- the threads in wait() -/
  waiters : ι → Waiter

namespace CountDownLatch

variable {ι : Type*} [DecidableEq ι]

def new (count : ℤ) : CountDownLatch ι := ⟨count, fun _ => .outside⟩

/-- the lambda of wait() -/
def zero (l : CountDownLatch ι) : Bool := l.count == 0

inductive Op (ι : Type*) where
  /-- the test in wait(), at first or after a notification -/
  | look (i : ι)
  /-- a spurious wakeup, and the test -/
  | spurious (i : ι)
  | countDown
deriving DecidableEq

def look (l : CountDownLatch ι) (i : ι) : CountDownLatch ι :=
  { l with waiters := Function.update l.waiters i (.look l.zero) }

/-- `--count_` is undefined at the least int -/
def countDown (l : CountDownLatch ι) : Option (CountDownLatch ι) :=
  if -2147483648 < l.count then
    let l := { l with count := l.count - 1 }
    some (if l.count = 0 then { l with waiters := fun i => (l.waiters i).notify } else l)
  else none

def step (l : CountDownLatch ι) : Op ι → Option (CountDownLatch ι)
  | .look i => if l.waiters i = .outside ∨ l.waiters i = .woken then some (l.look i) else none
  | .spurious i => if l.waiters i = .blocked then some (l.look i) else none
  | .countDown => l.countDown

/-! ## What a step does -/

variable {l m : CountDownLatch ι} {i j : ι}

theorem look_self (l : CountDownLatch ι) (i : ι) : (l.look i).waiters i = .look l.zero := Function.update_self ..

theorem look_of_ne (l : CountDownLatch ι) (hj : j ≠ i) : (l.look i).waiters j = l.waiters j := Function.update_of_ne hj ..

theorem step_cases {o : Op ι} (hstep : l.step o = some m) :
    (∃ i, o ≠ .countDown ∧ l.waiters i ≠ .passed ∧ m = l.look i) ∨
      (o = .countDown ∧ m.count = l.count - 1 ∧ (∀ i, m.waiters i = .passed ↔ l.waiters i = .passed) ∧
        ∀ i, m.count = 0 → m.waiters i ≠ .blocked) := by
  cases o with
  | look i =>
    simp only [step, Option.ite_none_right_eq_some, Option.some.injEq] at hstep
    obtain ⟨hw, rfl⟩ := hstep
    refine Or.inl ⟨i, (by intro h; cases h), ?_, rfl⟩
    intro hpassed
    rw [hpassed] at hw
    rcases hw with hw | hw <;> cases hw
  | spurious i =>
    simp only [step, Option.ite_none_right_eq_some, Option.some.injEq] at hstep
    obtain ⟨hw, rfl⟩ := hstep
    refine Or.inl ⟨i, (by intro h; cases h), ?_, rfl⟩
    intro hpassed
    rw [hpassed] at hw
    cases hw
  | countDown =>
    simp only [step, countDown, Option.ite_none_right_eq_some, Option.some.injEq] at hstep
    obtain ⟨-, rfl⟩ := hstep
    refine Or.inr ⟨rfl, ?_⟩
    split_ifs with hzero
    · exact ⟨rfl, fun i => Waiter.notify_eq_passed, fun i _ => Waiter.notify_ne_blocked _⟩
    · exact ⟨rfl, fun i => Iff.rfl, fun i h => absurd h hzero⟩

/-- after `calls` calls of countDown() -/
structure Inv (start : ℤ) (calls : ℕ) (l : CountDownLatch ι) : Prop where
  count : l.count = start - calls
  awake : ∀ i, (l.waiters i).Awake l.zero
  passed : ∀ i, l.waiters i = .passed → start ≤ calls

variable {start : ℤ} {calls : ℕ}

theorem look_inv (h : Inv start calls l) (i : ι) : Inv start calls (l.look i) := by
  refine ⟨h.count, ?_, ?_⟩
  · intro j
    by_cases hj : j = i
    · rw [hj, look_self]; exact Waiter.Awake.look _
    · rw [look_of_ne l hj]; exact h.awake j
  · intro j hj
    by_cases hji : j = i
    · rw [hji, look_self, Waiter.look_eq_passed, zero, beq_iff_eq, h.count] at hj
      omega
    · rw [look_of_ne l hji] at hj
      exact h.passed j hj

theorem step_inv {o : Op ι} (h : Inv start calls l) (hstep : l.step o = some m) :
    Inv start (calls + [o].count .countDown) m := by
  rcases step_cases hstep with ⟨i, ho, -, rfl⟩ | ⟨rfl, hcount, hpassed, hawake⟩
  · rw [List.count_singleton, beq_eq_false_iff_ne.2 ho]
    exact look_inv h i
  · rw [List.count_singleton_self]
    refine ⟨?_, ?_, ?_⟩
    · rw [hcount, h.count]
      push_cast
      ring
    · intro i hzero
      exact hawake i (beq_iff_eq.1 hzero)
    · intro i hi
      have := h.passed i ((hpassed i).1 hi)
      push_cast
      omega

theorem run_inv {ops : List (Op ι)} (h : Inv start calls l) (hrun : Machine.run step l ops = some m) :
    Inv start (calls + ops.count .countDown) m := by
  induction ops generalizing l calls with
  | nil => cases hrun; exact h
  | cons o ops ih =>
    obtain ⟨n, hn, hrun⟩ := Machine.run_cons.1 hrun
    have hrest := ih (step_inv h hn) hrun
    rw [Nat.add_assoc, ← List.count_append, List.singleton_append] at hrest
    exact hrest

omit [DecidableEq ι] in
theorem inv_new (start : ℤ) : Inv start 0 (new start : CountDownLatch ι) where
  count := (sub_zero start).symm
  awake := fun _ _ h => by cases h
  passed := fun _ h => by cases h

/-! ## Whether wait() can still return -/

/-- a thread that tests while the count is 0 -/
theorem returns_of_zero (hzero : l.count = 0) (hi : l.waiters i ≠ .passed) (hawake : l.waiters i ≠ .blocked) :
    ∃ m, l.step (.look i) = some m ∧ m.waiters i = .passed := by
  refine ⟨l.look i, if_pos ?_, ?_⟩
  · cases hw : l.waiters i with
    | outside => exact Or.inl rfl
    | woken => exact Or.inr rfl
    | blocked => exact absurd hw hawake
    | passed => exact absurd hw hi
  · rw [look_self, zero, hzero]; rfl

/-- the calls that are left bring the count to 0 -/
theorem reaches_zero {n : ℕ} (hcount : l.count = n) : ∃ m, Machine.Reaches step l m ∧ m.count = 0 := by
  induction n generalizing l with
  | zero => exact ⟨l, .refl l, hcount⟩
  | succ n ih =>
    have hstep : ∃ m, l.step .countDown = some m ∧ m.count = n := by
      refine ⟨_, if_pos (by rw [hcount]; omega), ?_⟩
      have hn : l.count - 1 = n := by rw [hcount]; push_cast; ring
      split_ifs <;> exact hn
    obtain ⟨m, hm, hcount⟩ := hstep
    obtain ⟨k, hk, hzero⟩ := ih hcount
    exact ⟨k, hk.head .countDown hm, hzero⟩

/-- below 0 the predicate stays false -/
theorem step_below {o : Op ι} (h : l.count < 0 ∧ l.waiters i ≠ .passed) (hstep : l.step o = some m) :
    m.count < 0 ∧ m.waiters i ≠ .passed := by
  rcases step_cases hstep with ⟨j, -, -, rfl⟩ | ⟨-, hcount, hpassed, -⟩
  · refine ⟨h.1, ?_⟩
    by_cases hj : i = j
    · rw [hj, look_self]
      intro hp
      have hzero := beq_iff_eq.1 (Waiter.look_eq_passed.1 hp)
      have := h.1
      omega
    · rw [look_of_ne l hj]; exact h.2
  · exact ⟨by have := h.1; omega, fun hp => h.2 ((hpassed i).1 hp)⟩

/-- **The latch.** A wait() that has returned did so after `start` calls of countDown() at least. After `start` calls nobody
sleeps who has not tested since. And a thread whose wait() has not returned can return in the rest of some run if and only if
there have been no more than `start` calls: one call too many, and whoever has not looked by then waits for ever. -/
theorem latch_spec {ops : List (Op ι)} (hrun : Machine.run step (new start) ops = some l) (i : ι) :
    (l.waiters i = .passed → start ≤ ops.count .countDown) ∧
      (start = ops.count .countDown → l.waiters i ≠ .blocked) ∧
      (l.waiters i ≠ .passed →
        ((∃ m, Machine.Reaches step l m ∧ m.waiters i = .passed) ↔ (ops.count .countDown : ℤ) ≤ start)) := by
  have h := run_inv (inv_new start) hrun
  rw [Nat.zero_add] at h
  refine ⟨h.passed i, ?_, ?_⟩
  · intro hstart
    refine h.awake i (beq_iff_eq.2 ?_)
    rw [h.count, hstart, sub_self]
  · intro hi
    constructor
    · intro ⟨m, ⟨more, hmore⟩, hpassed⟩
      by_contra hlt
      have hbelow : m.count < 0 ∧ m.waiters i ≠ .passed :=
        Machine.run_inv (fun _ _ _ hb hs => step_below hb hs) ⟨by rw [h.count]; omega, hi⟩ hmore
      exact hbelow.2 hpassed
    · intro hle
      have hcount : l.count = (start - ops.count .countDown).toNat := by rw [h.count]; omega
      obtain ⟨m, ⟨more, hmore⟩, hzero⟩ := reaches_zero hcount
      by_cases hpassed : m.waiters i = .passed
      · exact ⟨m, ⟨more, hmore⟩, hpassed⟩
      · have hawake : m.waiters i ≠ .blocked := (run_inv h hmore).awake i (beq_iff_eq.2 hzero)
        obtain ⟨k, hk, hreturns⟩ := returns_of_zero hzero hpassed hawake
        exact ⟨k, Machine.Reaches.trans ⟨more, hmore⟩ ((Machine.Reaches.refl k).head _ hk), hreturns⟩

/-- two calls on a latch of 1: the first thread has looked in between, the second has not -/
theorem latch_spec_late :
    ∃ l : CountDownLatch Bool,
      Machine.run step (new 1) [.look true, .countDown, .look true, .countDown, .look false] = some l ∧
      l.waiters true = .passed ∧ ¬ ∃ m, Machine.Reaches step l m ∧ m.waiters false = .passed := by
  have hrun : (Machine.run step (new 1 : CountDownLatch Bool)
      [.look true, .countDown, .look true, .countDown, .look false]).any
      fun l => l.waiters true = .passed ∧ l.waiters false = .blocked := by decide
  obtain ⟨l, hl, hfacts⟩ := (Option.any_eq_true _ _).1 hrun
  obtain ⟨hpassed, hblocked⟩ := of_decide_eq_true hfacts
  refine ⟨l, hl, hpassed, ?_⟩
  have hreturn := (latch_spec hl false).2.2 (by rw [hblocked]; intro h; cases h)
  rw [hreturn]
  decide

end CountDownLatch

end Glacier
