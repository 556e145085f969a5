/-
A thread in `while (!pred) cond.wait(lock)`, as the other threads see it between two critical sections.

A wakeup is lost where a thread sleeps although the predicate holds. `Awake` says that it is not. A test of the predicate
keeps it (`Awake.look`), and so does whoever notifies behind a change (`Awake.notify`).
-/
import Mathlib.Tactic

namespace Monitor

inductive Waiter where
  /-- before the first test -/
  | outside
  /-- in wait(); only a notification or a spurious wakeup ends it -/
  | blocked
  /-- notified; the test comes next, when it has the mutex -/
  | woken
  /-- the test has found the predicate true -/
  | passed
deriving DecidableEq, Repr

namespace Waiter

/-- the test, with the mutex held -/
def look (p : Bool) : Waiter := if p then .passed else .blocked

/-- what notify_all makes of a thread -/
def notify : Waiter → Waiter
  | .blocked => .woken
  | w => w

/-- the thread does not sleep while the predicate holds -/
def Awake (p : Bool) (w : Waiter) : Prop := p = true → w ≠ .blocked

variable {p : Bool} {w : Waiter}

theorem look_eq_passed : look p = .passed ↔ p = true := by
  unfold look
  split_ifs with h
  · exact iff_of_true rfl h
  · exact iff_of_false (fun hp => by cases hp) h

theorem notify_eq_passed : w.notify = .passed ↔ w = .passed := by
  cases w <;> simp [notify]

theorem notify_ne_blocked (w : Waiter) : w.notify ≠ .blocked := by
  cases w <;> simp [notify]

theorem Awake.look (p : Bool) : Awake p (look p) := by
  intro hp
  rw [look_eq_passed.2 hp]
  exact fun h => by cases h

theorem Awake.notify (p : Bool) (w : Waiter) : Awake p w.notify := fun _ => notify_ne_blocked w

end Waiter

end Monitor
