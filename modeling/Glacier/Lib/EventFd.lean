/-
An eventfd registered with an epoll instance, edge triggered. A write raises the counter and queues the descriptor on
the ready list; a look by epoll_wait takes it off the list and reports it if it is readable; a read drains the counter
and leaves the list alone. A non-blocking write fails when the counter is full.
- `write_pending`: on a descriptor whose non-zero counter is always queued, a write leaves an event to be reported.
- `report_of_pending`, `report_missed`: what a look reports, and what it means when it reports nothing.
-/
import Mathlib.Tactic

structure EventFd where
  count : ℕ
  /-- on the ready list: written to since the last look -/
  ready : Bool
deriving DecidableEq, Repr

namespace EventFd

def new : EventFd := ⟨0, false⟩

/-- the largest value of the counter -/
def maxCount : ℕ := 2 ^ 64 - 2

/-- write(2) of the value 1 -/
def write (e : EventFd) : EventFd := if e.count < maxCount then ⟨e.count + 1, true⟩ else e

/-- read(2) -/
def read (e : EventFd) : EventFd := ⟨0, e.ready⟩

/-- one look of epoll_wait -/
def report (e : EventFd) : EventFd × Bool := (⟨e.count, false⟩, e.ready && e.count != 0)

/-- a write is outstanding that no look has reported -/
def Pending (e : EventFd) : Prop := e.ready = true ∧ e.count ≠ 0

/-- every write has been queued and not looked at, or has been drained -/
def Queued (e : EventFd) : Prop := e.count ≠ 0 → e.ready = true

theorem new_queued : new.Queued := fun h => absurd rfl h

theorem write_queued {e : EventFd} (h : e.Queued) : e.write.Queued := by
  unfold write Queued
  split_ifs
  · exact fun _ => rfl
  · exact h

theorem write_pending {e : EventFd} (h : e.Queued) : e.write.Pending := by
  unfold write
  split_ifs with hlt
  · exact ⟨rfl, Nat.succ_ne_zero _⟩
  · have hne : e.count ≠ 0 := by unfold maxCount at hlt; omega
    exact ⟨h hne, hne⟩

theorem read_queued (e : EventFd) : e.read.Queued := fun h => absurd rfl h

theorem report_of_pending {e : EventFd} (h : e.Pending) : e.report.2 = true := by simp [report, h.1, h.2]

/-- a look that reports nothing leaves a drained counter -/
theorem report_missed {e : EventFd} (h : e.Queued) (hr : e.report.2 = false) : e.report.1.count = 0 := by
  by_contra hne
  have hp : e.report.2 = true := report_of_pending ⟨h hne, hne⟩
  rw [hr] at hp; cases hp

end EventFd
