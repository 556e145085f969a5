/-
Channel (channel.h, channel.cc): the interest mask of one descriptor and the callbacks that a reported mask selects.
`dispatch` is the control flow of handleEvents: which of the four callbacks run, in which order.
-/
import Mathlib.Tactic

namespace Glacier

abbrev Events := BitVec 32

def EPOLLIN : Events := 0x001
def EPOLLPRI : Events := 0x002
def EPOLLOUT : Events := 0x004
def EPOLLERR : Events := 0x008
def EPOLLHUP : Events := 0x010
def EPOLLRDHUP : Events := 0x2000
def EPOLLONESHOT : Events := 0x40000000
def EPOLLET : Events := 0x80000000

/-- `mask & bits` used as a condition -/
def has (mask bits : Events) : Bool := mask &&& bits != 0

structure Channel where
  events : Events
  revents : Events
  lastevents : Events
deriving DecidableEq, Repr

inductive Callback where
  | read
  | write
  | error
  | conn
deriving DecidableEq, Repr

namespace Channel

def new : Channel := ⟨0, 0, 0⟩

def setEvents (c : Channel) (ev : Events) : Channel := { c with events := ev }

def setRevents (c : Channel) (rev : Events) : Channel := { c with revents := rev }

/-- EqualAndUpdateLastEvents -/
def equalAndUpdateLastEvents (c : Channel) : Bool × Channel :=
  (c.lastevents == c.events, { c with lastevents := c.events })

/-- the callbacks that handleEvents calls for `revents_`, in order -/
def dispatch (revents : Events) : List Callback :=
  if has revents EPOLLHUP && !has revents EPOLLIN then []
  else if has revents EPOLLERR then [.error]
  else
    (if has revents (EPOLLIN ||| EPOLLPRI ||| EPOLLRDHUP) then [.read] else []) ++
      (if has revents EPOLLOUT then [.write] else []) ++ [.conn]

/-- handleEvents does nothing, or calls errorCallback_, or ends with connCallback_ -/
theorem dispatch_cases (revents : Events) :
    dispatch revents = [] ∨ dispatch revents = [.error] ∨
      ∃ pre, dispatch revents = pre ++ [.conn] ∧ ∀ cb ∈ pre, cb = .read ∨ cb = .write := by
  unfold dispatch
  split_ifs
  · exact Or.inl rfl
  · exact Or.inr (Or.inl rfl)
  all_goals exact Or.inr (Or.inr ⟨_, rfl, by simp⟩)

/-- what runs beside readCallback_ -/
theorem dispatch_of_read {revents : Events} (h : Callback.read ∈ dispatch revents) :
    dispatch revents = [.read, .conn] ∨ dispatch revents = [.read, .write, .conn] := by
  unfold dispatch at h ⊢
  split_ifs at h ⊢ <;> simp_all

/-- a readable descriptor runs the read callback and then the connection callback -/
example : dispatch EPOLLIN = [.read, .conn] := by decide

end Channel

end Glacier
