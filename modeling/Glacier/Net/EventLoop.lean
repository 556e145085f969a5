/-
One EventLoop (eventloop.cc) run by the thread of an EventLoopThread (eventloop_thread.cc), and the calls that other
threads make on it.

Actors, all through `step`, interleaved arbitrarily:
- the loop's thread: publishes `loop_`, enters loop(), then polls, handles the reported channels, runs the pending
  functors and the expired timers, and tests quit_ again. `loop` is its next micro-step, `poll` one return of
  epoll_wait. While a callback or a functor runs it may call queueInLoop (`selfPush`, then `selfWake`) and quit();
- other threads, any number of them: queueInLoop (and runInLoop, which is queueInLoop for them) in two steps, `push`
  under mutex_ and `wake`; quit() in two steps, `quitStore` and `quitWake`;
- the thread in startLoop: `startReturn`, once loop_ is published.

The kernel side is `efd`, the wakeup eventfd on the ready list of the loop's epoll instance, and `armed`, the mask
registered for it. A return of epoll_wait that fails, or that fills its array before, does not come to the wakeup
descriptor: `looked` says whether it did. `pushed` and `ran` are history: the functors in the order they were pushed under
mutex_, and in the order they were started. The other channels' own work and the timers do not touch the queue and are left
out.
-/
import Glacier.Net.Channel
import Glacier.Lib.EventFd
import Glacier.Lib.Machine

namespace Glacier.EventLoop

/-- where another thread stands in a call on the loop -/
inductive Call where
  | idle
  /-- in queueInLoop, between the push and wakeup() -/
  | pushed
  /-- in quit(), between `quit_ = true` and wakeup() -/
  | quitStored
deriving DecidableEq, Repr

/-- an active channel: the wakeup channel or another one -/
inductive Chan where
  | wakeup
  | other
deriving DecidableEq, Repr

/-- where the loop's thread stands -/
inductive Pc where
  /-- in threadFunc, before loop_ is published -/
  | constructed
  /-- before loop(): `assert(!looping_); looping_ = true;` -/
  | published
  /-- before `quit_ = false` -/
  | entered
  /-- before the test of `while (!quit_)` -/
  | test
  /-- in epoll_wait -/
  | poll
  /-- in the for loop over activeChannels, before handleEvents of the first of `batch` -/
  | events (batch : List Chan)
  /-- in a callback of another channel -/
  | callback (batch : List Chan)
  /-- in handleEvents of the wakeup channel, before its connCallback_ -/
  | drained (batch : List Chan)
  /-- before `callingPendingFunctors_ = true` -/
  | doPending
  /-- before the swap under mutex_ -/
  | swap
  /-- at the head of the for loop over the swapped-out functors -/
  | running
  /-- in `functors[i]()` -/
  | functor
  /-- before handleExpired -/
  | expire
  | exited
deriving DecidableEq, Repr

structure St (τ φ : Type) where
  pc : Pc
  looping : Bool
  quit : Bool
  eventHandling : Bool
  callingPendingFunctors : Bool
  efd : EventFd
  wakeupChannel : Channel
  /-- the mask registered for the wakeup descriptor -/
  armed : Events
  pendingFunctors : List φ
  /-- the swapped-out functors that have not been started -/
  functors : List φ
  /-- the loop's thread is in queueInLoop, after its push -/
  self : Bool
  calls : τ → Call
  /-- startLoop has returned -/
  started : Bool
  /-- completed quit() calls of other threads -/
  quits : ℕ
  pushed : List φ
  ran : List φ

inductive Op (τ φ : Type) where
  | loop
  | poll (batch : List Chan) (looked : Bool)
  | selfPush (f : φ)
  | selfWake
  | selfQuit
  | push (t : τ) (f : φ)
  | wake (t : τ)
  | quitStore (t : τ)
  | quitWake (t : τ)
  | startReturn

def wakeupEvents : Events := EPOLLIN ||| EPOLLET

variable {τ φ : Type}

/-- the constructor: the wakeup channel is registered for EPOLLIN | EPOLLET -/
def init : St τ φ where
  pc := .constructed
  looping := false
  quit := false
  eventHandling := false
  callingPendingFunctors := false
  efd := .new
  wakeupChannel := ⟨wakeupEvents, 0, wakeupEvents⟩
  armed := wakeupEvents
  pendingFunctors := []
  functors := []
  self := false
  calls := fun _ => .idle
  started := false
  quits := 0
  pushed := []
  ran := []

/-- EventLoop::handleRead -/
def handleRead (s : St τ φ) : St τ φ :=
  { s with efd := s.efd.read, wakeupChannel := s.wakeupChannel.setEvents wakeupEvents }

/-- EventLoop::handleConn: epoll_mod programs the mask unless it is the last one programmed -/
def handleConn (s : St τ φ) : St τ φ :=
  let (same, chan) := s.wakeupChannel.equalAndUpdateLastEvents
  { s with
    wakeupChannel := chan
    armed := if same then s.armed else chan.events }

/-- handleEvents of the wakeup channel up to its connCallback_: it sets no write and no error callback -/
def handleEvents (s : St τ φ) (batch : List Chan) : St τ φ :=
  let callbacks := Channel.dispatch s.wakeupChannel.revents
  let s := { s with wakeupChannel := s.wakeupChannel.setEvents 0 }
  let s := if .read ∈ callbacks then handleRead s else s
  if .conn ∈ callbacks then { s with pc := .drained batch } else { s with pc := .events batch }

/-- one return of epoll_wait and getActiveChannels; an empty result polls again -/
def poll (s : St τ φ) (batch : List Chan) (looked : Bool) : Option (St τ φ) :=
  let (efd, reported) := if looked then s.efd.report else (s.efd, false)
  if batch.count .wakeup = (if reported then 1 else 0) then
    if batch = [] then some { s with efd := efd }
    else
      some { s with
        efd := efd
        wakeupChannel :=
          if reported then (s.wakeupChannel.setRevents EPOLLIN).setEvents 0 else s.wakeupChannel
        eventHandling := true
        pc := .events batch }
  else none

/-- the next micro-step of the loop's thread outside epoll_wait -/
def loop (s : St τ φ) : Option (St τ φ) :=
  match s.pc with
  | .constructed => some { s with pc := .published }
  | .published => some { s with looping := true, pc := .entered }
  | .entered => some { s with quit := false, pc := .test }
  | .test => some (if s.quit then { s with looping := false, pc := .exited } else { s with pc := .poll })
  | .poll => none
  | .events [] => some { s with eventHandling := false, pc := .doPending }
  | .events (.other :: batch) => some { s with pc := .callback batch }
  | .events (.wakeup :: batch) => some (handleEvents s batch)
  | .callback batch => if s.self then none else some { s with pc := .events batch }
  | .drained batch => some { handleConn s with pc := .events batch }
  | .doPending => some { s with callingPendingFunctors := true, pc := .swap }
  | .swap => some { s with functors := s.pendingFunctors, pendingFunctors := s.functors, pc := .running }
  | .running =>
    match s.functors with
    | [] => some { s with callingPendingFunctors := false, pc := .expire }
    | f :: rest => some { s with functors := rest, ran := s.ran ++ [f], pc := .functor }
  | .functor => if s.self then none else some { s with pc := .running }
  | .expire => some { s with pc := .test }
  | .exited => none

/-- the loop's thread runs code that is not its own: a callback or a functor -/
def inUserCode : Pc → Bool
  | .callback _ | .functor => true
  | _ => false

variable [DecidableEq τ]

/-- the state after thread t has moved to `c` in its call -/
def setCall (s : St τ φ) (t : τ) (c : Call) : St τ φ := { s with calls := Function.update s.calls t c }

def step (s : St τ φ) : Op τ φ → Option (St τ φ)
  | .loop => loop s
  | .poll batch looked => if s.pc = .poll then poll s batch looked else none
  | .selfPush f =>
    if inUserCode s.pc ∧ s.self = false then
      some { s with pendingFunctors := s.pendingFunctors ++ [f], pushed := s.pushed ++ [f], self := true }
    else none
  | .selfWake =>
    if s.self then
      some { s with efd := if s.callingPendingFunctors then s.efd.write else s.efd, self := false }
    else none
  | .selfQuit => if inUserCode s.pc then some { s with quit := true } else none
  | .push t f =>
    if s.calls t = .idle then
      some (setCall { s with pendingFunctors := s.pendingFunctors ++ [f], pushed := s.pushed ++ [f] } t .pushed)
    else none
  | .wake t => if s.calls t = .pushed then some (setCall { s with efd := s.efd.write } t .idle) else none
  | .quitStore t =>
    if s.started ∧ s.calls t = .idle then some (setCall { s with quit := true } t .quitStored) else none
  | .quitWake t =>
    if s.calls t = .quitStored then
      some (setCall { s with efd := s.efd.write, quits := s.quits + 1 } t .idle)
    else none
  | .startReturn => if s.pc ≠ .constructed then some { s with started := true } else none

end Glacier.EventLoop
