/-
The connections of one event loop: HttpData's part of loop() (eventloop.cc), the poller's tables (epoll.cc), handleConn,
handleClose and newEvent (httpdata.cc), handleNewConn's part that concerns the loop (tcpserver.cc) and the timer heap
(timer.cc).

`accept` is handleNewConn, in whichever thread; all other operations are steps of the loop's thread: one return of
epoll_wait with any masks, handleEvents of the next active channel up to its callbacks, each callback with the results of
its read(2) and write(2) calls, the swap of the pending functors, each functor, each turn of handleExpiredEvent.

An HttpData object is known by its ConnId. It owns its descriptor until its last reference is dropped; `alive` says who
refers to it. `interest` is the kernel's interest list: a reported one-shot entry keeps its mode bits and loses the
others. epoll_ctl succeeds. The wakeup and listening descriptors have no HttpData and are left out, so that an iteration
may have no active channel.
-/
import Glacier.Http.Connection

namespace Glacier

open Cxx

/-- where the loop's thread stands -/
inductive LoopPc where
  /-- in epoll_wait; the last iteration has ended -/
  | poll
  /-- at the head of the for loop over activeChannels, with those that are left -/
  | dispatch (active : List ConnId)
  /-- in handleEvents of `c`, before the callbacks `cbs` -/
  | callbacks (c : ConnId) (cbs : List Callback) (active : List ConnId)
  /-- in doPendingFunctors, before the newEvent calls `fs`; without any, in handleExpiredEvent -/
  | functors (fs : List ConnId)
deriving DecidableEq, Repr

structure Connections where
  conns : ConnId → HttpData
  fd2chan : ℕ → Option ConnId
  fd2http : ℕ → Option ConnId
  interest : ℕ → Option Events
  heap : List Timer
  /-- pendingFunctors_: the connections whose newEvent waits -/
  pendingFunctors : List ConnId
  nextConn : ℕ
  nextTimer : ℕ
  pc : LoopPc

namespace Connections

def set (l : Connections) (c : ConnId) (h : HttpData) : Connections := { l with conns := Function.update l.conns c h }

def setEvents (l : Connections) (c : ConnId) (ev : Events) : Connections :=
  l.set c { l.conns c with channel := (l.conns c).channel.setEvents ev }

/-- a callback of `c` begins, with the outside world `io` -/
def enter (l : Connections) (c : ConnId) (io : Io) : Ctx := ⟨l.conns c, io, l.heap⟩

/-- and ends with `ctx` -/
def leave (l : Connections) (c : ConnId) (ctx : Ctx) : Connections := { l.set c ctx.http with heap := ctx.timers }

/-! ## The poller -/

/-- add_timer and addTimer; getHolder() gives the object itself, since its callers are the object's own members -/
def addTimer (l : Connections) (c : ConnId) (timeout : ℕ) (now : Timeval) : Connections :=
  { l.set c { l.conns c with timer := some l.nextTimer } with
    heap := .new l.nextTimer c timeout now :: l.heap
    nextTimer := l.nextTimer + 1 }

/-- epoll_add -/
def epollAdd (l : Connections) (c : ConnId) (timeout : ℕ) (now : Timeval) : Connections :=
  let fd := (l.conns c).fd
  let l := if timeout > 0 then { l.addTimer c timeout now with fd2http := Function.update l.fd2http fd (some c) } else l
  let (_, channel) := (l.conns c).channel.equalAndUpdateLastEvents
  { l.set c { l.conns c with channel := channel } with
    fd2chan := Function.update l.fd2chan fd (some c)
    interest := Function.update l.interest fd (some channel.events) }

/-- epoll_mod -/
def epollMod (l : Connections) (c : ConnId) (timeout : ℕ) (now : Timeval) : Connections :=
  let l := if timeout > 0 then l.addTimer c timeout now else l
  let (equal, channel) := (l.conns c).channel.equalAndUpdateLastEvents
  let l := l.set c { l.conns c with channel := channel }
  if equal then l
  else { l with interest := Function.update l.interest (l.conns c).fd (some channel.events) }

/-- epoll_del -/
def epollDel (l : Connections) (c : ConnId) : Connections :=
  let fd := (l.conns c).fd
  { l with
    fd2chan := Function.update l.fd2chan fd none
    fd2http := Function.update l.fd2http fd none
    interest := Function.update l.interest fd none }

/-! ## HttpData's members that use the loop -/

def newEvent (l : Connections) (c : ConnId) (now : Timeval) : Connections :=
  (l.setEvents c DEFAULT_EVENT).epollAdd c DEFAULT_EXPIRED_TIME now

def handleClose (l : Connections) (c : ConnId) : Connections :=
  (l.set c { l.conns c with connstate := .disconnected }).epollDel c

def seperateTimer (l : Connections) (c : ConnId) : Connections :=
  { l.set c { l.conns c with timer := none } with heap := resetTimer l.heap (l.conns c).timer }

/-- handleConn after seperateTimer -/
def rearm (l : Connections) (c : ConnId) (now : Timeval) : Connections :=
  let h := l.conns c
  let event := h.channel.events
  if h.error = false ∧ h.connstate = .connected then
    if event ≠ 0 then
      let t := if h.keepAlive then DEFAULT_KEEP_ALIVE_TIME else DEFAULT_EXPIRED_TIME
      let event := if has event EPOLLIN && has event EPOLLOUT then 0 ||| EPOLLOUT else event
      (l.setEvents c (event ||| EPOLLET)).epollMod c t now
    else if h.keepAlive then
      (l.setEvents c (event ||| (EPOLLIN ||| EPOLLET))).epollMod c DEFAULT_KEEP_ALIVE_TIME now
    else
      (l.setEvents c (event ||| (EPOLLIN ||| EPOLLET))).epollMod c (DEFAULT_KEEP_ALIVE_TIME >>> 1) now
  else if h.error = false ∧ h.connstate = .disconnecting ∧ has event EPOLLOUT then
    l.setEvents c (EPOLLOUT ||| EPOLLET)
  else l.handleClose c

def handleConn (l : Connections) (c : ConnId) (now : Timeval) : Connections := (l.seperateTimer c).rearm c now

/-! ## The steps -/

/-- the kernel's entry after a report -/
def reported (m : Events) : Events := if has m EPOLLONESHOT then m &&& (EPOLLONESHOT ||| EPOLLET) else m

/-- one turn of getActiveChannels, and the kernel's side of the report -/
def report (l : Connections) (e : ℕ × Events) : Connections :=
  let l := { l with interest := Function.update l.interest e.1 ((l.interest e.1).map reported) }
  match l.fd2chan e.1 with
  | none => l
  | some c => l.set c { l.conns c with channel := ((l.conns c).channel.setRevents e.2).setEvents 0 }

/-- heap_.pop(); the timer's destructor closes the connection that it still holds -/
def pop (l : Connections) (t : Timer) : Connections :=
  let l := { l with heap := l.heap.erase t }
  match t.httpdata with
  | none => l
  | some c => l.handleClose c

/-- the newEvent calls of the running doPendingFunctors -/
def LoopPc.running : LoopPc → List ConnId
  | .functors fs => fs
  | _ => []

/-- some shared pointer refers to `c` -/
def alive (l : Connections) (c : ConnId) : Prop :=
  l.fd2http (l.conns c).fd = some c ∨ c ∈ l.pendingFunctors ∨ c ∈ LoopPc.running l.pc ∨ ∃ t ∈ l.heap, t.httpdata = some c

instance (l : Connections) (c : ConnId) : Decidable (l.alive c) := inferInstanceAs (Decidable (_ ∨ _ ∨ _ ∨ _))

inductive Op where
  /-- accept(2) returns a descriptor that no object owns; the new object's newEvent is queued -/
  | accept (fd : ℕ)
  | poll (events : List (ℕ × Events))
  | handleEvents
  | callback (reads : List ReadResult) (writes : List WriteResult) (fs : FileSystem) (now : Timeval)
  | doPendingFunctors
  | newEvent (now : Timeval)
  /-- one turn of handleExpiredEvent, with the timer that top() gives -/
  | handleExpired (top : Option Timer) (now : Timeval)

/-- the next step after a callback of `c` -/
def nextPc (c : ConnId) (cbs : List Callback) (active : List ConnId) : LoopPc :=
  if cbs = [] then .dispatch active else .callbacks c cbs active

/-- a callback of `c`; none if the process dies on a mapping that failed. errorCallback_ is never set, and the call of the
empty function is caught. -/
def callback (l : Connections) (c : ConnId) (cb : Callback) (io : Io) (now : Timeval) : Option Connections :=
  match cb with
  | .read =>
    let ctx := (l.enter c io).handleRead
    if ctx.io.fault then none else some (l.leave c ctx)
  | .write => some (l.leave c (l.enter c io).handleWrite)
  | .error => some l
  | .conn => some (l.handleConn c now)

def step (l : Connections) : Op → Option Connections
  | .accept fd =>
    if ∀ c < l.nextConn, l.alive c → (l.conns c).fd ≠ fd then
      some { l.set l.nextConn (.new fd) with
        pendingFunctors := l.pendingFunctors ++ [l.nextConn]
        nextConn := l.nextConn + 1 }
    else none
  | .poll events =>
    -- epoll_wait reports a descriptor once
    if l.pc = .poll ∧ (events.map Prod.fst).Nodup then
      some { events.foldl report l with pc := .dispatch (events.filterMap fun e => l.fd2chan e.1) }
    else none
  | .handleEvents =>
    match l.pc with
    | .dispatch (c :: active) =>
      some { l.setEvents c 0 with pc := nextPc c (Channel.dispatch (l.conns c).channel.revents) active }
    | _ => none
  | .callback reads writes fs now =>
    match l.pc with
    | .callbacks c (cb :: cbs) active =>
      (l.callback c cb ⟨reads, writes, fs, [], [], false⟩ now).map fun l => { l with pc := nextPc c cbs active }
    | _ => none
  | .doPendingFunctors =>
    if l.pc = .dispatch [] then some { l with pc := .functors l.pendingFunctors, pendingFunctors := [] } else none
  | .newEvent now =>
    match l.pc with
    | .functors (c :: fs) => some { l.newEvent c now with pc := .functors fs }
    | _ => none
  | .handleExpired top now =>
    if l.pc = .functors [] then
      match top with
      | none => if l.heap = [] then some { l with pc := .poll } else none
      | some t =>
        if IsTop l.heap t then
          if t.deleted ∨ (t.isValid now).1 = false then some (l.pop t) else some { l with pc := .poll }
        else none
    else none

/-- the loop when it enters loop() -/
def init : Connections where
  conns := fun _ => .new 0
  fd2chan := fun _ => none
  fd2http := fun _ => none
  interest := fun _ => none
  heap := []
  pendingFunctors := []
  nextConn := 0
  nextTimer := 0
  pc := .poll

end Connections

end Glacier
