/-
Who owns a descriptor, and for how long: the connections of one loop with the use counts of their HttpData, the kernel's
descriptors and failing calls of epoll_ctl.

On top of Connections there are
- `refs`: the use count of each HttpData. The object is destroyed, and its destructor closes the descriptor, when a
  reference is dropped and the count is 0;
- `functors`: the vector of the running doPendingFunctors, which holds its references until the end of the function;
- `reqInfo`: the local variable req_info of handleNewConn, which the thread that accepts may hold while this loop is already
  handling the connection;
- `owner`: the descriptors that accept(2) has given to an object and close(2) has not taken back;
- `trace`: what the steps have done to the objects and the tables, with the tables at that moment.

Each operation that calls epoll_ctl takes its result. epoll_wait may report any descriptors, so that `interest` says what
epoll_ctl has set and no step depends on it. The callbacks are bound with a raw `this`; a member function that runs is an
act of the trace, and one that goes on after it has let go of a reference is one more.
-/
import Glacier.Net.Connections
import Glacier.Lib.Machine
import Glacier.Lib.UseCount

namespace Glacier

open Cxx

def MAXFDS : ℕ := 100000

/-- the places where a descriptor or a reference is kept -/
structure Tables where
  owner : ℕ → Option ConnId
  fd2chan : ℕ → Option ConnId
  fd2http : ℕ → Option ConnId
  heap : List Timer
  pendingFunctors : List ConnId
  functors : List ConnId
  reqInfo : Option ConnId

namespace Tables

/-- the entries refer to the connections that own the descriptors -/
def Sound (t : Tables) : Prop := ∀ fd c, t.fd2chan fd = some c ∨ t.fd2http fd = some c → t.owner fd = some c

/-- fd2http_, a live timer, or a queued or running functor refers to `c` -/
def Held (t : Tables) (c : ConnId) : Prop :=
  (∃ fd, t.fd2http fd = some c) ∨ (∃ timer ∈ t.heap, timer.httpdata = some c) ∨ c ∈ t.pendingFunctors ∨ c ∈ t.functors

/-- some shared pointer refers to `c` between two steps -/
def Referred (t : Tables) (c : ConnId) : Prop := t.Held c ∨ t.reqInfo = some c

end Tables

inductive Act where
  /-- a member function of `c` runs -/
  | runs (c : ConnId)
  /-- epoll_del of `c`, between these tables -/
  | del (c : ConnId) (before after : Tables)
  /-- the destructor of `c` closes `fd` -/
  | close (c : ConnId) (fd : ℕ) (t : Tables)

/-- the objects whose destructor has closed their descriptor, in order -/
def closed (trace : List Act) : List ConnId :=
  trace.filterMap fun
    | .close c _ _ => some c
    | _ => none

/-- What an act must be after the acts `past`: no member function runs on a destroyed object, epoll_del clears no entry of
another connection, and an object closes its descriptor once, while it owns it, when nothing refers to the object. -/
def Act.Proper (past : List Act) : Act → Prop
  | .runs c => c ∉ closed past
  | .del c before after =>
    before.Sound ∧ after.Sound ∧ ∀ fd c', c' ≠ c →
      (before.fd2chan fd = some c' → after.fd2chan fd = some c') ∧
        (before.fd2http fd = some c' → after.fd2http fd = some c')
  | .close c fd t =>
    c ∉ closed past ∧ t.Sound ∧ t.owner fd = some c ∧ (∀ fd', t.fd2chan fd' ≠ some c ∧ t.fd2http fd' ≠ some c) ∧
      ¬ t.Referred c

structure Descriptors extends Connections where
  refs : ConnId → ℕ
  functors : List ConnId
  reqInfo : Option ConnId
  owner : ℕ → Option ConnId
  trace : List Act

namespace Descriptors

def tables (d : Descriptors) : Tables := ⟨d.owner, d.fd2chan, d.fd2http, d.heap, d.pendingFunctors, d.functors, d.reqInfo⟩

/-! ## Shared pointers -/

def log (d : Descriptors) (a : Act) : Descriptors := { d with trace := d.trace ++ [a] }

/-- a shared pointer to `c` is copied -/
def acquire (d : Descriptors) (c : ConnId) : Descriptors := { d with refs := UseCount.acquire d.refs c }

/-- ~HttpData -/
def destroy (d : Descriptors) (c : ConnId) : Descriptors :=
  { d.log (.close c (d.conns c).fd d.tables) with owner := Function.update d.owner (d.conns c).fd none }

/-- a shared pointer to `c` is dropped -/
def release (d : Descriptors) (c : ConnId) : Descriptors :=
  let d := { d with refs := UseCount.release d.refs c }
  if d.refs c = 0 then d.destroy c else d

def releaseAll (d : Descriptors) (cs : List ConnId) : Descriptors := cs.foldl release d

/-- holder_.lock() of the channel of `c` -/
def getHolder (d : Descriptors) (c : ConnId) : Option ConnId := if 0 < d.refs c then some c else none

/-- fd2http_[fd] = p -/
def setHttp (d : Descriptors) (fd : ℕ) (p : Option ConnId) : Descriptors :=
  { p.toList.foldl acquire d with fd2http := Function.update d.fd2http fd p }.releaseAll (d.fd2http fd).toList

/-- the timers become `heap`; those that have let go of their connection drop a reference to it -/
def setHeap (d : Descriptors) (heap : List Timer) : Descriptors :=
  { d with heap := heap }.releaseAll ((held d.heap).diff (held heap))

/-! ## The poller -/

def setConn (d : Descriptors) (c : ConnId) (h : HttpData) : Descriptors :=
  { d with toConnections := d.toConnections.set c h }

def setEvents (d : Descriptors) (c : ConnId) (ev : Events) : Descriptors :=
  { d with toConnections := d.toConnections.setEvents c ev }

/-- add_timer and addTimer; the new timer holds a reference -/
def addTimer (d : Descriptors) (c : ConnId) (timeout : ℕ) (now : Timeval) : Descriptors :=
  match d.getHolder c with
  | some h => { d.acquire h with toConnections := d.toConnections.addTimer h timeout now }
  | none => d

def epollAdd (d : Descriptors) (c : ConnId) (timeout : ℕ) (now : Timeval) (ok : Bool) : Descriptors :=
  let fd := (d.conns c).fd
  let d :=
    if timeout > 0 then
      let d := d.addTimer c timeout now
      d.setHttp fd (d.getHolder c)
    else d
  let (_, channel) := (d.conns c).channel.equalAndUpdateLastEvents
  let d := d.setConn c { d.conns c with channel := channel }
  { d with
    fd2chan := Function.update d.fd2chan fd (if ok then some c else none)
    interest := if ok then Function.update d.interest fd (some channel.events) else d.interest }

def epollMod (d : Descriptors) (c : ConnId) (timeout : ℕ) (now : Timeval) (ok : Bool) : Descriptors :=
  let d := if timeout > 0 then d.addTimer c timeout now else d
  let fd := (d.conns c).fd
  let (equal, channel) := (d.conns c).channel.equalAndUpdateLastEvents
  let d := d.setConn c { d.conns c with channel := channel }
  if equal then d
  else if ok then { d with interest := Function.update d.interest fd (some channel.events) }
  else { d with fd2chan := Function.update d.fd2chan fd none }

def epollDel (d : Descriptors) (c : ConnId) (ok : Bool) : Descriptors :=
  let before := d.tables
  let fd := (d.conns c).fd
  let d := if ok then { d with interest := Function.update d.interest fd none } else d
  let d := { d with fd2chan := Function.update d.fd2chan fd none }
  let d := d.setHttp fd none
  d.log (.del c before d.tables)

/-! ## HttpData's members -/

def newEvent (d : Descriptors) (c : ConnId) (now : Timeval) (ok : Bool) : Descriptors :=
  ((d.log (.runs c)).setEvents c DEFAULT_EVENT).epollAdd c DEFAULT_EXPIRED_TIME now ok

def handleClose (d : Descriptors) (c : ConnId) (ok : Bool) : Descriptors :=
  let d := d.log (.runs c)
  let d := d.setConn c { d.conns c with connstate := .disconnected }
  -- guard
  ((d.acquire c).epollDel c ok).release c

def seperateTimer (d : Descriptors) (c : ConnId) : Descriptors :=
  (d.setConn c { d.conns c with timer := none }).setHeap (resetTimer d.heap (d.conns c).timer)

/-- handleConn after seperateTimer -/
def rearm (d : Descriptors) (c : ConnId) (now : Timeval) (ok : Bool) : Descriptors :=
  let h := d.conns c
  let event := h.channel.events
  if h.error = false ∧ h.connstate = .connected then
    if event ≠ 0 then
      let t := if h.keepAlive then DEFAULT_KEEP_ALIVE_TIME else DEFAULT_EXPIRED_TIME
      let event := if has event EPOLLIN && has event EPOLLOUT then 0 ||| EPOLLOUT else event
      (d.setEvents c (event ||| EPOLLET)).epollMod c t now ok
    else if h.keepAlive then
      (d.setEvents c (event ||| (EPOLLIN ||| EPOLLET))).epollMod c DEFAULT_KEEP_ALIVE_TIME now ok
    else
      (d.setEvents c (event ||| (EPOLLIN ||| EPOLLET))).epollMod c (DEFAULT_KEEP_ALIVE_TIME >>> 1) now ok
  else if h.error = false ∧ h.connstate = .disconnecting ∧ has event EPOLLOUT then
    d.setEvents c (EPOLLOUT ||| EPOLLET)
  else
    -- the functor that runInLoop calls at once
    ((d.acquire c).handleClose c ok).release c

def handleConn (d : Descriptors) (c : ConnId) (now : Timeval) (ok : Bool) : Descriptors :=
  ((((d.log (.runs c)).seperateTimer c).log (.runs c))).rearm c now ok

/-- handleRead or handleWrite of `c`, which leaves `ctx` -/
def member (d : Descriptors) (c : ConnId) (ctx : Ctx) : Descriptors :=
  (((d.log (.runs c)).setConn c ctx.http).setHeap ctx.timers).log (.runs c)

/-! ## The steps -/

/-- heap_.pop(); the timer's destructor closes the connection that it still holds, and then drops it -/
def pop (d : Descriptors) (t : Timer) (ok : Bool) : Descriptors :=
  let d := { d with heap := d.heap.erase t }
  match t.httpdata with
  | none => d
  | some c => (d.handleClose c ok).release c

inductive Op where
  /-- accept(2) returns a descriptor that is free; the new object is made and its newEvent is queued -/
  | accept (fd : ℕ)
  /-- the end of the body of handleNewConn's loop -/
  | endAccept
  | poll (events : List (ℕ × Events))
  | handleEvents
  | callback (reads : List ReadResult) (writes : List WriteResult) (fs : FileSystem) (now : Timeval) (ok : Bool)
  | doPendingFunctors
  | newEvent (now : Timeval) (ok : Bool)
  /-- one turn of handleExpiredEvent, with the timer that top() gives -/
  | handleExpired (top : Option Timer) (now : Timeval) (ok : Bool)

/-- a callback of `c`; none if the process dies on a mapping that failed -/
def callback (d : Descriptors) (c : ConnId) (cb : Callback) (io : Io) (now : Timeval) (ok : Bool) : Option Descriptors :=
  match cb with
  | .read =>
    let ctx := (d.enter c io).handleRead
    if ctx.io.fault then none else some (d.member c ctx)
  | .write => some (d.member c (d.enter c io).handleWrite)
  | .error => some d
  | .conn => some (d.handleConn c now ok)

/-- the vector goes out of scope after its last functor -/
def endFunctors (d : Descriptors) (fs : List ConnId) : Descriptors :=
  if fs = [] then { d with functors := [] }.releaseAll d.functors else d

def step (d : Descriptors) : Op → Option Descriptors
  | .accept fd =>
    if d.owner fd = none ∧ fd < MAXFDS ∧ d.reqInfo = none then
      let c := d.nextConn
      let d := { d.setConn c (.new fd) with
        owner := Function.update d.owner fd (some c)
        reqInfo := some c
        pendingFunctors := d.pendingFunctors ++ [c]
        nextConn := c + 1 }
      some ((d.acquire c).acquire c)
    else none
  | .endAccept => d.reqInfo.map fun c => { d with reqInfo := none }.release c
  | .poll events =>
    -- epoll_wait reports a descriptor once
    if d.pc = .poll ∧ (events.map Prod.fst).Nodup then
      some { d with toConnections :=
        { events.foldl Connections.report d.toConnections with pc := .dispatch (events.filterMap fun e => d.fd2chan e.1) } }
    else none
  | .handleEvents =>
    match d.pc with
    | .dispatch (c :: active) =>
      some { d.setEvents c 0 with
        pc := Connections.nextPc c (Channel.dispatch (d.conns c).channel.revents) active }
    | _ => none
  | .callback reads writes fs now ok =>
    match d.pc with
    | .callbacks c (cb :: cbs) active =>
      (d.callback c cb ⟨reads, writes, fs, [], [], false⟩ now ok).map fun d =>
        { d with pc := Connections.nextPc c cbs active }
    | _ => none
  | .doPendingFunctors =>
    if d.pc = .dispatch [] then
      some { d with pc := .functors d.pendingFunctors, functors := d.pendingFunctors, pendingFunctors := [] }
    else none
  | .newEvent now ok =>
    match d.pc with
    | .functors (c :: fs) => some { (d.newEvent c now ok).endFunctors fs with pc := .functors fs }
    | _ => none
  | .handleExpired top now ok =>
    if d.pc = .functors [] then
      match top with
      | none => if d.heap = [] then some { d with pc := .poll } else none
      | some t =>
        if IsTop d.heap t then
          if t.deleted ∨ (t.isValid now).1 = false then some (d.pop t ok) else some { d with pc := .poll }
        else none
    else none

def init : Descriptors where
  toConnections := Connections.init
  refs := fun _ => 0
  functors := []
  reqInfo := none
  owner := fun _ => none
  trace := []

end Descriptors

end Glacier
