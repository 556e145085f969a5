/-
Accepting connections: TcpServer (tcpserver.cc) with the round robin of EventLoopThreadPool (eventloop_threadpool.cc), and
the events that reach the listening channel.

A delivery is one event of the listening descriptor with the results of the accept(2) calls that it leads to. A connection is
known by its place among all accepted ones; `closed` and `queued` record what has become of it. epoll_ctl succeeds on the
listening descriptor, so that it stays in fd2chan_.

handleEvents has cleared the mask of the channel before handleNewConn runs, and handleNewConn sets it again behind its loop.
The `return` in the loop, after a failed setSocketNonBlocking, skips that, and handleThisConn then programs the empty mask.
- `handleNewConn_accounted`, `handleNewConn_events`: what the loop makes of the descriptors and of the mask;
- `accepting_survives_iff`: one delivery keeps every descriptor accounted for and the listening descriptor armed exactly if
  no accepted descriptor is 0 and setSocketNonBlocking does not fail;
- `run_survives`: so does a run of deliveries from start();
- `step_of_blocking`: after the early return no connection is accepted any more.
-/
import Glacier.Net.Descriptors

namespace Glacier

/-- a call of accept(2) that gives a descriptor, and whether setSocketNonBlocking succeeds on it -/
structure Accepted where
  fd : ℕ
  nonBlocking : Bool
deriving DecidableEq, Repr

/-- handleNewConn closes the descriptor or hands it over, and goes on -/
def Accepted.Taken (a : Accepted) : Prop := a.fd ≠ 0 ∧ (a.fd < MAXFDS → a.nonBlocking = true)

inductive Loop where
  | base
  /-- `loops_[i]` -/
  | thread (i : ℕ)
deriving DecidableEq, Repr

/-- the pool after start() -/
structure EventLoopThreadPool where
  numThreads : ℕ
  next : ℕ
deriving DecidableEq, Repr

def EventLoopThreadPool.getNextLoop (p : EventLoopThreadPool) : Loop × EventLoopThreadPool :=
  if p.numThreads = 0 then (.base, p)
  else (.thread p.next, { p with next := (p.next + 1) % p.numThreads })

structure TcpServer where
  pool : EventLoopThreadPool
  acceptChannel : Channel
  /-- the kernel's entry of the listening descriptor -/
  interest : Option Events
  /-- the descriptors that accept(2) has returned, in order -/
  accepted : List ℕ
  closed : List ConnId
  /-- the newEvent calls given to queueInLoop, each with its loop -/
  queued : List (Loop × ConnId)
deriving DecidableEq, Repr

namespace TcpServer

def setEvents (s : TcpServer) (ev : Events) : TcpServer := { s with acceptChannel := s.acceptChannel.setEvents ev }

/-- the constructor, and start() up to addToPoller -/
def new (threadNum : ℕ) : TcpServer where
  pool := ⟨threadNum, 0⟩
  acceptChannel := Channel.new.setEvents (EPOLLIN ||| EPOLLET)
  interest := none
  accepted := []
  closed := []
  queued := []

/-- epoll_add without a timer -/
def epollAdd (s : TcpServer) : TcpServer :=
  let (_, channel) := s.acceptChannel.equalAndUpdateLastEvents
  { s with acceptChannel := channel, interest := some channel.events }

/-- epoll_mod without a timer -/
def epollMod (s : TcpServer) : TcpServer :=
  let (equal, channel) := s.acceptChannel.equalAndUpdateLastEvents
  let s := { s with acceptChannel := channel }
  if equal then s else { s with interest := some channel.events }

def start (threadNum : ℕ) : TcpServer := (new threadNum).epollAdd

/-- accept(2) returns `fd`; the connection takes the next place -/
def accept (s : TcpServer) (fd : ℕ) : TcpServer := { s with accepted := s.accepted ++ [fd] }

def close (s : TcpServer) (c : ConnId) : TcpServer := { s with closed := s.closed ++ [c] }

/-- getNextLoop()->queueInLoop of the newEvent of `c` -/
def queueInLoop (s : TcpServer) (c : ConnId) : TcpServer :=
  let (loop, pool) := s.pool.getNextLoop
  { s with pool := pool, queued := s.queued ++ [(loop, c)] }

/-- handleNewConn; the accept(2) after the last of `accepts` fails -/
def handleNewConn (s : TcpServer) : List Accepted → TcpServer
  | [] => s.setEvents (EPOLLIN ||| EPOLLET)
  | a :: accepts =>
    let c := s.accepted.length
    let s := s.accept a.fd
    if a.fd > 0 then
      if a.fd ≥ MAXFDS then (s.close c).handleNewConn accepts
      else if a.nonBlocking = false then s
      else (s.queueInLoop c).handleNewConn accepts
    else s.setEvents (EPOLLIN ||| EPOLLET)

def handleThisConn (s : TcpServer) : TcpServer := s.epollMod

/-- writeCallback_ and errorCallback_ are never set; the call of the empty function is caught -/
def callback (accepts : List Accepted) (s : TcpServer) : Callback → TcpServer
  | .read => s.handleNewConn accepts
  | .conn => s.handleThisConn
  | .write | .error => s

def handleEvents (s : TcpServer) (accepts : List Accepted) : TcpServer :=
  (Channel.dispatch s.acceptChannel.revents).foldl (callback accepts) (s.setEvents 0)

/-- the listening channel's turn of getActiveChannels, and handleEvents -/
def deliver (s : TcpServer) (revents : Events) (accepts : List Accepted) : TcpServer :=
  { s with acceptChannel := (s.acceptChannel.setRevents revents).setEvents 0 }.handleEvents accepts

/-! ## What has become of the accepted descriptors -/

/-- the connections that were closed or handed to a loop, each as often as that happened -/
def fates (s : TcpServer) : List ConnId := s.closed ++ s.queued.map Prod.snd

/-- every connection was closed, or handed to one loop and to it once -/
def Accounted (s : TcpServer) : Prop := s.fates.Perm (List.range s.accepted.length)

/-- the accept loop works on: every descriptor is accounted for, and the kernel reports the next connection -/
def Survives (s : TcpServer) : Prop := s.Accounted ∧ s.interest = some (EPOLLIN ||| EPOLLET)

instance (s : TcpServer) : Decidable s.Accounted := inferInstanceAs (Decidable (List.Perm _ _))
instance (s : TcpServer) : Decidable s.Survives := inferInstanceAs (Decidable (_ ∧ _))

variable {s : TcpServer} {accepts : List Accepted}

/-- one more connection, with one more fate -/
theorem Accounted.add {t : TcpServer} {fd : ℕ} (h : s.Accounted) (hacc : t.accepted = s.accepted ++ [fd])
    (hfate : t.fates.Perm (s.accepted.length :: s.fates)) : t.Accounted := by
  have hlen : t.accepted.length = s.accepted.length + 1 := by rw [hacc, List.length_append, List.length_singleton]
  unfold Accounted
  rw [hlen, List.range_succ]
  calc List.Perm t.fates (s.accepted.length :: s.fates) := hfate
    List.Perm _ (s.accepted.length :: List.range s.accepted.length) := h.cons _
    List.Perm _ (List.range s.accepted.length ++ [s.accepted.length]) := (List.perm_append_singleton _ _).symm

theorem Accounted.close (h : s.Accounted) (fd : ℕ) : ((s.accept fd).close s.accepted.length).Accounted := by
  refine h.add rfl ?_
  simp only [fates, accept, TcpServer.close, List.append_assoc, List.singleton_append]
  exact List.perm_middle

theorem Accounted.queueInLoop (h : s.Accounted) (fd : ℕ) :
    ((s.accept fd).queueInLoop s.accepted.length).Accounted := by
  refine h.add rfl ?_
  simp only [fates, accept, TcpServer.queueInLoop, List.map_append, List.map_singleton, ← List.append_assoc]
  exact List.perm_append_singleton _ _

/-- a connection that the loop drops -/
theorem Accounted.not_accept (h : s.Accounted) (fd : ℕ) : ¬ (s.accept fd).Accounted := by
  intro hdrop
  have hfates : (s.accept fd).fates = s.fates := rfl
  have hbefore := List.Perm.length_eq h
  have hafter := List.Perm.length_eq hdrop
  rw [hfates] at hafter
  simp only [accept, List.length_range, List.length_append, List.length_singleton] at hbefore hafter
  omega

/-- **The accept loop.** It accounts for all descriptors exactly if it takes each of them; at the first that it does not
take it ends. -/
theorem handleNewConn_accounted (h : s.Accounted) (accepts : List Accepted) :
    (s.handleNewConn accepts).Accounted ↔ ∀ a ∈ accepts, a.Taken := by
  induction accepts generalizing s with
  | nil => exact iff_of_true h (by simp)
  | cons a accepts ih =>
    rw [List.forall_mem_cons, handleNewConn]
    split_ifs with hpos hmax hblock
    · have htaken : a.Taken := ⟨by omega, fun hlt => by omega⟩
      rw [ih (h.close a.fd), and_iff_right htaken]
    · have hnot : ¬ a.Taken := fun ht => by simp [ht.2 (by omega)] at hblock
      exact iff_of_false (h.not_accept a.fd) fun ht => hnot ht.1
    · have htaken : a.Taken := ⟨by omega, fun _ => by simpa using hblock⟩
      rw [ih (h.queueInLoop a.fd), and_iff_right htaken]
    · exact iff_of_false (h.not_accept a.fd) fun ht => hpos (by have := ht.1.1; omega)

/-- the mask is set again behind the loop -/
theorem handleNewConn_events (h : ∀ a ∈ accepts, a.Taken) :
    (s.handleNewConn accepts).acceptChannel.events = EPOLLIN ||| EPOLLET := by
  induction accepts generalizing s with
  | nil => rfl
  | cons a accepts ih =>
    obtain ⟨ha, h⟩ := List.forall_mem_cons.1 h
    rw [handleNewConn]
    split_ifs with hpos hmax hblock
    · exact ih h
    · rw [ha.2 (by omega)] at hblock; cases hblock
    · exact ih h
    · rfl

/-- handleNewConn makes no system call on the listening descriptor but accept(2) -/
theorem handleNewConn_kernel (accepts : List Accepted) :
    (s.handleNewConn accepts).interest = s.interest ∧
      (s.handleNewConn accepts).acceptChannel.lastevents = s.acceptChannel.lastevents := by
  induction accepts generalizing s with
  | nil => exact ⟨rfl, rfl⟩
  | cons a accepts ih =>
    rw [handleNewConn]
    split_ifs
    · exact ih
    · exact ⟨rfl, rfl⟩
    · exact ih
    · exact ⟨rfl, rfl⟩

/-- the kernel's entry is the mask that epoll_ctl was last given -/
def Programmed (s : TcpServer) : Prop := s.interest = some s.acceptChannel.lastevents

theorem start_programmed (threadNum : ℕ) : (start threadNum).Programmed := rfl

theorem start_survives (threadNum : ℕ) : (start threadNum).Survives := ⟨List.Perm.refl _, rfl⟩

/-- epoll_mod leaves the mask of the channel in the kernel, whether it makes the call or not -/
theorem epollMod_eq (h : s.Programmed) :
    s.epollMod =
      { s with
        acceptChannel := { s.acceptChannel with lastevents := s.acceptChannel.events }
        interest := some s.acceptChannel.events } := by
  unfold epollMod
  by_cases heq : s.acceptChannel.lastevents = s.acceptChannel.events
  · have hint : s.interest = some s.acceptChannel.events := h.trans (congrArg some heq)
    simp [Channel.equalAndUpdateLastEvents, heq, ← hint]
  · simp [Channel.equalAndUpdateLastEvents, heq]

/-- a delivery that reads runs handleNewConn with the mask cleared, and then handleThisConn -/
theorem deliver_eq {revents : Events} (hread : Callback.read ∈ Channel.dispatch revents) :
    s.deliver revents accepts =
      ({ s with acceptChannel := ⟨0, revents, s.acceptChannel.lastevents⟩ }.handleNewConn accepts).handleThisConn := by
  rcases Channel.dispatch_of_read hread with h | h
  all_goals simp [deliver, handleEvents, Channel.setRevents, Channel.setEvents, setEvents, h, callback]

/-- A delivery that reads leaves what the loop of handleNewConn has done with the descriptors, and in the kernel the mask
that handleNewConn has left in the channel. -/
theorem deliver_spec {revents : Events} (h : s.Programmed) (hread : Callback.read ∈ Channel.dispatch revents)
    (accepts : List Accepted) :
    ∃ t : TcpServer, t.fates = s.fates ∧ t.accepted = s.accepted ∧ t.acceptChannel.events = 0 ∧
      (s.deliver revents accepts).fates = (t.handleNewConn accepts).fates ∧
      (s.deliver revents accepts).accepted = (t.handleNewConn accepts).accepted ∧
      (s.deliver revents accepts).interest = some (t.handleNewConn accepts).acceptChannel.events ∧
      (s.deliver revents accepts).Programmed := by
  let t : TcpServer := { s with acceptChannel := ⟨0, revents, s.acceptChannel.lastevents⟩ }
  obtain ⟨hint, hlast⟩ := handleNewConn_kernel (s := t) accepts
  have hprog : (t.handleNewConn accepts).Programmed :=
    calc (t.handleNewConn accepts).interest = s.interest := hint
      _ = some s.acceptChannel.lastevents := h
      _ = some (t.handleNewConn accepts).acceptChannel.lastevents := congrArg some hlast.symm
  refine ⟨t, rfl, rfl, rfl, ?_⟩
  rw [deliver_eq hread, handleThisConn, epollMod_eq hprog]
  exact ⟨rfl, rfl, rfl, rfl⟩

/-- a delivery keeps the descriptors accounted for exactly if each of them is taken -/
theorem deliver_accounted {revents : Events} (h : s.Programmed) (hacc : s.Accounted)
    (hread : Callback.read ∈ Channel.dispatch revents) (accepts : List Accepted) :
    (s.deliver revents accepts).Accounted ↔ ∀ a ∈ accepts, a.Taken := by
  obtain ⟨t, hf, hn, _, hfates, haccepted, _⟩ := deliver_spec h hread accepts
  rw [Accounted, hfates, haccepted]
  exact handleNewConn_accounted (s := t) (by rwa [Accounted, hf, hn]) accepts

/-- and then the mask is the one of start() -/
theorem deliver_interest {revents : Events} (h : s.Programmed) (hread : Callback.read ∈ Channel.dispatch revents)
    (htaken : ∀ a ∈ accepts, a.Taken) : (s.deliver revents accepts).interest = some (EPOLLIN ||| EPOLLET) := by
  obtain ⟨t, _, _, _, _, _, hint, _⟩ := deliver_spec h hread accepts
  rw [hint, handleNewConn_events htaken]

/-- **Accepting survives.** In a server that has accounted for its descriptors, one delivery that reads ends so, and with
the listening descriptor registered for EPOLLIN and EPOLLET, exactly if every accepted descriptor is taken. -/
theorem accepting_survives_iff {revents : Events} (hprog : s.Programmed) (hacc : s.Accounted)
    (hread : Callback.read ∈ Channel.dispatch revents) (accepts : List Accepted) :
    (s.deliver revents accepts).Survives ↔ ∀ a ∈ accepts, a.Taken := by
  constructor
  · intro h
    exact (deliver_accounted hprog hacc hread accepts).1 h.1
  · intro h
    exact ⟨(deliver_accounted hprog hacc hread accepts).2 h, deliver_interest hprog hread h⟩

/-- the first delivery after start(), of a connection that is handed over and one that finds the table full -/
theorem accepting_survives_iff_start :
    Callback.read ∈ Channel.dispatch EPOLLIN ∧
      (((start 4).deliver EPOLLIN [⟨7, true⟩, ⟨MAXFDS, false⟩]).Survives ↔
        ∀ a ∈ [⟨7, true⟩, ⟨MAXFDS, false⟩], Accepted.Taken a) :=
  have hread : Callback.read ∈ Channel.dispatch EPOLLIN := by decide
  ⟨hread, accepting_survives_iff (start_programmed 4) (start_survives 4).1 hread _⟩

/-- **One failed fcntl stops the server.** Descriptor 5 stays open and in nobody's hands, and the mask of the listening
descriptor is empty. -/
theorem blocking_stops_accepting :
    let s := (start 4).deliver EPOLLIN [⟨5, false⟩, ⟨6, true⟩]
    ¬ s.Survives ∧ s.accepted = [5] ∧ s.closed = [] ∧ s.queued = [] ∧ s.interest = some 0 := by
  decide

/-! ## Runs of deliveries -/

structure Delivery where
  revents : Events
  accepts : List Accepted

/-- the kernel reports the listening descriptor as readable while its entry asks for that -/
def step (s : TcpServer) (d : Delivery) : Option TcpServer :=
  if (∃ m, s.interest = some m ∧ has m EPOLLIN = true) ∧ Callback.read ∈ Channel.dispatch d.revents then
    some (s.deliver d.revents d.accepts)
  else none

/-- **Runs.** While every descriptor that accept(2) gives is taken, the server keeps accepting. -/
theorem run_survives {ds : List Delivery} {t : TcpServer} (threadNum : ℕ) (htaken : ∀ d ∈ ds, ∀ a ∈ d.accepts, a.Taken)
    (hrun : Machine.run step (start threadNum) ds = some t) : t.Survives := by
  have hinv : t.Programmed ∧ t.Survives := by
    refine Machine.run_inv_of_meets (I := fun s => s.Programmed ∧ s.Survives) ?_
      ⟨start_programmed threadNum, start_survives threadNum⟩ (Machine.meets_of_forall htaken) hrun
    intro s d u ⟨hprog, hsurv⟩ hd hst
    unfold step at hst
    split_ifs at hst with hen
    obtain rfl := Option.some.inj hst
    obtain ⟨_, _, _, _, _, _, _, hprog'⟩ := deliver_spec hprog hen.2 d.accepts
    exact ⟨hprog', (deliver_accounted hprog hsurv.1 hen.2 d.accepts).2 hd, deliver_interest hprog hen.2 hd⟩
  exact hinv.2

/-- where the loop returns early the mask is still the one that handleEvents has set -/
theorem handleNewConn_events_of_blocking {a : Accepted} {rest : List Accepted} (htaken : ∀ b ∈ accepts, b.Taken)
    (hpos : a.fd ≠ 0) (hlt : a.fd < MAXFDS) (hblock : a.nonBlocking = false) :
    (s.handleNewConn (accepts ++ a :: rest)).acceptChannel.events = s.acceptChannel.events := by
  induction accepts generalizing s with
  | nil => simp [handleNewConn, hblock, Nat.pos_of_ne_zero hpos, Nat.not_le.2 hlt, accept]
  | cons b accepts ih =>
    obtain ⟨hb, htaken⟩ := List.forall_mem_cons.1 htaken
    rw [List.cons_append, handleNewConn]
    split_ifs with hbpos hbmax hbblock
    · exact ih htaken
    · rw [hb.2 (by omega)] at hbblock; cases hbblock
    · exact ih htaken
    · exact absurd hb.1 (by omega)

/-- **The early return.** After the first connection that setSocketNonBlocking fails on, the kernel has nothing to report
for the listening descriptor: no further delivery reads. -/
theorem step_of_blocking {revents : Events} {a : Accepted} {rest : List Accepted} (hprog : s.Programmed)
    (hread : Callback.read ∈ Channel.dispatch revents) (htaken : ∀ b ∈ accepts, b.Taken) (hpos : a.fd ≠ 0)
    (hlt : a.fd < MAXFDS) (hblock : a.nonBlocking = false) (d : Delivery) :
    (s.deliver revents (accepts ++ a :: rest)).step d = none := by
  obtain ⟨t, _, _, hevents, _, _, hint, _⟩ := deliver_spec hprog hread (accepts ++ a :: rest)
  rw [handleNewConn_events_of_blocking htaken hpos hlt hblock, hevents] at hint
  refine if_neg fun ⟨⟨m, hm, hin⟩, _⟩ => ?_
  rw [hint, Option.some.injEq] at hm
  rw [← hm] at hin
  exact absurd hin (by decide)

end TcpServer

end Glacier
