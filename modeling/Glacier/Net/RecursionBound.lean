/-
The recursion of handleRead in the server: in every run of the loop the parsers of each connection stand where
`Ctx.bounded` takes up.

Only accept, handleRead and handleWrite come near error_, state_ and parse_state_; all other operations work on the channel,
the timer and connstate_ (`Waiting.same`).
-/
import Glacier.Http.ReadRecursion
import Glacier.Net.DescriptorRefine

namespace Glacier

open Cxx

/-- all connections wait for input -/
def Connections.Waiting (l : Connections) : Prop := ∀ c, (l.conns c).Waits

theorem Connections.Waiting.set {l : Connections} (h : l.Waiting) {c : ConnId} {g : HttpData} (hg : g.Waits) :
    (l.set c g).Waiting := by
  intro b
  by_cases hb : b = c
  · rw [hb, set_conns_self]; exact hg
  · rw [set_conns_of_ne l g hb]; exact h b

/-- the other members do not matter -/
theorem Connections.Waiting.same {l : Connections} (h : l.Waiting) {c : ConnId} {g : HttpData}
    (herror : g.error = (l.conns c).error) (hstate : g.state = (l.conns c).state)
    (hparse : g.parseState = (l.conns c).parseState) : (l.set c g).Waiting := by
  apply h.set
  unfold HttpData.Waits
  rw [herror, hstate, hparse]; exact h c

namespace Descriptors

variable {d : Descriptors}

/-! ## The operations -/

theorem addTimer_waiting (h : d.Waiting) (c : ConnId) (timeout : ℕ) (now : Timeval) :
    (d.addTimer c timeout now).Waiting := by
  unfold addTimer
  cases d.getHolder c with
  | none => exact h
  | some b => exact h.same rfl rfl rfl

theorem setHttp_waiting (h : d.Waiting) (fd : ℕ) (p : Option ConnId) : (d.setHttp fd p).Waiting := by
  rw [setHttp_toConnections]; exact h

theorem setHeap_waiting (h : d.Waiting) (heap : List Timer) : (d.setHeap heap).Waiting := by
  rw [setHeap_toConnections]; exact h

theorem release_waiting (h : d.Waiting) (c : ConnId) : (d.release c).Waiting := by
  rw [release_toConnections]; exact h

theorem epollAdd_waiting (h : d.Waiting) (c : ConnId) (timeout : ℕ) (now : Timeval) (ok : Bool) :
    (d.epollAdd c timeout now ok).Waiting := by
  unfold epollAdd
  dsimp only
  set e := if timeout > 0 then
    (d.addTimer c timeout now).setHttp (d.conns c).fd ((d.addTimer c timeout now).getHolder c) else d with heq
  have he : e.Waiting := by
    rw [heq]
    split_ifs
    · exact setHttp_waiting (addTimer_waiting h c timeout now) _ _
    · exact h
  exact he.same rfl rfl rfl

theorem epollMod_waiting (h : d.Waiting) (c : ConnId) (timeout : ℕ) (now : Timeval) (ok : Bool) :
    (d.epollMod c timeout now ok).Waiting := by
  unfold epollMod
  dsimp only
  set e := if timeout > 0 then d.addTimer c timeout now else d with heq
  have he : e.Waiting := by
    rw [heq]
    split_ifs
    · exact addTimer_waiting h c timeout now
    · exact h
  split_ifs <;> exact he.same rfl rfl rfl

theorem epollDel_waiting (h : d.Waiting) (c : ConnId) (ok : Bool) : (d.epollDel c ok).Waiting := by
  unfold epollDel
  dsimp only
  rw [log_toConnections]
  apply setHttp_waiting
  cases ok <;> exact h

theorem setEvents_waiting (h : d.Waiting) (c : ConnId) (ev : Events) : (d.setEvents c ev).Waiting := by
  unfold setEvents Connections.setEvents
  exact h.same rfl rfl rfl

theorem newEvent_waiting (h : d.Waiting) (c : ConnId) (now : Timeval) (ok : Bool) : (d.newEvent c now ok).Waiting := by
  unfold newEvent
  apply epollAdd_waiting
  exact setEvents_waiting (d := d.log (.runs c)) h c _

theorem handleClose_waiting (h : d.Waiting) (c : ConnId) (ok : Bool) : (d.handleClose c ok).Waiting := by
  unfold handleClose
  apply release_waiting
  apply epollDel_waiting
  exact h.same rfl rfl rfl

theorem seperateTimer_waiting (h : d.Waiting) (c : ConnId) : (d.seperateTimer c).Waiting := by
  unfold seperateTimer
  apply setHeap_waiting
  exact h.same rfl rfl rfl

theorem rearm_waiting (h : d.Waiting) (c : ConnId) (now : Timeval) (ok : Bool) : (d.rearm c now ok).Waiting := by
  have hmod : ∀ ev timeout, ((d.setEvents c ev).epollMod c timeout now ok).Waiting :=
    fun ev timeout => epollMod_waiting (setEvents_waiting h c ev) c timeout now ok
  unfold rearm
  dsimp only
  split_ifs
  · exact hmod _ _
  · exact hmod _ _
  · exact hmod _ _
  · exact hmod _ _
  · exact hmod _ _
  · exact hmod _ _
  · exact setEvents_waiting h c _
  · apply release_waiting
    exact handleClose_waiting (d := d.acquire c) h c ok

theorem handleConn_waiting (h : d.Waiting) (c : ConnId) (now : Timeval) (ok : Bool) : (d.handleConn c now ok).Waiting := by
  unfold handleConn
  apply rearm_waiting
  exact seperateTimer_waiting (d := d.log (.runs c)) h c

/-- handleRead and handleWrite -/
theorem member_waiting (h : d.Waiting) {c : ConnId} {ctx : Ctx} (hctx : ctx.http.Waits) : (d.member c ctx).Waiting :=
  setHeap_waiting (h.set hctx) _

theorem pop_waiting (h : d.Waiting) (t : Timer) (ok : Bool) : (d.pop t ok).Waiting := by
  unfold pop
  dsimp only
  cases t.httpdata with
  | none => exact h
  | some c =>
    apply release_waiting
    exact handleClose_waiting (d := { d with heap := d.heap.erase t }) h c ok

/-- getActiveChannels -/
theorem report_waiting {l : Connections} (h : l.Waiting) (e : ℕ × Events) : (l.report e).Waiting := by
  unfold Connections.report
  dsimp only
  cases l.fd2chan e.1 with
  | none => exact h
  | some c => exact h.same rfl rfl rfl

theorem reports_waiting (events : List (ℕ × Events)) {l : Connections} (h : l.Waiting) :
    (events.foldl Connections.report l).Waiting := by
  induction events generalizing l with
  | nil => exact h
  | cons e events ih => exact ih (report_waiting h e)

theorem callback_waiting {d' : Descriptors} (h : d.Waiting) {c : ConnId} {cb : Callback} {io : Io} {now : Timeval}
    {ok : Bool} (hcall : d.callback c cb io now ok = some d') : d'.Waiting := by
  have henter : (d.enter c io).http.Waits := h c
  unfold callback at hcall
  cases cb with
  | read =>
    dsimp only at hcall
    split_ifs at hcall
    cases hcall
    exact member_waiting h (Ctx.handleRead_waits henter)
  | write =>
    cases hcall
    exact member_waiting h (Ctx.handleWrite_waits henter)
  | error =>
    cases hcall
    exact h
  | conn =>
    cases hcall
    exact handleConn_waiting h c now ok

theorem endFunctors_waiting (h : d.Waiting) (fs : List ConnId) : (d.endFunctors fs).Waiting := by
  rw [endFunctors_plain]; exact h

/-! ## Runs -/

theorem waiting_init : init.Waiting := fun _ _ => Or.inl rfl

theorem step_waiting {d' : Descriptors} {o : Op} (h : d.Waiting) (hstep : d.step o = some d') : d'.Waiting := by
  cases o with
  | accept fd =>
    simp only [step] at hstep
    split_ifs at hstep
    cases hstep
    exact h.set fun _ => Or.inl rfl
  | endAccept =>
    obtain ⟨c, -, rfl⟩ := Option.map_eq_some_iff.1 hstep
    exact release_waiting (d := { d with reqInfo := none }) h c
  | poll events =>
    simp only [step] at hstep
    split_ifs at hstep
    cases hstep
    exact reports_waiting events h
  | handleEvents =>
    simp only [step] at hstep
    split at hstep
    · rename_i c active hpc
      cases hstep
      exact h.same rfl rfl rfl
    · cases hstep
  | callback reads writes fs now ok =>
    simp only [step] at hstep
    split at hstep
    · obtain ⟨e, he, rfl⟩ := Option.map_eq_some_iff.1 hstep
      have hwait := callback_waiting h he
      exact hwait
    · cases hstep
  | doPendingFunctors =>
    simp only [step] at hstep
    split_ifs at hstep
    cases hstep
    exact h
  | newEvent now ok =>
    simp only [step] at hstep
    split at hstep
    · rename_i c fs hpc
      cases hstep
      exact endFunctors_waiting (newEvent_waiting h c now ok) fs
    · cases hstep
  | handleExpired top now ok =>
    cases top with
    | none =>
      simp only [step] at hstep
      split_ifs at hstep
      cases hstep
      exact h
    | some t =>
      simp only [step] at hstep
      split_ifs at hstep
      · cases hstep
        exact pop_waiting h t ok
      · cases hstep
        exact h

theorem run_waiting {ops : List Op} (hrun : Machine.run step init ops = some d) : d.Waiting :=
  Machine.run_inv (I := fun d => d.Waiting) (fun _ _ _ h hstep => step_waiting h hstep) waiting_init hrun

/-- **handleRead's recursion is bounded by the input.** For every connection in every state that the loop reaches between
two steps and for all results of its system calls, handleRead returns; each recursive call comes after a request that the
activation before it has finished and of which it has removed at least one byte, so that there are at most as many nested
calls as bytes were buffered and are delivered. -/
theorem handleRead_bounded {ops : List Op} (hrun : Machine.run step init ops = some d) (c : ConnId) (io : Io) :
    (d.enter c io).Bounded :=
  Ctx.bounded (run_waiting hrun c)

/-- a connection that has read a request up to the middle of its last field -/
def readsHalf : List Op :=
  [.accept 5, .endAccept, .poll [], .doPendingFunctors, .newEvent ⟨0, 0⟩ true,
    .handleExpired (some (.new 0 0 2000 ⟨0, 0⟩)) ⟨0, 0⟩ true, .poll [(5, EPOLLIN)], .handleEvents,
    .callback [.data (ascii "GET /a HTTP/1.1\r\nHost: h")] [] noFiles ⟨0, 0⟩ true,
    .callback [] [] noFiles ⟨0, 0⟩ true]

/-- the rest of the request and the beginning of the next one -/
def otherHalf : Io := ⟨[.data (ascii "ost\r\n\r\nGET /b")], [], fun _ => .regular [], [], [], false⟩

/-- the first activation begins in PARSE_HEADERS, and calls handleRead again -/
theorem handleRead_bounded_resumed :
    ∃ d, Machine.run step init readsHalf = some d ∧
      ((d.conns 0).state = .parseHeaders ∧ (d.enter 0 otherHalf).handleReadOnce.2 = true) ∧
      (d.enter 0 otherHalf).Bounded := by
  have hend : (Machine.run step init readsHalf).map (fun d =>
      ((d.conns 0).state, (d.enter 0 otherHalf).handleReadOnce.2)) = some (.parseHeaders, true) := by
    decide +kernel
  obtain ⟨d, hrun, hfields⟩ := Option.map_eq_some_iff.1 hend
  simp only [Prod.mk.injEq] at hfields
  exact ⟨d, hrun, hfields, handleRead_bounded hrun 0 otherHalf⟩

end Descriptors

end Glacier
