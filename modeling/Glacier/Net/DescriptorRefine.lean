/-
The loop with use counts and failing calls of epoll_ctl against the loop of Connections, where objects are just alive.

A run in which every epoll_ctl succeeds is a run of Connections, step for step but for the end of handleNewConn's loop body:
the counts decide nothing that `alive` does not decide. What is proved about the runs of Connections holds of these runs.
-/
import Glacier.Net.DescriptorReuse

namespace Glacier

open Cxx

namespace Descriptors

variable {d d' : Descriptors} {extra : List ConnId} {c : ConnId}

/-- the step of Connections -/
def Op.plain : Op → Option Connections.Op
  | .accept fd => some (.accept fd)
  | .endAccept => none
  | .poll events => some (.poll events)
  | .handleEvents => some .handleEvents
  | .callback reads writes fs now _ => some (.callback reads writes fs now)
  | .doPendingFunctors => some .doPendingFunctors
  | .newEvent now _ => some (.newEvent now)
  | .handleExpired top now _ => some (.handleExpired top now)

/-- epoll_ctl succeeds in the step -/
def Op.succeeds : Op → Bool
  | .callback _ _ _ _ ok => ok
  | .newEvent _ ok => ok
  | .handleExpired _ _ ok => ok
  | _ => true

/-! ## The operations -/

theorem addTimer_plain (hc : 0 < d.refs c) (timeout : ℕ) (now : Timeval) :
    (d.addTimer c timeout now).toConnections = d.toConnections.addTimer c timeout now := by
  unfold addTimer
  rw [getHolder_of_live hc]

theorem epollAdd_plain (h : Counted d extra) (hc : 0 < d.refs c) {timeout : ℕ} (ht : 0 < timeout) (now : Timeval) :
    (d.epollAdd c timeout now true).toConnections = d.toConnections.epollAdd c timeout now := by
  obtain ⟨-, -, hlive, -⟩ := h.addTimer hc timeout now
  unfold epollAdd Connections.epollAdd
  dsimp only
  rw [if_pos ht, if_pos ht, getHolder_of_live hlive]
  unfold setConn
  rw [setHttp_toConnections, addTimer_plain hc]
  rfl

theorem epollMod_plain (hc : 0 < d.refs c) (timeout : ℕ) (now : Timeval) :
    (d.epollMod c timeout now true).toConnections = d.toConnections.epollMod c timeout now := by
  have htimer := addTimer_plain hc timeout now
  unfold epollMod Connections.epollMod setConn
  dsimp only
  by_cases ht : timeout > 0
  · rw [if_pos ht, if_pos ht, ← htimer]
    simp only [Connections.set_conns_self, if_true]
    split_ifs <;> rfl
  · rw [if_neg ht, if_neg ht]
    simp only [Connections.set_conns_self, if_true]
    split_ifs <;> rfl

theorem epollDel_plain (d : Descriptors) (c : ConnId) :
    (d.epollDel c true).toConnections = d.toConnections.epollDel c := by
  unfold epollDel Connections.epollDel
  dsimp only
  rw [log_toConnections, setHttp_toConnections]
  rfl

theorem handleClose_plain (d : Descriptors) (c : ConnId) :
    (d.handleClose c true).toConnections = d.toConnections.handleClose c := by
  unfold handleClose Connections.handleClose
  dsimp only
  rw [release_toConnections, epollDel_plain]
  rfl

theorem rearm_plain (hc : 0 < d.refs c) (now : Timeval) :
    (d.rearm c now true).toConnections = d.toConnections.rearm c now := by
  have hmod : ∀ ev t, ((d.setEvents c ev).epollMod c t now true).toConnections =
      (d.toConnections.setEvents c ev).epollMod c t now := fun ev t => epollMod_plain (d := d.setEvents c ev) hc t now
  unfold rearm Connections.rearm
  dsimp only
  split_ifs
  all_goals first
    | exact hmod _ _
    | rfl
    | rw [release_toConnections, handleClose_plain, acquire_toConnections]

theorem handleConn_plain (h : Counted d extra) (hc : d.fd2http (d.conns c).fd = some c) (now : Timeval) :
    (d.handleConn c now true).toConnections = d.toConnections.handleConn c now := by
  obtain ⟨hdetached, -, hhttp⟩ := (h.runs (h.live_of_http hc)).seperateTimer (c := c)
  have hlive : 0 < ((d.log (.runs c)).seperateTimer c).refs c := hdetached.live_of_http (hhttp ▸ hc)
  have hsep : ((d.log (.runs c)).seperateTimer c).toConnections = d.toConnections.seperateTimer c := by
    unfold seperateTimer
    rw [setHeap_toConnections]
    rfl
  unfold handleConn Connections.handleConn
  rw [rearm_plain (d := ((d.log (.runs c)).seperateTimer c).log (.runs c)) hlive, log_toConnections, hsep]

theorem member_plain (d : Descriptors) (c : ConnId) (ctx : Ctx) :
    (d.member c ctx).toConnections = d.toConnections.leave c ctx := by
  unfold member
  rw [log_toConnections, setHeap_toConnections]
  rfl

theorem callback_plain (h : Counted d extra) {c : ConnId} (hc : d.fd2http (d.conns c).fd = some c) (cb : Callback) (io : Io)
    (now : Timeval) :
    (d.callback c cb io now true).map Descriptors.toConnections = d.toConnections.callback c cb io now := by
  cases cb with
  | read =>
    simp only [callback, Connections.callback]
    split_ifs
    · rfl
    · rw [Option.map_some, member_plain]
  | write =>
    simp only [callback, Connections.callback, Option.map_some]
    rw [member_plain]
  | error => rfl
  | conn =>
    simp only [callback, Connections.callback, Option.map_some]
    rw [handleConn_plain h hc]

theorem newEvent_plain (h : Counted d extra) (hc : 0 < d.refs c) (now : Timeval) :
    (d.newEvent c now true).toConnections = d.toConnections.newEvent c now :=
  epollAdd_plain ((h.runs hc).setEvents DEFAULT_EVENT) hc (by decide : 0 < DEFAULT_EXPIRED_TIME) now

theorem endFunctors_plain (d : Descriptors) (fs : List ConnId) : (d.endFunctors fs).toConnections = d.toConnections := by
  unfold endFunctors
  split_ifs
  · rw [releaseAll_toConnections]
  · rfl

theorem pop_plain (d : Descriptors) (t : Timer) : (d.pop t true).toConnections = d.toConnections.pop t := by
  unfold pop Connections.pop
  dsimp only
  cases t.httpdata with
  | none => rfl
  | some c =>
    dsimp only
    rw [release_toConnections, handleClose_plain]

/-! ## The steps -/

theorem live_of_alive (h : Inv d) (hc : d.toConnections.alive c) : 0 < d.refs c := by
  have hcounted := h.counted
  rcases hc with hhttp | hqueued | hrunning | ⟨t, ht, hdata⟩
  · exact hcounted.live_of_http hhttp
  · apply hcounted.live_of_reference
    exact mem_references.2 (Or.inr (Or.inr (Or.inl hqueued)))
  · apply hcounted.live_of_reference
    exact mem_references.2 (Or.inr (Or.inr (Or.inr (Or.inl (h.running c hrunning)))))
  · apply hcounted.live_of_reference
    exact mem_references.2 (Or.inr (Or.inl ⟨t, ht, hdata⟩))

/-- a step with its epoll_ctl successful is the step of Connections -/
theorem step_plain {o : Op} {p : Connections.Op} (h : Inv d) (hok : o.succeeds = true) (hp : o.plain = some p)
    (hstep : d.step o = some d') : d.toConnections.step p = some d'.toConnections := by
  cases o with
  | accept fd =>
    cases hp
    simp only [step] at hstep
    split_ifs at hstep with hg
    cases hstep
    apply if_pos
    rintro c - halive rfl
    have howner := (h.counted.owner _ c).2 ⟨live_of_alive h halive, rfl⟩
    rw [hg.1] at howner
    cases howner
  | endAccept => cases hp
  | poll events =>
    cases hp
    simp only [step] at hstep
    split_ifs at hstep with hg
    cases hstep
    exact if_pos hg
  | handleEvents =>
    cases hp
    simp only [step] at hstep
    split at hstep
    · rename_i c active hpc
      cases hstep
      simp only [Connections.step, hpc]
      rfl
    · cases hstep
  | callback reads writes fs now ok =>
    cases hp
    cases hok
    simp only [step] at hstep
    split at hstep
    · rename_i c cb cbs active hpc
      obtain ⟨e, he, hstep⟩ := Option.map_eq_some_iff.1 hstep
      cases hstep
      have hentry := h.active c (by rw [hpc]; exact List.mem_cons_self)
      have hcb := callback_plain h.counted hentry cb ⟨reads, writes, fs, [], [], false⟩ now
      rw [he, Option.map_some] at hcb
      simp only [Connections.step, hpc, ← hcb, Option.map_some]
    · cases hstep
  | doPendingFunctors =>
    cases hp
    simp only [step] at hstep
    split_ifs at hstep with hpc
    cases hstep
    exact if_pos hpc
  | newEvent now ok =>
    cases hp
    cases hok
    simp only [step] at hstep
    split at hstep
    · rename_i c fs hpc
      cases hstep
      have hlive : 0 < d.refs c := live_of_alive h (Or.inr (Or.inr (Or.inl (by rw [hpc]; exact List.mem_cons_self))))
      simp only [Connections.step, hpc]
      rw [endFunctors_plain, newEvent_plain h.counted hlive]
    · cases hstep
  | handleExpired top now ok =>
    cases hp
    cases hok
    simp only [step] at hstep
    by_cases hpc : d.pc = .functors []
    · rw [if_pos hpc] at hstep
      simp only [Connections.step, if_pos hpc]
      cases top with
      | none =>
        dsimp only at hstep ⊢
        split_ifs at hstep ⊢
        cases hstep
        rfl
      | some t =>
        dsimp only at hstep ⊢
        split_ifs at hstep ⊢
        · cases hstep
          rw [pop_plain]
        · cases hstep
          rfl
    · rw [if_neg hpc] at hstep
      cases hstep

/-- **Refinement.** A run in which every epoll_ctl succeeds is a run of Connections. -/
theorem run_plain {ops : List Op} (hok : ∀ o ∈ ops, o.succeeds = true) (h : Inv d)
    (hrun : Machine.run step d ops = some d') :
    Machine.run Connections.step d.toConnections (ops.filterMap Op.plain) = some d'.toConnections := by
  induction ops generalizing d with
  | nil => cases hrun; rfl
  | cons o ops ih =>
    obtain ⟨e, he, hrun⟩ := Machine.run_cons.1 hrun
    have hrest := ih (fun p hp => hok p (List.mem_cons_of_mem _ hp)) (step_inv h he) hrun
    cases hp : o.plain with
    | none =>
      rw [List.filterMap_cons_none hp]
      have hsame : e.toConnections = d.toConnections := by
        cases o with
        | endAccept =>
          obtain ⟨c, -, rfl⟩ := Option.map_eq_some_iff.1 he
          rw [release_toConnections]
        | _ => cases hp
      rw [← hsame]; exact hrest
    | some p =>
      rw [List.filterMap_cons_some hp]
      exact Machine.run_cons.2 ⟨_, step_plain h (hok o List.mem_cons_self) hp he, hrest⟩

end Descriptors

end Glacier
