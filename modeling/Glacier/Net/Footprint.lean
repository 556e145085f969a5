/-
The footprint of the operations on one connection: what they leave to all other connections of the loop, and what they
change in its own record, whatever epoll_ctl returns.
- `Apart`: the records of the others stay, and they are entered in no table and in no timer anew;
- `Owned`: of its own record only the channel and the timer change;
- `handleClose_closes`, `handleConn_outcome`: handleConn keeps the record so, or closes the connection.
-/
import Glacier.Net.UpdatePoller

namespace Glacier

open Cxx

/-- `l'` differs from `l` in `c` at most -/
structure Apart (l l' : Connections) (c : ConnId) : Prop where
  conns : ∀ b, b ≠ c → l'.conns b = l.conns b
  http : ∀ fd b, b ≠ c → l'.fd2http fd = some b → l.fd2http fd = some b
  heap : ∀ b, b ≠ c → b ∈ held l'.heap → b ∈ held l.heap
  pendingFunctors : l'.pendingFunctors = l.pendingFunctors
  nextConn : l'.nextConn = l.nextConn

/-- the same connection, but for what the loop writes itself -/
def HttpData.OwnedBy (h g : HttpData) : Prop := ∃ channel timer, h = { g with channel := channel, timer := timer }

/-- `l'` differs from `l` in the channel and the timer of `c` at most -/
structure Owned (l l' : Connections) (c : ConnId) : Prop extends Apart l l' c where
  self : (l'.conns c).OwnedBy (l.conns c)

/-- `c` is closed, and in no table any more -/
structure Closes (l l' : Connections) (c : ConnId) : Prop extends Apart l l' c where
  self : ∃ h : HttpData, h.OwnedBy (l.conns c) ∧ l'.conns c = { h with connstate := .disconnected }
  gone : l'.fd2http (l.conns c).fd = none

theorem HttpData.OwnedBy.refl (h : HttpData) : h.OwnedBy h := ⟨h.channel, h.timer, rfl⟩

theorem HttpData.OwnedBy.trans {h g f : HttpData} (h1 : h.OwnedBy g) (h2 : g.OwnedBy f) : h.OwnedBy f := by
  obtain ⟨channel, timer, rfl⟩ := h1
  obtain ⟨channel', timer', rfl⟩ := h2
  exact ⟨channel, timer, rfl⟩

theorem HttpData.OwnedBy.fd {h g : HttpData} (ho : h.OwnedBy g) : h.fd = g.fd := by
  obtain ⟨channel, timer, rfl⟩ := ho
  rfl

namespace Apart

variable {l l' l'' : Connections} {c : ConnId}

theorem refl (l : Connections) (c : ConnId) : Apart l l c :=
  ⟨fun _ _ => rfl, fun _ _ _ h => h, fun _ _ h => h, rfl, rfl⟩

theorem trans (h1 : Apart l l' c) (h2 : Apart l' l'' c) : Apart l l'' c where
  conns := fun b hb => (h2.conns b hb).trans (h1.conns b hb)
  http := fun fd b hb h => h1.http fd b hb (h2.http fd b hb h)
  heap := fun b hb h => h1.heap b hb (h2.heap b hb h)
  pendingFunctors := h2.pendingFunctors.trans h1.pendingFunctors
  nextConn := h2.nextConn.trans h1.nextConn

theorem set (l : Connections) (c : ConnId) (h : HttpData) : Apart l (l.set c h) c where
  conns := fun _ hb => Connections.set_conns_of_ne l h hb
  http := fun _ _ _ h => h
  heap := fun _ _ h => h
  pendingFunctors := rfl
  nextConn := rfl

/-- an entry of fd2http_ becomes `c` or is taken away -/
theorem setHttp (l : Connections) (c : ConnId) (fd : ℕ) {p : Option ConnId} (hp : ∀ b, p = some b → b = c) :
    Apart l { l with fd2http := Function.update l.fd2http fd p } c where
  conns := fun _ _ => rfl
  http := by
    intro fd' b hb h
    change Function.update l.fd2http fd p fd' = some b at h
    by_cases hfd : fd' = fd
    · subst hfd
      rw [Function.update_self] at h
      exact absurd (hp b h) hb
    · rw [Function.update_of_ne hfd] at h
      exact h
  heap := fun _ _ h => h
  pendingFunctors := rfl
  nextConn := rfl

/-- timers let go of connections -/
theorem setHeap (l : Connections) (c : ConnId) {heap : List Timer} (hheap : (held heap).Sublist (held l.heap)) :
    Apart l { l with heap := heap } c :=
  ⟨fun _ _ => rfl, fun _ _ _ h => h, fun _ _ h => hheap.subset h, rfl, rfl⟩

end Apart

namespace Owned

variable {l l' l'' : Connections} {c : ConnId}

theorem refl (l : Connections) (c : ConnId) : Owned l l c := ⟨.refl l c, .refl _⟩

theorem trans (h1 : Owned l l' c) (h2 : Owned l' l'' c) : Owned l l'' c :=
  ⟨h1.toApart.trans h2.toApart, h2.self.trans h1.self⟩

theorem of_eq (h : l' = l) : Owned l l' c := h ▸ .refl l c

theorem set (l : Connections) {h : HttpData} (hh : h.OwnedBy (l.conns c)) : Owned l (l.set c h) c :=
  ⟨.set l c h, by rw [Connections.set_conns_self]; exact hh⟩

/-- the poller's tables are written -/
theorem tables (h : Owned l l' c) (fd2chan : ℕ → Option ConnId) (interest : ℕ → Option Events) :
    Owned l { l' with fd2chan := fd2chan, interest := interest } c :=
  ⟨⟨h.conns, h.http, h.heap, h.pendingFunctors, h.nextConn⟩, h.self⟩

theorem closes (h1 : Owned l l' c) (h2 : Closes l' l'' c) : Closes l l'' c where
  toApart := h1.toApart.trans h2.toApart
  self := by
    obtain ⟨h, hh, heq⟩ := h2.self
    exact ⟨h, hh.trans h1.self, heq⟩
  gone := by
    rw [← h1.self.fd]; exact h2.gone

end Owned

namespace Descriptors

variable (d : Descriptors) (c : ConnId)

theorem setEvents_owned (ev : Events) : Owned d.toConnections (d.setEvents c ev).toConnections c :=
  .set d.toConnections ⟨_, _, rfl⟩

theorem addTimer_owned (timeout : ℕ) (now : Timeval) : Owned d.toConnections (d.addTimer c timeout now).toConnections c := by
  unfold addTimer getHolder
  by_cases hlive : 0 < d.refs c
  · rw [if_pos hlive]
    have hset := Owned.set d.toConnections (c := c) (h := { d.conns c with timer := some d.nextTimer }) ⟨_, _, rfl⟩
    refine ⟨⟨hset.conns, hset.http, ?_, rfl, rfl⟩, hset.self⟩
    intro b hb hheld
    have hheld : b ∈ c :: held d.heap := hheld
    exact (List.mem_cons.1 hheld).resolve_left hb
  · rw [if_neg hlive]
    exact .refl _ _

theorem epollMod_owned (timeout : ℕ) (now : Timeval) (ok : Bool) :
    Owned d.toConnections (d.epollMod c timeout now ok).toConnections c := by
  have hstart : Owned d.toConnections (if timeout > 0 then d.addTimer c timeout now else d).toConnections c := by
    split_ifs
    · exact d.addTimer_owned c timeout now
    · exact .refl _ _
  unfold epollMod
  dsimp only
  generalize (if timeout > 0 then d.addTimer c timeout now else d) = e at hstart ⊢
  have hlast := hstart.trans (.set e.toConnections (c := c)
    (h := { e.conns c with channel := (e.conns c).channel.equalAndUpdateLastEvents.2 }) ⟨_, _, rfl⟩)
  split_ifs
  · exact hlast
  · exact hlast.tables _ _
  · exact hlast.tables _ _

theorem getHolder_self {h : ConnId} (hh : d.getHolder c = some h) : h = c := by
  unfold getHolder at hh
  split_ifs at hh
  exact (Option.some.inj hh).symm

theorem epollAdd_owned (timeout : ℕ) (now : Timeval) (ok : Bool) :
    Owned d.toConnections (d.epollAdd c timeout now ok).toConnections c := by
  have hstart : Owned d.toConnections (if timeout > 0 then
      (d.addTimer c timeout now).setHttp (d.conns c).fd ((d.addTimer c timeout now).getHolder c)
      else d).toConnections c := by
    split_ifs
    · refine (d.addTimer_owned c timeout now).trans ?_
      rw [setHttp_toConnections]
      exact ⟨.setHttp _ c _ fun b hb => getHolder_self _ c hb, .refl _⟩
    · exact .refl _ _
  unfold epollAdd
  dsimp only
  generalize (if timeout > 0 then
    (d.addTimer c timeout now).setHttp (d.conns c).fd ((d.addTimer c timeout now).getHolder c) else d) = e at hstart ⊢
  have hlast := hstart.trans (.set e.toConnections (c := c)
    (h := { e.conns c with channel := (e.conns c).channel.equalAndUpdateLastEvents.2 }) ⟨_, _, rfl⟩)
  exact hlast.tables _ _

theorem newEvent_owned (now : Timeval) (ok : Bool) : Owned d.toConnections (d.newEvent c now ok).toConnections c :=
  ((d.log (.runs c)).setEvents_owned c DEFAULT_EVENT).trans (epollAdd_owned _ c _ now ok)

/-- **handleClose** -/
theorem handleClose_closes (ok : Bool) : Closes d.toConnections (d.handleClose c ok).toConnections c := by
  unfold handleClose
  dsimp only
  rw [release_toConnections]
  set e := (d.log (.runs c)).setConn c { (d.log (.runs c)).conns c with connstate := .disconnected }
  have hstart : Apart d.toConnections e.toConnections c := .set d.toConnections c _
  have hself : e.conns c = { d.conns c with connstate := .disconnected } := Connections.set_conns_self d.toConnections c _
  unfold epollDel
  dsimp only
  rw [log_toConnections, setHttp_toConnections, acquire_toConnections, hself]
  have hdel := Apart.setHttp e.toConnections c (d.conns c).fd (p := none) (fun _ hb => nomatch hb)
  refine ⟨hstart.trans ?_, ⟨d.conns c, .refl _, ?_⟩, Function.update_self _ _ _⟩
  · cases ok <;> exact ⟨hdel.conns, hdel.http, hdel.heap, rfl, rfl⟩
  · cases ok <;> exact hself

theorem seperateTimer_owned : Owned d.toConnections (d.seperateTimer c).toConnections c := by
  have hset := Owned.set d.toConnections (c := c) (h := { d.conns c with timer := none }) ⟨_, _, rfl⟩
  unfold seperateTimer
  rw [setHeap_toConnections]
  exact hset.trans ⟨.setHeap _ c (held_resetTimer _ _), .refl _⟩

/-- handleConn after seperateTimer: an error closes the connection -/
theorem rearm_outcome (now : Timeval) (ok : Bool) :
    (Owned d.toConnections (d.rearm c now ok).toConnections c ∧ (d.conns c).error = false) ∨
      Closes d.toConnections (d.rearm c now ok).toConnections c := by
  have hmod : ∀ ev t, Owned d.toConnections ((d.setEvents c ev).epollMod c t now ok).toConnections c := fun ev t =>
    (d.setEvents_owned c ev).trans (epollMod_owned _ c t now ok)
  unfold rearm
  dsimp only
  by_cases hopen : (d.conns c).error = false ∧ (d.conns c).connstate = .connected
  · rw [if_pos hopen]
    refine Or.inl ⟨?_, hopen.1⟩
    split_ifs <;> exact hmod _ _
  · rw [if_neg hopen]
    split_ifs with hclosing
    · exact Or.inl ⟨d.setEvents_owned c _, hclosing.1⟩
    · right
      rw [release_toConnections]
      exact (d.acquire c).handleClose_closes c ok

/-- **handleConn** -/
theorem handleConn_outcome (now : Timeval) (ok : Bool) :
    (Owned d.toConnections (d.handleConn c now ok).toConnections c ∧ (d.conns c).error = false) ∨
      Closes d.toConnections (d.handleConn c now ok).toConnections c := by
  have hstart : Owned d.toConnections (((d.log (.runs c)).seperateTimer c).log (.runs c)).toConnections c :=
    (d.log (.runs c)).seperateTimer_owned c
  unfold handleConn
  rcases rearm_outcome (((d.log (.runs c)).seperateTimer c).log (.runs c)) c now ok with ⟨howned, herr⟩ | hcloses
  · refine Or.inl ⟨hstart.trans howned, ?_⟩
    obtain ⟨channel, timer, hself⟩ := hstart.self
    rw [hself] at herr
    exact herr
  · exact Or.inr (hstart.closes hcloses)

/-- **handleRead and handleWrite** -/
theorem member_apart {io : Io} {ctx : Ctx} (hctx : Ctx.Detaches (d.enter c io) ctx) :
    Apart d.toConnections (d.member c ctx).toConnections c ∧ (d.member c ctx).fd2http = d.fd2http := by
  unfold member
  rw [log_toConnections, setHeap_toConnections]
  exact ⟨(Apart.set d.toConnections c ctx.http).trans (.setHeap _ c hctx.2), rfl⟩

end Descriptors

end Glacier
