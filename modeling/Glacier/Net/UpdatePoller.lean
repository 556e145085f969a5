/-
What the operations of Descriptors do to the channels: the masks, the entries of fd2chan_ and the kernel's interest list,
whatever epoll_ctl returns.
- `Touches`: an operation on a connection leaves the other connections and descriptors alone;
- `Modified`, `Updated`: what updatePoller does, and that handleConn gives it no one-shot mask;
- `Left`: what the operations without updatePoller do: the last mask stays, or the connection is closed.
-/
import Glacier.Net.DescriptorRefine

namespace Glacier

open Cxx

/-- `l'` differs from `l` in the connection `c` and under its descriptor at most -/
structure Touches (l l' : Connections) (c : ConnId) : Prop where
  conns : ∀ b, b ≠ c → l'.conns b = l.conns b
  fd : (l'.conns c).fd = (l.conns c).fd
  chan : ∀ fd, fd ≠ (l.conns c).fd → l'.fd2chan fd = l.fd2chan fd
  interest : ∀ fd, fd ≠ (l.conns c).fd → l'.interest fd = l.interest fd

namespace Touches

variable {l l' l'' : Connections} {c : ConnId}

theorem refl (l : Connections) (c : ConnId) : Touches l l c := ⟨fun _ _ => rfl, rfl, fun _ _ => rfl, fun _ _ => rfl⟩

theorem trans (h1 : Touches l l' c) (h2 : Touches l' l'' c) : Touches l l'' c where
  conns := fun b hb => (h2.conns b hb).trans (h1.conns b hb)
  fd := h2.fd.trans h1.fd
  chan := fun fd hfd => (h2.chan fd (by rw [h1.fd]; exact hfd)).trans (h1.chan fd hfd)
  interest := fun fd hfd => (h2.interest fd (by rw [h1.fd]; exact hfd)).trans (h1.interest fd hfd)

theorem set (l : Connections) {h : HttpData} (hfd : h.fd = (l.conns c).fd) : Touches l (l.set c h) c where
  conns := fun _ hb => Connections.set_conns_of_ne l h hb
  fd := by rw [Connections.set_conns_self, hfd]
  chan := fun _ _ => rfl
  interest := fun _ _ => rfl

/-- entries that are then written under the descriptor of `c` -/
theorem under (h : Touches l l' c) (hconns : l''.conns = l'.conns)
    (hchan : ∀ fd, fd ≠ (l.conns c).fd → l''.fd2chan fd = l'.fd2chan fd)
    (hint : ∀ fd, fd ≠ (l.conns c).fd → l''.interest fd = l'.interest fd) : Touches l l'' c where
  conns := fun b hb => by rw [hconns]; exact h.conns b hb
  fd := by rw [hconns]; exact h.fd
  chan := fun fd hfd => (hchan fd hfd).trans (h.chan fd hfd)
  interest := fun fd hfd => (hint fd hfd).trans (h.interest fd hfd)

end Touches

/-- only the timer of `c` and the heap have changed, as far as `c` and the poller's other tables go -/
structure Quiet (l l' : Connections) (c : ConnId) : Prop where
  conns : ∀ b, b ≠ c → l'.conns b = l.conns b
  self : ∃ timer, l'.conns c = { l.conns c with timer := timer }
  chan : l'.fd2chan = l.fd2chan
  interest : l'.interest = l.interest

namespace Quiet

variable {l l' l'' : Connections} {c : ConnId}

theorem refl (l : Connections) (c : ConnId) : Quiet l l c := ⟨fun _ _ => rfl, ⟨_, rfl⟩, rfl, rfl⟩

theorem trans (h1 : Quiet l l' c) (h2 : Quiet l' l'' c) : Quiet l l'' c where
  conns := fun b hb => (h2.conns b hb).trans (h1.conns b hb)
  self := by
    obtain ⟨t1, h1⟩ := h1.self
    obtain ⟨t2, h2⟩ := h2.self
    exact ⟨t2, by rw [h2, h1]⟩
  chan := h2.chan.trans h1.chan
  interest := h2.interest.trans h1.interest

theorem channel (h : Quiet l l' c) : (l'.conns c).channel = (l.conns c).channel := by
  obtain ⟨timer, htimer⟩ := h.self
  rw [htimer]

theorem touches (h : Quiet l l' c) : Touches l l' c where
  conns := h.conns
  fd := by
    obtain ⟨timer, htimer⟩ := h.self
    rw [htimer]
  chan := fun _ _ => by rw [h.chan]
  interest := fun _ _ => by rw [h.interest]

theorem setTimer (l : Connections) (c : ConnId) (timer : Option ℕ) :
    Quiet l (l.set c { l.conns c with timer := timer }) c where
  conns := fun _ hb => Connections.set_conns_of_ne l _ hb
  self := ⟨timer, Connections.set_conns_self _ _ _⟩
  chan := rfl
  interest := rfl

end Quiet

/-- What updatePoller of `c` does: the call is left out, or succeeds, or fails and takes the channel from the table. -/
inductive Modified (l l' : Connections) (c : ConnId) (ok : Bool) : Prop where
  | skipped (heq : (l.conns c).channel.lastevents = (l'.conns c).channel.events) (hchan : l'.fd2chan = l.fd2chan)
      (hint : l'.interest = l.interest)
  | issued (hne : (l.conns c).channel.lastevents ≠ (l'.conns c).channel.events) (hok : ok = true)
      (hchan : l'.fd2chan = l.fd2chan)
      (hint : l'.interest (l.conns c).fd = some (l'.conns c).channel.events)
  | failed (hgone : l'.fd2chan (l.conns c).fd = none)

/-- before updatePoller neither the last mask nor the tables have changed -/
theorem Modified.head {l₀ l l' : Connections} {c : ConnId} {ok : Bool} (h : Modified l l' c ok)
    (hlast : (l.conns c).channel.lastevents = (l₀.conns c).channel.lastevents) (hfd : (l.conns c).fd = (l₀.conns c).fd)
    (hchan : l.fd2chan = l₀.fd2chan) (hint : l.interest = l₀.interest) : Modified l₀ l' c ok := by
  cases h with
  | skipped heq hchan' hint' => exact .skipped (hlast ▸ heq) (hchan'.trans hchan) (hint'.trans hint)
  | issued hne hok hchan' hint' => exact .issued (hlast ▸ hne) hok (hchan'.trans hchan) (hfd ▸ hint')
  | failed hgone => exact .failed (hfd ▸ hgone)

/-- handleConn of the connection calls updatePoller -/
def HttpData.Updates (h : HttpData) : Prop := h.error = false ∧ h.connstate = .connected

instance (h : HttpData) : Decidable h.Updates := inferInstanceAs (Decidable (_ ∧ _))

/-- what updatePoller of `c` leaves: its mask, not a one-shot one, is the last mask -/
structure Updated (l l' : Connections) (c : ConnId) (ok : Bool) : Prop where
  touches : Touches l l' c
  last : (l'.conns c).channel.lastevents = (l'.conns c).channel.events
  armed : has (l'.conns c).channel.events EPOLLONESHOT = false
  modified : Modified l l' c ok

/-- what the rest of handleConn leaves: the mask stays what it was, or the connection is closed -/
structure Left (l l' : Connections) (c : ConnId) : Prop where
  touches : Touches l l' c
  outcome : ((l'.conns c).channel.lastevents = (l.conns c).channel.lastevents ∧ l'.fd2chan = l.fd2chan ∧
    l'.interest = l.interest) ∨ l'.fd2chan (l.conns c).fd = none

namespace Descriptors

variable (d : Descriptors) (c : ConnId)

theorem addTimer_quiet (timeout : ℕ) (now : Timeval) :
    Quiet d.toConnections (d.addTimer c timeout now).toConnections c := by
  unfold addTimer getHolder
  by_cases hlive : 0 < d.refs c
  · rw [if_pos hlive]
    have hset := Quiet.setTimer d.toConnections c (some d.nextTimer)
    exact ⟨hset.conns, hset.self, hset.chan, hset.interest⟩
  · rw [if_neg hlive]
    exact .refl _ _

theorem seperateTimer_quiet : Quiet d.toConnections (d.seperateTimer c).toConnections c := by
  have hset := Quiet.setTimer d.toConnections c none
  unfold seperateTimer
  rw [setHeap_toConnections]
  exact ⟨hset.conns, hset.self, hset.chan, hset.interest⟩

/-- EqualAndUpdateLastEvents, after the timer -/
theorem setLast_spec {d e : Descriptors} {c : ConnId} (h : Quiet d.toConnections e.toConnections c) :
    Touches d.toConnections
        (e.setConn c { e.conns c with channel := (e.conns c).channel.equalAndUpdateLastEvents.2 }).toConnections c ∧
      ((e.setConn c { e.conns c with channel := (e.conns c).channel.equalAndUpdateLastEvents.2 }).conns c).channel =
        { (d.conns c).channel with lastevents := (d.conns c).channel.events } ∧
      (e.conns c).channel.equalAndUpdateLastEvents =
        ((d.conns c).channel.lastevents == (d.conns c).channel.events,
          { (d.conns c).channel with lastevents := (d.conns c).channel.events }) := by
  have heq : (e.conns c).channel.equalAndUpdateLastEvents =
      ((d.conns c).channel.lastevents == (d.conns c).channel.events,
        { (d.conns c).channel with lastevents := (d.conns c).channel.events }) := by
    rw [h.channel]; rfl
  refine ⟨h.touches.trans (.set e.toConnections rfl), ?_, heq⟩
  rw [heq]
  exact congrArg HttpData.channel (Connections.set_conns_self _ _ _)

/-- **epoll_mod**, whatever epoll_ctl returns -/
theorem epollMod_spec (timeout : ℕ) (now : Timeval) (ok : Bool) :
    Touches d.toConnections (d.epollMod c timeout now ok).toConnections c ∧
      ((d.epollMod c timeout now ok).conns c).channel =
        { (d.conns c).channel with lastevents := (d.conns c).channel.events } ∧
      Modified d.toConnections (d.epollMod c timeout now ok).toConnections c ok := by
  have hquiet : Quiet d.toConnections (if timeout > 0 then d.addTimer c timeout now else d).toConnections c := by
    split_ifs
    · exact d.addTimer_quiet c timeout now
    · exact .refl _ _
  unfold epollMod
  dsimp only
  generalize (if timeout > 0 then d.addTimer c timeout now else d) = e at hquiet ⊢
  have hfd : (e.conns c).fd = (d.conns c).fd := hquiet.touches.fd
  obtain ⟨hset, hchannel, hlast⟩ := setLast_spec hquiet
  rw [hlast] at hset hchannel ⊢
  dsimp only at hset hchannel ⊢
  set f := e.setConn c { e.conns c with channel := { (d.conns c).channel with lastevents := (d.conns c).channel.events } }
  have hevents : (f.conns c).channel.events = (d.conns c).channel.events := by rw [hchannel]
  split_ifs with heq hok
  · rw [beq_iff_eq] at heq
    exact ⟨hset, hchannel, .skipped (heq.trans hevents.symm) hquiet.chan hquiet.interest⟩
  · rw [beq_iff_eq] at heq
    refine ⟨hset.under rfl (fun _ _ => rfl) (fun fd hne => Function.update_of_ne (hfd ▸ hne) _ _), hchannel, ?_⟩
    refine .issued (fun h => heq (h.trans hevents)) hok hquiet.chan ?_
    calc Function.update e.interest (e.conns c).fd (some (d.conns c).channel.events) (d.conns c).fd
        = some (d.conns c).channel.events := by rw [← hfd, Function.update_self]
      _ = some (f.conns c).channel.events := congrArg some hevents.symm
  · refine ⟨hset.under rfl (fun fd hne => Function.update_of_ne (hfd ▸ hne) _ _) (fun _ _ => rfl), hchannel, .failed ?_⟩
    rw [← hfd]
    exact Function.update_self _ _ _

/-- **epoll_add**, whatever epoll_ctl returns -/
theorem epollAdd_spec (timeout : ℕ) (now : Timeval) (ok : Bool) :
    Touches d.toConnections (d.epollAdd c timeout now ok).toConnections c ∧
      ((d.epollAdd c timeout now ok).conns c).channel =
        { (d.conns c).channel with lastevents := (d.conns c).channel.events } ∧
      (d.epollAdd c timeout now ok).fd2chan (d.conns c).fd = (if ok then some c else none) ∧
      (ok = true → (d.epollAdd c timeout now ok).interest (d.conns c).fd = some (d.conns c).channel.events) := by
  have hquiet : Quiet d.toConnections (if timeout > 0 then
      (d.addTimer c timeout now).setHttp (d.conns c).fd ((d.addTimer c timeout now).getHolder c)
      else d).toConnections c := by
    split_ifs
    · refine (d.addTimer_quiet c timeout now).trans ?_
      rw [setHttp_toConnections]
      exact ⟨fun _ _ => rfl, ⟨_, rfl⟩, rfl, rfl⟩
    · exact .refl _ _
  unfold epollAdd
  dsimp only
  generalize (if timeout > 0 then (d.addTimer c timeout now).setHttp (d.conns c).fd ((d.addTimer c timeout now).getHolder c)
    else d) = e at hquiet ⊢
  obtain ⟨hset, hchannel, hlast⟩ := setLast_spec hquiet
  rw [hlast] at hset hchannel ⊢
  refine ⟨hset.under rfl (fun fd hne => Function.update_of_ne hne _ _) (fun fd hne => ?_), hchannel,
    Function.update_self _ _ _, ?_⟩
  · cases ok with
    | false => rfl
    | true => exact Function.update_of_ne hne _ _
  · intro hok
    rw [hok]
    exact Function.update_self _ _ _

theorem newEvent_spec (now : Timeval) (ok : Bool) :
    Touches d.toConnections (d.newEvent c now ok).toConnections c ∧
      ((d.newEvent c now ok).conns c).channel.events = DEFAULT_EVENT ∧
      ((d.newEvent c now ok).conns c).channel.lastevents = DEFAULT_EVENT ∧
      (d.newEvent c now ok).fd2chan (d.conns c).fd = (if ok then some c else none) ∧
      (ok = true → (d.newEvent c now ok).interest (d.conns c).fd = some DEFAULT_EVENT) := by
  set e := (d.log (.runs c)).setEvents c DEFAULT_EVENT
  have hstart : Touches d.toConnections e.toConnections c := .set d.toConnections rfl
  have hevents : (e.conns c).channel.events = DEFAULT_EVENT :=
    congrArg (fun h => h.channel.events) (Connections.set_conns_self d.toConnections c _)
  obtain ⟨htouches, hchannel, hchan, hint⟩ := e.epollAdd_spec c DEFAULT_EXPIRED_TIME now ok
  rw [hevents] at hchannel hint
  rw [hstart.fd] at hchan hint
  refine ⟨hstart.trans htouches, ?_, ?_, hchan, hint⟩
  · calc ((e.epollAdd c DEFAULT_EXPIRED_TIME now ok).conns c).channel.events = (e.conns c).channel.events := by
          rw [hchannel]
      _ = DEFAULT_EVENT := hevents
  · exact congrArg Channel.lastevents hchannel

/-- **handleClose** takes the channel from the table, whatever epoll_ctl returns -/
theorem handleClose_spec (ok : Bool) :
    Touches d.toConnections (d.handleClose c ok).toConnections c ∧ (d.handleClose c ok).fd2chan (d.conns c).fd = none := by
  unfold handleClose
  dsimp only
  rw [release_toConnections]
  set e := (d.log (.runs c)).setConn c { (d.log (.runs c)).conns c with connstate := .disconnected }
  have hstart : Touches d.toConnections e.toConnections c := .set d.toConnections rfl
  have hfd : ((e.acquire c).conns c).fd = (d.conns c).fd := hstart.fd
  unfold epollDel
  dsimp only
  rw [log_toConnections, setHttp_toConnections, hfd]
  refine ⟨hstart.under ?_ (fun fd hne => ?_) (fun fd hne => ?_), ?_⟩
  · cases ok <;> rfl
  · cases ok <;> exact Function.update_of_ne hne _ _
  · cases ok with
    | false => rfl
    | true => exact Function.update_of_ne hne _ _
  · cases ok <;> exact Function.update_self _ _ _

/-- setEvents and updatePoller -/
theorem setEvents_epollMod_spec {ev : Events} (hev : has ev EPOLLONESHOT = false) (timeout : ℕ) (now : Timeval) (ok : Bool) :
    Updated d.toConnections ((d.setEvents c ev).epollMod c timeout now ok).toConnections c ok := by
  have hset : Touches d.toConnections (d.setEvents c ev).toConnections c := .set d.toConnections rfl
  have hchannel : ((d.setEvents c ev).conns c).channel = (d.conns c).channel.setEvents ev :=
    congrArg HttpData.channel (Connections.set_conns_self d.toConnections c _)
  obtain ⟨htouches, hmod, hmodified⟩ := (d.setEvents c ev).epollMod_spec c timeout now ok
  rw [hchannel] at hmod
  refine ⟨hset.trans htouches, ?_, ?_, hmodified.head ?_ hset.fd rfl rfl⟩
  · rw [hmod]
  · rw [hmod]; exact hev
  · rw [hchannel]; rfl

/-- **The masks of handleConn.** From 0 or EPOLLOUT it makes EPOLLIN | EPOLLET or EPOLLOUT | EPOLLET. -/
theorem rearm_updates (hup : (d.conns c).Updates) (hmask : (d.conns c).MaskOk) (now : Timeval) (ok : Bool) :
    Updated d.toConnections (d.rearm c now ok).toConnections c ok := by
  unfold HttpData.Updates at hup
  unfold rearm
  dsimp only
  rw [if_pos hup]
  rcases hmask hup.1 with hev | hev
  · rw [hev, if_neg (not_not.2 rfl)]
    split_ifs
    · exact d.setEvents_epollMod_spec c (by decide) _ now ok
    · exact d.setEvents_epollMod_spec c (by decide) _ now ok
  · rw [hev, if_pos (by decide)]
    exact d.setEvents_epollMod_spec c (by decide) _ now ok

theorem rearm_leaves (hup : ¬ (d.conns c).Updates) (now : Timeval) (ok : Bool) :
    Left d.toConnections (d.rearm c now ok).toConnections c := by
  unfold HttpData.Updates at hup
  unfold rearm
  dsimp only
  rw [if_neg hup]
  split_ifs
  · refine ⟨.set d.toConnections rfl, Or.inl ⟨?_, rfl, rfl⟩⟩
    exact congrArg (fun h => h.channel.lastevents) (Connections.set_conns_self d.toConnections c _)
  · rw [release_toConnections]
    obtain ⟨htouches, hgone⟩ := (d.acquire c).handleClose_spec c ok
    exact ⟨htouches, Or.inr hgone⟩

/-- handleConn up to its end -/
theorem handleConn_start : Quiet d.toConnections (((d.log (.runs c)).seperateTimer c).log (.runs c)).toConnections c :=
  (d.log (.runs c)).seperateTimer_quiet c

theorem handleConn_updates (hup : (d.conns c).Updates) (hmask : (d.conns c).MaskOk) (now : Timeval) (ok : Bool) :
    Updated d.toConnections (d.handleConn c now ok).toConnections c ok := by
  have hstart := d.handleConn_start c
  unfold handleConn
  set e := ((d.log (.runs c)).seperateTimer c).log (.runs c)
  obtain ⟨timer, hself⟩ := hstart.self
  have h := e.rearm_updates c (by rw [hself]; exact hup) (by rw [hself]; exact hmask) now ok
  refine ⟨hstart.touches.trans h.touches, h.last, h.armed, h.modified.head ?_ hstart.touches.fd hstart.chan hstart.interest⟩
  rw [hstart.channel]

theorem handleConn_leaves (hup : ¬ (d.conns c).Updates) (now : Timeval) (ok : Bool) :
    Left d.toConnections (d.handleConn c now ok).toConnections c := by
  have hstart := d.handleConn_start c
  unfold handleConn
  set e := ((d.log (.runs c)).seperateTimer c).log (.runs c)
  obtain ⟨timer, hself⟩ := hstart.self
  have h := e.rearm_leaves c (by rw [hself]; exact hup) now ok
  refine ⟨hstart.touches.trans h.touches, ?_⟩
  rcases h.outcome with ⟨hlast, hchan, hint⟩ | hgone
  · exact Or.inl ⟨by rw [hlast, hstart.channel], hchan.trans hstart.chan, hint.trans hstart.interest⟩
  · exact Or.inr (by rw [← hstart.touches.fd]; exact hgone)

theorem member_conns (ctx : Ctx) : (d.member c ctx).conns c = ctx.http := by
  unfold member
  rw [log_toConnections, setHeap_toConnections]
  exact Connections.set_conns_self d.toConnections c ctx.http

/-- handleRead and handleWrite -/
theorem member_leaves {ctx : Ctx} (hfd : ctx.http.fd = (d.conns c).fd)
    (hlast : ctx.http.channel.lastevents = (d.conns c).channel.lastevents) :
    Left d.toConnections (d.member c ctx).toConnections c := by
  have hself := d.member_conns c ctx
  have hset : Touches d.toConnections (d.toConnections.set c ctx.http) c := .set d.toConnections hfd
  unfold member at hself ⊢
  rw [log_toConnections, setHeap_toConnections] at hself ⊢
  exact ⟨⟨hset.conns, hset.fd, hset.chan, hset.interest⟩, Or.inl ⟨by rw [hself, hlast], rfl, rfl⟩⟩

end Descriptors

end Glacier
