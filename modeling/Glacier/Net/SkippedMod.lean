/-
epoll_mod and the calls that it leaves out.

`Shadowed` is the loop of Descriptors with what an observer of its poller notes down:
- `programmed`: the mask that epoll_ctl was last given with success, for each descriptor;
- `unskipped`: the kernel's interest list if epoll_mod called epoll_ctl every time, the calls that it leaves out all
  successful;
- `updated`: the connection whose updatePoller has just returned.
The observer changes nothing: a run of Shadowed is a run of Descriptors with notes (`run_toDescriptors`).

lastevents_ knows of no report and of no call that failed. It does not have to: handleConn asks for EPOLLIN | EPOLLET or for
EPOLLOUT | EPOLLET, neither of them one-shot, so that the first call after newEvent is never left out and no later
report takes anything from the mask; and a call that fails removes the descriptor from fd2chan_.
- `Shadow`: the notes on one connection that is in fd2chan_;
- `step_inv`: every step keeps it, for every connection;
- `skipped_mod_safe`: in every run the kernel's list is the one without omissions, and after updatePoller it has the mask of
  the channel.
-/
import Glacier.Net.UpdatePoller

namespace Glacier

open Cxx

/-! ## The notes -/

structure Shadowed extends Descriptors where
  programmed : ℕ → Option Events
  unskipped : ℕ → Option Events
  updated : Option ConnId

namespace Shadowed

/-- the kernel reports a descriptor -/
def disarm (entries : ℕ → Option Events) (e : ℕ × Events) : ℕ → Option Events :=
  Function.update entries e.1 ((entries e.1).map Connections.reported)

/-- a step to `d` with nothing to note -/
def keep (s : Shadowed) (d : Descriptors) : Shadowed := { s with toDescriptors := d, updated := none }

/-- addToPoller of `c` has led to `d` -/
def added (s : Shadowed) (d : Descriptors) (c : ConnId) (ok : Bool) : Shadowed :=
  let fd := (d.conns c).fd
  let mask := (d.conns c).channel.events
  if ok then
    { s.keep d with
      programmed := Function.update s.programmed fd (some mask)
      unskipped := Function.update s.unskipped fd (some mask) }
  else s.keep d

/-- updatePoller of `c` has led to `d`; it calls epoll_ctl if the mask is not the last one -/
def modified (s : Shadowed) (d : Descriptors) (c : ConnId) (ok : Bool) : Shadowed :=
  let fd := (d.conns c).fd
  let mask := (d.conns c).channel.events
  { s with
    toDescriptors := d
    programmed :=
      if (s.conns c).channel.lastevents ≠ mask ∧ ok = true then Function.update s.programmed fd (some mask)
      else s.programmed
    unskipped := Function.update s.unskipped fd (some mask)
    updated := some c }

/-- what is noted of the step `o` to `d` -/
def note (s : Shadowed) (d : Descriptors) : Descriptors.Op → Shadowed
  | .poll events => { s.keep d with unskipped := events.foldl disarm s.unskipped }
  | .newEvent _ ok =>
    match s.pc with
    | .functors (c :: _) => s.added d c ok
    | _ => s.keep d
  | .callback _ _ _ _ ok =>
    match s.pc with
    | .callbacks c (.conn :: _) _ => if (s.conns c).Updates then s.modified d c ok else s.keep d
    | _ => s.keep d
  | _ => s.keep d

def step (s : Shadowed) (o : Descriptors.Op) : Option Shadowed := (s.toDescriptors.step o).map fun d => s.note d o

def init : Shadowed where
  toDescriptors := Descriptors.init
  programmed := fun _ => none
  unskipped := fun _ => none
  updated := none

theorem note_toDescriptors (s : Shadowed) (d : Descriptors) (o : Descriptors.Op) : (s.note d o).toDescriptors = d := by
  unfold note
  cases o with
  | newEvent now ok =>
    dsimp only
    split
    · cases ok <;> rfl
    · rfl
  | callback reads writes fs now ok =>
    dsimp only
    split
    · split_ifs <;> rfl
    · rfl
  | _ => rfl

/-- **The notes change nothing.** -/
theorem run_toDescriptors (s : Shadowed) (ops : List Descriptors.Op) :
    (Machine.run step s ops).map toDescriptors = Machine.run Descriptors.step s.toDescriptors ops := by
  refine Machine.run_map ?_ s ops
  intro s o
  simp only [step, Option.map_map, Function.comp_def, note_toDescriptors, Option.map_id']

/-! ## The invariant -/

/-- the notes on `c`, which is in fd2chan_ under `fd` -/
structure Shadow (s : Shadowed) (fd : ℕ) (c : ConnId) : Prop where
  programmed : s.programmed fd = some (s.conns c).channel.lastevents
  unskipped : s.interest fd = s.unskipped fd
  /-- a mask that a report may have changed is the one of newEvent -/
  armed : (s.conns c).channel.lastevents = DEFAULT_EVENT ∨
    (has (s.conns c).channel.lastevents EPOLLONESHOT = false ∧ s.interest fd = some (s.conns c).channel.lastevents)

structure Inv (s : Shadowed) : Prop where
  loop : Descriptors.Inv s.toDescriptors
  shadow : ∀ fd c, s.fd2chan fd = some c → Shadow s fd c
  mask : ∀ c cbs active, s.pc = .callbacks c cbs active → (s.conns c).connstate = .connected → (s.conns c).MaskOk
  updated : ∀ fd c, s.updated = some c → s.fd2chan fd = some c → s.interest fd = some (s.conns c).channel.events

theorem inv_init : Inv init where
  loop := Descriptors.inv_init
  shadow := by
    intro fd c hc
    cases hc
  mask := by
    intro c cbs active hpc
    cases hpc
  updated := by
    intro fd c hc
    cases hc

variable {s t : Shadowed} {d : Descriptors} {c : ConnId}

/-- the connection that is being handled is not destroyed -/
theorem Inv.live (h : Inv s) {cbs : List Callback} {active : List ConnId} (hpc : s.pc = .callbacks c cbs active) :
    0 < s.refs c := by
  apply h.loop.counted.live_of_http
  apply h.loop.active
  rw [hpc]; exact List.mem_cons_self

/-- the entry under the descriptor of a connection that is not destroyed is its own -/
theorem Inv.eq_of_chan (h : Inv s) (hc : 0 < s.refs c) {b : ConnId} (hb : s.fd2chan (s.conns c).fd = some b) : b = c := by
  have hhttp := h.loop.counted.chan _ b hb
  exact h.loop.counted.eq_of_fd (h.loop.counted.live_of_http hhttp) hc (h.loop.counted.http _ b hhttp).2

/-- the connections in fd2chan_, and what is noted of them, are as before -/
theorem Shadow.congr {fd : ℕ} (h : Shadow s fd c)
    (hlast : (t.conns c).channel.lastevents = (s.conns c).channel.lastevents) (hint : t.interest fd = s.interest fd)
    (hprog : t.programmed fd = s.programmed fd) (hunsk : t.unskipped fd = s.unskipped fd) : Shadow t fd c where
  programmed := by rw [hprog, hlast]; exact h.programmed
  unskipped := by rw [hint, hunsk]; exact h.unskipped
  armed := by rw [hlast, hint]; exact h.armed

/-- **Steps of one connection.** The others keep their notes. -/
theorem Inv.touched {l : Connections} (h : Inv s) (htouch : Touches s.toConnections l c) (hconns : t.conns = l.conns)
    (hchan : t.fd2chan = l.fd2chan) (hint : t.interest = l.interest)
    (hprog : ∀ fd, fd ≠ (s.conns c).fd → t.programmed fd = s.programmed fd)
    (hunsk : ∀ fd, fd ≠ (s.conns c).fd → t.unskipped fd = s.unskipped fd)
    (hself : ∀ b, t.fd2chan (s.conns c).fd = some b → Shadow t (s.conns c).fd b) (fd : ℕ) (b : ConnId)
    (hb : t.fd2chan fd = some b) : Shadow t fd b := by
  by_cases hfd : fd = (s.conns c).fd
  · subst hfd
    exact hself b hb
  · rw [hchan, htouch.chan fd hfd] at hb
    have hbc : b ≠ c := by
      rintro rfl
      exact hfd (h.loop.counted.http fd b (h.loop.counted.chan fd b hb)).2.symm
    refine (h.shadow fd b hb).congr ?_ ?_ (hprog fd hfd) (hunsk fd hfd)
    · rw [hconns, htouch.conns b hbc]
    · rw [hint, htouch.interest fd hfd]

/-- a step that leaves the mask of `c` alone, or closes `c` -/
theorem Inv.left {l : Connections} (h : Inv s) (hc : 0 < s.refs c) (hleft : Left s.toConnections l c)
    (hconns : t.conns = l.conns) (hchan : t.fd2chan = l.fd2chan) (hint : t.interest = l.interest)
    (hprog : t.programmed = s.programmed) (hunsk : t.unskipped = s.unskipped) (fd : ℕ) (b : ConnId)
    (hb : t.fd2chan fd = some b) : Shadow t fd b := by
  refine h.touched hleft.touches hconns hchan hint (fun _ _ => by rw [hprog]) (fun _ _ => by rw [hunsk]) ?_ fd b hb
  intro b hb
  rw [hchan] at hb
  rcases hleft.outcome with ⟨hlast, hchan', hint'⟩ | hgone
  · rw [hchan'] at hb
    obtain rfl := h.eq_of_chan hc hb
    exact (h.shadow _ b hb).congr (by rw [hconns, hlast]) (by rw [hint, hint']) (by rw [hprog]) (by rw [hunsk])
  · rw [hgone] at hb
    cases hb

/-- a step that changes no connection in fd2chan_ -/
theorem Inv.same (h : Inv s) (hconns : ∀ b, 0 < s.refs b → t.conns b = s.conns b) (hchan : t.fd2chan = s.fd2chan)
    (hint : t.interest = s.interest) (hprog : t.programmed = s.programmed) (hunsk : t.unskipped = s.unskipped) (fd : ℕ)
    (b : ConnId) (hb : t.fd2chan fd = some b) : Shadow t fd b := by
  rw [hchan] at hb
  have hlive := h.loop.counted.live_of_http (h.loop.counted.chan fd b hb)
  exact (h.shadow fd b hb).congr (by rw [hconns b hlive]) (by rw [hint]) (by rw [hprog]) (by rw [hunsk])

/-- **updatePoller.** The kernel has the mask of the channel, whether the call was made or left out. -/
theorem Inv.armed {l : Connections} {ok : Bool} (h : Inv s) (hc : 0 < s.refs c) (hup : Updated s.toConnections l c ok)
    {b : ConnId} (hb : l.fd2chan (s.conns c).fd = some b) :
    b = c ∧ l.interest (s.conns c).fd = some (l.conns c).channel.events ∧
      ((s.conns c).channel.lastevents = (l.conns c).channel.events →
        s.programmed (s.conns c).fd = some (l.conns c).channel.events) ∧
      ((s.conns c).channel.lastevents ≠ (l.conns c).channel.events → ok = true) := by
  cases hup.modified with
  | skipped heq hchan hint =>
    rw [hchan] at hb
    obtain rfl := h.eq_of_chan hc hb
    have hshadow := h.shadow _ b hb
    refine ⟨rfl, ?_, fun heq => heq ▸ hshadow.programmed, fun hne => absurd heq hne⟩
    rw [hint, ← heq]
    rcases hshadow.armed with hdefault | ⟨-, hentry⟩
    · -- the first mask is one-shot, this one is not
      have honce := hup.armed
      rw [← heq, hdefault] at honce
      exact absurd honce (by decide)
    · exact hentry
  | issued hne hok hchan hint =>
    rw [hchan] at hb
    obtain rfl := h.eq_of_chan hc hb
    exact ⟨rfl, hint, fun heq => absurd heq hne, fun _ => hok⟩
  | failed hgone =>
    rw [hgone] at hb
    cases hb

/-! ## The steps -/

theorem Inv.keep (hloop : Descriptors.Inv d)
    (hshadow : ∀ fd b, (s.keep d).fd2chan fd = some b → Shadow (s.keep d) fd b)
    (hmask : ∀ c cbs active, d.pc = .callbacks c cbs active → (d.conns c).connstate = .connected → (d.conns c).MaskOk) :
    Inv (s.keep d) where
  loop := hloop
  shadow := hshadow
  mask := hmask
  updated := by
    intro fd c hc
    cases hc

/-- outside the callbacks -/
theorem mask_idle (hpc : Connections.LoopPc.handled d.pc = none) :
    ∀ c cbs active, d.pc = .callbacks c cbs active → (d.conns c).connstate = .connected → (d.conns c).MaskOk := by
  intro c cbs active hc
  rw [hc] at hpc
  cases hpc

/-- between two callbacks of `c` -/
theorem mask_nextPc {cbs : List Callback} {active : List ConnId}
    (hmask : (d.conns c).connstate = .connected → (d.conns c).MaskOk) :
    ∀ c' cbs' active', Connections.nextPc c cbs active = .callbacks c' cbs' active' →
      (d.conns c').connstate = .connected → (d.conns c').MaskOk := by
  intro c' cbs' active' hpc
  unfold Connections.nextPc at hpc
  split_ifs at hpc
  cases hpc
  exact hmask

theorem accept_inv {fd : ℕ} (h : Inv s) (hloop : Descriptors.Inv d)
    (hd : s.toDescriptors.step (.accept fd) = some d) : Inv (s.note d (.accept fd)) := by
  change Inv (s.keep d)
  simp only [Descriptors.step] at hd
  by_cases hg : s.owner fd = none ∧ fd < MAXFDS ∧ s.reqInfo = none
  · rw [if_pos hg] at hd
    obtain rfl := Option.some.inj hd
    have hconns : ∀ b, 0 < s.refs b → (s.toConnections.set s.nextConn (.new fd)).conns b = s.conns b := fun b hb =>
      Connections.set_conns_of_ne _ _ (h.loop.counted.ne_next hb)
    refine .keep hloop (h.same hconns rfl rfl rfl rfl) ?_
    intro c cbs active hpc
    have hc := hconns c (h.live hpc)
    have hmask := h.mask c cbs active hpc
    rw [← hc] at hmask
    exact hmask
  · rw [if_neg hg] at hd
    cases hd

theorem endAccept_inv (h : Inv s) (hloop : Descriptors.Inv d)
    (hd : s.toDescriptors.step .endAccept = some d) : Inv (s.note d .endAccept) := by
  change Inv (s.keep d)
  simp only [Descriptors.step] at hd
  obtain ⟨c, -, rfl⟩ := Option.map_eq_some_iff.1 hd
  have hsame : ({ s.toDescriptors with reqInfo := none }.release c).toConnections = s.toConnections :=
    Descriptors.release_toConnections _ _
  refine .keep hloop (h.same ?_ ?_ ?_ rfl rfl) ?_
  · intro b _
    exact congrArg (fun l => Connections.conns l b) hsame
  · exact congrArg Connections.fd2chan hsame
  · exact congrArg Connections.interest hsame
  · rw [hsame]; exact h.mask

theorem doPendingFunctors_inv (h : Inv s) (hloop : Descriptors.Inv d)
    (hd : s.toDescriptors.step .doPendingFunctors = some d) : Inv (s.note d .doPendingFunctors) := by
  change Inv (s.keep d)
  simp only [Descriptors.step] at hd
  split_ifs at hd
  obtain rfl := Option.some.inj hd
  exact .keep hloop (h.same (fun _ _ => rfl) rfl rfl rfl rfl) (mask_idle rfl)

/-! ### Events -/

theorem disarm_congr {entries entries' : ℕ → Option Events} {fd : ℕ} (events : List (ℕ × Events))
    (h : entries fd = entries' fd) : events.foldl disarm entries fd = events.foldl disarm entries' fd := by
  induction events generalizing entries entries' with
  | nil => exact h
  | cons e events ih =>
    rw [List.foldl_cons, List.foldl_cons]
    apply ih
    unfold disarm
    by_cases hfd : fd = e.1
    · rw [← hfd, Function.update_self, Function.update_self, h]
    · rw [Function.update_of_ne hfd, Function.update_of_ne hfd, h]

/-- a report takes nothing from a mask that is not one-shot -/
theorem disarm_armed {entries : ℕ → Option Events} {fd : ℕ} {m : Events} (events : List (ℕ × Events))
    (honce : has m EPOLLONESHOT = false) (h : entries fd = some m) : events.foldl disarm entries fd = some m := by
  induction events generalizing entries with
  | nil => exact h
  | cons e events ih =>
    rw [List.foldl_cons]
    apply ih
    unfold disarm
    by_cases hfd : fd = e.1
    · rw [← hfd, Function.update_self, h, Option.map_some, Connections.reported, honce, if_neg (by simp)]
    · rw [Function.update_of_ne hfd, h]

theorem report_fold (events : List (ℕ × Events)) (l : Connections) :
    (events.foldl Connections.report l).interest = events.foldl disarm l.interest ∧
      ∀ b, ((events.foldl Connections.report l).conns b).channel.lastevents = (l.conns b).channel.lastevents := by
  induction events generalizing l with
  | nil => exact ⟨rfl, fun _ => rfl⟩
  | cons e events ih =>
    have hone : (l.report e).interest = disarm l.interest e ∧
        ∀ b, ((l.report e).conns b).channel.lastevents = (l.conns b).channel.lastevents := by
      unfold Connections.report
      dsimp only
      cases l.fd2chan e.1 with
      | none => exact ⟨rfl, fun _ => rfl⟩
      | some c =>
        refine ⟨rfl, fun b => ?_⟩
        by_cases hb : b = c
        · subst hb
          exact congrArg (fun h => h.channel.lastevents) (Connections.set_conns_self _ _ _)
        · exact congrArg (fun h => h.channel.lastevents) (Connections.set_conns_of_ne _ _ hb)
    obtain ⟨hint, hlast⟩ := ih (l.report e)
    rw [List.foldl_cons]
    refine ⟨?_, fun b => (hlast b).trans (hone.2 b)⟩
    rw [hint, hone.1]; rfl

theorem poll_spec {events : List (ℕ × Events)} (hd : s.toDescriptors.step (.poll events) = some d) :
    d.fd2chan = s.fd2chan ∧ d.interest = events.foldl disarm s.interest ∧
      (∀ b, (d.conns b).channel.lastevents = (s.conns b).channel.lastevents) ∧
      Connections.LoopPc.handled d.pc = none := by
  simp only [Descriptors.step] at hd
  split_ifs at hd
  obtain rfl := Option.some.inj hd
  obtain ⟨hint, hlast⟩ := report_fold events s.toConnections
  obtain ⟨-, hchan, -⟩ := Descriptors.report_fold events s.toConnections
  exact ⟨hchan, hint, hlast, rfl⟩

/-- **Reports**, which may disarm one-shot entries -/
theorem poll_inv {events : List (ℕ × Events)} (h : Inv s) (hloop : Descriptors.Inv d)
    (hd : s.toDescriptors.step (.poll events) = some d) : Inv (s.note d (.poll events)) := by
  obtain ⟨hchan, hint, hlast, hpc⟩ := poll_spec hd
  refine ⟨hloop, ?_, mask_idle hpc, ?_⟩
  · intro fd c hc
    have hentry : s.fd2chan fd = some c := (congrFun hchan fd).symm.trans hc
    have hshadow := h.shadow fd c hentry
    refine ⟨?_, ?_, ?_⟩
    · calc s.programmed fd = some (s.conns c).channel.lastevents := hshadow.programmed
        _ = some (d.conns c).channel.lastevents := congrArg some (hlast c).symm
    · calc d.interest fd = events.foldl disarm s.interest fd := congrFun hint fd
        _ = events.foldl disarm s.unskipped fd := disarm_congr events hshadow.unskipped
    · change (d.conns c).channel.lastevents = DEFAULT_EVENT ∨
        (has (d.conns c).channel.lastevents EPOLLONESHOT = false ∧ d.interest fd = some (d.conns c).channel.lastevents)
      rw [hlast, hint]
      rcases hshadow.armed with hdefault | ⟨honce, harmed⟩
      · exact Or.inl hdefault
      · exact Or.inr ⟨honce, disarm_armed events honce harmed⟩
  · intro fd c hc
    cases hc

theorem handleEvents_inv (h : Inv s) (hloop : Descriptors.Inv d)
    (hd : s.toDescriptors.step .handleEvents = some d) : Inv (s.note d .handleEvents) := by
  change Inv (s.keep d)
  simp only [Descriptors.step] at hd
  split at hd
  · rename_i c active hpc
    obtain rfl := Option.some.inj hd
    have hentry := h.loop.active c (by rw [hpc]; exact List.mem_cons_self)
    have hself := Connections.set_conns_self s.toConnections c
      { s.conns c with channel := (s.conns c).channel.setEvents 0 }
    have hleft : Left s.toConnections (s.toConnections.setEvents c 0) c :=
      ⟨.set s.toConnections rfl, Or.inl ⟨congrArg (fun g => g.channel.lastevents) hself, rfl, rfl⟩⟩
    refine .keep hloop (h.left (h.loop.counted.live_of_http hentry) hleft rfl rfl rfl rfl rfl) ?_
    apply mask_nextPc
    intro _ _
    exact Or.inl (congrArg (fun g => g.channel.events) hself)
  · cases hd

/-! ### Callbacks -/

/-- a callback of `c` without updatePoller -/
theorem Inv.callback_keep {d : Descriptors} {cb : Callback} {cbs : List Callback} {active : List ConnId} (h : Inv s)
    (hpc : s.pc = .callbacks c (cb :: cbs) active) (hloop : Descriptors.Inv { d with pc := Connections.nextPc c cbs active })
    (hleft : Left s.toConnections d.toConnections c) (hmask : (d.conns c).connstate = .connected → (d.conns c).MaskOk) :
    Inv (s.keep { d with pc := Connections.nextPc c cbs active }) :=
  .keep hloop (h.left (h.live hpc) hleft rfl rfl rfl rfl rfl) (mask_nextPc hmask)

/-- connCallback_ with updatePoller -/
theorem Inv.callback_modified {d : Descriptors} {active : List ConnId} {ok : Bool} (h : Inv s)
    (hpc : s.pc = .callbacks c [.conn] active) (hloop : Descriptors.Inv { d with pc := Connections.nextPc c [] active })
    (hup : Updated s.toConnections d.toConnections c ok) :
    Inv (s.modified { d with pc := Connections.nextPc c [] active } c ok) := by
  have hc := h.live hpc
  have hfd : (d.conns c).fd = (s.conns c).fd := hup.touches.fd
  constructor
  · exact hloop
  · refine h.touched hup.touches rfl rfl rfl ?_ ?_ ?_
    · intro fd hne
      change (if _ then Function.update s.programmed (d.conns c).fd _ else s.programmed) fd = _
      rw [hfd]
      split_ifs
      · exact Function.update_of_ne hne _ _
      · rfl
    · intro fd hne
      change Function.update s.unskipped (d.conns c).fd _ fd = _
      rw [hfd, Function.update_of_ne hne]
    · intro b hb
      obtain ⟨rfl, harmed, hskipped, hissued⟩ := h.armed hc hup hb
      refine ⟨?_, ?_, ?_⟩
      · change (if (s.conns b).channel.lastevents ≠ (d.conns b).channel.events ∧ ok = true then
          Function.update s.programmed (d.conns b).fd (some (d.conns b).channel.events) else s.programmed)
            (s.conns b).fd = some (d.conns b).channel.lastevents
        rw [hup.last, hfd]
        split_ifs with hcall
        · exact Function.update_self _ _ _
        · apply hskipped
          by_contra hne
          exact hcall ⟨hne, hissued hne⟩
      · change d.interest (s.conns b).fd =
          Function.update s.unskipped (d.conns b).fd (some (d.conns b).channel.events) (s.conns b).fd
        rw [hfd, Function.update_self]; exact harmed
      · right
        change has (d.conns b).channel.lastevents EPOLLONESHOT = false ∧
          d.interest (s.conns b).fd = some (d.conns b).channel.lastevents
        rw [hup.last]
        exact ⟨hup.armed, harmed⟩
  · intro c' cbs active' hpc'
    cases hpc'
  · intro fd b hb hchan
    obtain rfl := Option.some.inj hb
    have hown := hloop.counted.http fd c (hloop.counted.chan fd c hchan)
    have hfd' : fd = (s.conns c).fd :=
      calc fd = (d.conns c).fd := hown.2.symm
        _ = (s.conns c).fd := hfd
    subst hfd'
    exact (h.armed hc hup hchan).2.1

theorem callback_inv {reads : List ReadResult} {writes : List WriteResult} {fs : FileSystem} {now : Timeval} {ok : Bool}
    (h : Inv s) (hloop : Descriptors.Inv d) (hd : s.toDescriptors.step (.callback reads writes fs now ok) = some d) :
    Inv (s.note d (.callback reads writes fs now ok)) := by
  simp only [Descriptors.step] at hd
  split at hd
  · rename_i c cb cbs active hpc
    obtain ⟨e, he, rfl⟩ := Option.map_eq_some_iff.1 hd
    have hmask := h.mask c (cb :: cbs) active hpc
    have hlast := h.loop.last c (cb :: cbs) active hpc
    unfold Descriptors.callback at he
    unfold note
    dsimp only
    cases cb with
    | read =>
      dsimp only at he
      split_ifs at he
      obtain rfl := Option.some.inj he
      set ctx := s.enter c ⟨reads, writes, fs, [], [], false⟩
      rw [hpc]
      refine h.callback_keep hpc hloop ?_ ?_
      · exact s.toDescriptors.member_leaves c ctx.handleRead_detaches.1 ctx.handleRead_steady.lastevents
      · rw [Descriptors.member_conns]; exact ctx.handleRead_maskOk hmask
    | write =>
      obtain rfl := Option.some.inj he
      set ctx := s.enter c ⟨reads, writes, fs, [], [], false⟩
      rw [hpc]
      refine h.callback_keep hpc hloop ?_ ?_
      · exact s.toDescriptors.member_leaves c ctx.handleWrite_frame.detaches.1 ctx.handleWrite_frame.steady.lastevents
      · rw [Descriptors.member_conns]; exact ctx.handleWrite_maskOk hmask
    | error =>
      obtain rfl := Option.some.inj he
      rw [hpc]
      exact h.callback_keep hpc hloop ⟨.refl _ _, Or.inl ⟨rfl, rfl, rfl⟩⟩ hmask
    | conn =>
      obtain rfl := Option.some.inj he
      -- connCallback_ is the last one
      have hcbs : cbs = [] := by
        cases cbs with
        | nil => rfl
        | cons cb' cbs => exact absurd List.mem_cons_self hlast
      subst hcbs
      rw [hpc]
      dsimp only
      split_ifs with hup
      · exact h.callback_modified hpc hloop (s.toDescriptors.handleConn_updates c hup (hmask hup.2) now ok)
      · have hleft := s.toDescriptors.handleConn_leaves c hup now ok
        exact .keep hloop (h.left (h.live hpc) hleft rfl rfl rfl rfl rfl) (mask_idle rfl)
  · cases hd

/-! ### Functors and timers -/

theorem newEvent_inv {now : Timeval} {ok : Bool} (h : Inv s) (hloop : Descriptors.Inv d)
    (hd : s.toDescriptors.step (.newEvent now ok) = some d) : Inv (s.note d (.newEvent now ok)) := by
  simp only [Descriptors.step] at hd
  split at hd
  · rename_i c fs hpc
    obtain rfl := Option.some.inj hd
    obtain ⟨htouches, hevents, hlast, hchan, hint⟩ := s.toDescriptors.newEvent_spec c now ok
    have hended := (s.newEvent c now ok).endFunctors_plain fs
    have hfd := htouches.fd
    set l := (s.newEvent c now ok).toConnections
    have hconns : ((s.newEvent c now ok).endFunctors fs).conns = l.conns := congrArg Connections.conns hended
    have hdchan : ((s.newEvent c now ok).endFunctors fs).fd2chan = l.fd2chan := congrArg Connections.fd2chan hended
    have hdint : ((s.newEvent c now ok).endFunctors fs).interest = l.interest := congrArg Connections.interest hended
    set d : Descriptors := { (s.newEvent c now ok).endFunctors fs with pc := .functors fs }
    change d.conns = l.conns at hconns
    change d.fd2chan = l.fd2chan at hdchan
    change d.interest = l.interest at hdint
    have hnote : s.note d (.newEvent now ok) = s.added d c ok := by
      unfold note
      rw [hpc]
    rw [hnote]
    unfold added
    dsimp only
    rw [hconns, hfd, hevents]
    cases ok with
    | false =>
      refine .keep hloop (h.touched htouches hconns hdchan hdint (fun _ _ => rfl) (fun _ _ => rfl) ?_)
        (mask_idle rfl)
      intro b hb
      rw [show (s.keep d).fd2chan = l.fd2chan from hdchan, hchan] at hb
      cases hb
    | true =>
      refine ⟨hloop, h.touched htouches hconns hdchan hdint ?_ ?_ ?_, mask_idle rfl, ?_⟩
      · exact fun fd hne => Function.update_of_ne hne _ _
      · exact fun fd hne => Function.update_of_ne hne _ _
      · intro b hb
        have hb : d.fd2chan (s.conns c).fd = some b := hb
        rw [hdchan, hchan] at hb
        obtain rfl := Option.some.inj hb
        have hbl : (d.conns c).channel.lastevents = DEFAULT_EVENT := by rw [hconns]; exact hlast
        refine ⟨?_, ?_, Or.inl hbl⟩
        · change Function.update s.programmed (s.conns c).fd (some DEFAULT_EVENT) (s.conns c).fd =
            some (d.conns c).channel.lastevents
          rw [hbl, Function.update_self]
        · change d.interest (s.conns c).fd = Function.update s.unskipped (s.conns c).fd (some DEFAULT_EVENT) (s.conns c).fd
          rw [hdint, hint rfl, Function.update_self]
      · intro fd b hb
        cases hb
  · cases hd

theorem handleExpired_inv {top : Option Timer} {now : Timeval} {ok : Bool} (h : Inv s) (hloop : Descriptors.Inv d)
    (hd : s.toDescriptors.step (.handleExpired top now ok) = some d) : Inv (s.note d (.handleExpired top now ok)) := by
  change Inv (s.keep d)
  simp only [Descriptors.step] at hd
  by_cases hpc : s.pc = .functors []
  · rw [if_pos hpc] at hd
    cases top with
    | none =>
      dsimp only at hd
      split_ifs at hd
      obtain rfl := Option.some.inj hd
      exact .keep hloop (h.same (fun _ _ => rfl) rfl rfl rfl rfl) (mask_idle rfl)
    | some timer =>
      dsimp only at hd
      split_ifs at hd with htop hdone
      · obtain rfl := Option.some.inj hd
        have hpop := (h.loop.counted.pop htop.1 ok).2.2
        refine .keep hloop ?_ (mask_idle (by rw [hpop, hpc]; rfl))
        unfold Descriptors.pop at hloop ⊢
        dsimp only at hloop ⊢
        cases hdata : timer.httpdata with
        | none => exact h.same (fun _ _ => rfl) rfl rfl rfl rfl
        | some c =>
          have hlive := h.loop.counted.live_of_reference
            (Descriptors.mem_references.2 (Or.inr (Or.inl ⟨timer, htop.1, hdata⟩)))
          obtain ⟨htouches, hgone⟩ := Descriptors.handleClose_spec { s.toDescriptors with heap := s.heap.erase timer } c ok
          have hleft : Left s.toConnections
              ({ s.toDescriptors with heap := s.heap.erase timer }.handleClose c ok).toConnections c :=
            ⟨⟨htouches.conns, htouches.fd, htouches.chan, htouches.interest⟩, Or.inr hgone⟩
          have hreleased := Descriptors.release_toConnections
            ({ s.toDescriptors with heap := s.heap.erase timer }.handleClose c ok) c
          exact h.left hlive hleft (congrArg Connections.conns hreleased) (congrArg Connections.fd2chan hreleased)
            (congrArg Connections.interest hreleased) rfl rfl
      · obtain rfl := Option.some.inj hd
        exact .keep hloop (h.same (fun _ _ => rfl) rfl rfl rfl rfl) (mask_idle rfl)
  · rw [if_neg hpc] at hd
    cases hd

/-! ## Runs -/

theorem step_inv {o : Descriptors.Op} (h : Inv s) (hst : s.step o = some t) : Inv t := by
  obtain ⟨d, hd, rfl⟩ := Option.map_eq_some_iff.1 hst
  have hloop := Descriptors.step_inv h.loop hd
  cases o with
  | accept => exact accept_inv h hloop hd
  | endAccept => exact endAccept_inv h hloop hd
  | poll => exact poll_inv h hloop hd
  | handleEvents => exact handleEvents_inv h hloop hd
  | callback => exact callback_inv h hloop hd
  | doPendingFunctors => exact doPendingFunctors_inv h hloop hd
  | newEvent => exact newEvent_inv h hloop hd
  | handleExpired => exact handleExpired_inv h hloop hd

theorem run_inv {ops : List Descriptors.Op} (hrun : Machine.run step init ops = some s) : Inv s :=
  Machine.run_inv (fun _ _ _ h hst => step_inv h hst) inv_init hrun

/-- **Leaving out an unchanged epoll_mod is safe.** In every run, for every connection that is in fd2chan_: lastevents_ is
the last mask given to epoll_ctl with success, the kernel's entry is what it would be if no call had been left out, and
when updatePoller has returned it is the mask of the channel. -/
theorem skipped_mod_safe {ops : List Descriptors.Op} (hrun : Machine.run step init ops = some s) (fd : ℕ) (c : ConnId)
    (hc : s.fd2chan fd = some c) :
    s.programmed fd = some (s.conns c).channel.lastevents ∧ s.interest fd = s.unskipped fd ∧
      (s.updated = some c → s.interest fd = some (s.conns c).channel.events) := by
  have h := run_inv hrun
  have hshadow := h.shadow fd c hc
  exact ⟨hshadow.programmed, hshadow.unskipped, fun hup => h.updated fd c hup hc⟩

/-- a connection that is reported twice with nothing to read; the second updatePoller has nothing to call -/
def readsNothing : List Descriptors.Op :=
  [.accept 5, .endAccept, .poll [], .doPendingFunctors, .newEvent ⟨0, 0⟩ true,
    .handleExpired (some (.new 0 0 2000 ⟨0, 0⟩)) ⟨0, 0⟩ true, .poll [(5, EPOLLIN)], .handleEvents,
    .callback [] [] Descriptors.noFiles ⟨0, 0⟩ true, .callback [] [] Descriptors.noFiles ⟨0, 0⟩ true,
    .doPendingFunctors, .handleExpired (some (Timer.new 0 0 2000 ⟨0, 0⟩).reset) ⟨0, 0⟩ true,
    .handleExpired (some (.new 1 0 150000 ⟨0, 0⟩)) ⟨0, 0⟩ true, .poll [(5, EPOLLIN)], .handleEvents,
    .callback [] [] Descriptors.noFiles ⟨0, 0⟩ true, .callback [] [] Descriptors.noFiles ⟨0, 0⟩ false]

theorem skipped_mod_safe_twice :
    ∃ s, Machine.run step init readsNothing = some s ∧ (s.fd2chan 5 = some 0 ∧ s.updated = some 0) ∧
      s.programmed 5 = some (s.conns 0).channel.lastevents ∧ s.interest 5 = s.unskipped 5 ∧
      (s.updated = some 0 → s.interest 5 = some (s.conns 0).channel.events) := by
  have hend : (Machine.run step init readsNothing).map (fun s => (s.fd2chan 5, s.updated)) = some (some 0, some 0) := by
    decide +kernel
  obtain ⟨s, hrun, hfields⟩ := Option.map_eq_some_iff.1 hend
  simp only [Prod.mk.injEq] at hfields
  exact ⟨s, hrun, hfields, skipped_mod_safe hrun 5 0 hfields.1⟩

end Shadowed

end Glacier
