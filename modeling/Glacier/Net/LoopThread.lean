/-
What the steps of a loop's own thread leave alone. They make no connection and do not touch req_info of handleNewConn, and
the kernel takes descriptors back from them but gives none: `step_inside`. `step_accept` and `step_endAccept` say what the
thread that accepts does. `Inv.count` adds up the connections of a loop.
-/
import Glacier.Net.DescriptorReuse

namespace Glacier

open Cxx

theorem Orderly.init {trace : List Act} {a : Act} (h : Orderly (trace ++ [a])) : Orderly trace := by
  intro past b rest heq
  exact h past b (rest ++ [a]) (by rw [heq, List.append_assoc, List.cons_append])

/-- no object closes its descriptor twice -/
theorem Orderly.closed_nodup {trace : List Act} (h : Orderly trace) : (closed trace).Nodup := by
  induction trace using List.reverseRecOn with
  | nil => exact List.nodup_nil
  | append_singleton trace a ih =>
    have hrest := ih h.init
    have ha := h trace a [] rfl
    rw [closed_append]
    cases a with
    | runs | del => simpa [closed] using hrest
    | close c fd t =>
      have hnot : c ∉ closed trace := ha.1
      refine List.nodup_append'.2 ⟨hrest, by simp [closed], ?_⟩
      intro b hb hb'
      have : b = c := by simpa [closed] using hb'
      exact hnot (this ▸ hb)

namespace Descriptors

/-- no connection is made, req_info stays, and descriptors are given back at most -/
structure Inside (d d' : Descriptors) : Prop where
  nextConn : d'.nextConn = d.nextConn
  reqInfo : d'.reqInfo = d.reqInfo
  owner : ∀ fd c, d'.owner fd = some c → d.owner fd = some c

variable {d d' : Descriptors} {c : ConnId}

theorem Inside.refl (d : Descriptors) : Inside d d := ⟨rfl, rfl, fun _ _ h => h⟩

theorem Inside.trans {d'' : Descriptors} (h1 : Inside d d') (h2 : Inside d' d'') : Inside d d'' :=
  ⟨h2.nextConn.trans h1.nextConn, h2.reqInfo.trans h1.reqInfo, fun fd c h => h1.owner fd c (h2.owner fd c h)⟩

/-- the other fields -/
theorem Inside.of_eq (hnext : d'.nextConn = d.nextConn) (hreq : d'.reqInfo = d.reqInfo) (howner : d'.owner = d.owner) :
    Inside d d' :=
  ⟨hnext, hreq, fun fd c h => by rwa [howner] at h⟩

theorem Inside.release (h : Inside d d') (c : ConnId) : Inside d (d'.release c) := by
  refine h.trans ?_
  unfold Descriptors.release destroy
  dsimp only
  split_ifs
  · refine ⟨rfl, rfl, ?_⟩
    intro fd b hb
    dsimp only [log] at hb
    by_cases hfd : fd = (d'.conns c).fd
    · rw [hfd, Function.update_self] at hb; cases hb
    · rwa [Function.update_of_ne hfd] at hb
  · exact .of_eq rfl rfl rfl

theorem Inside.releaseAll (h : Inside d d') (cs : List ConnId) : Inside d (d'.releaseAll cs) := by
  induction cs generalizing d' with
  | nil => exact h
  | cons c cs ih => exact ih (h.release c)

theorem Inside.setHttp (h : Inside d d') (fd : ℕ) (p : Option ConnId) : Inside d (d'.setHttp fd p) := by
  unfold Descriptors.setHttp
  apply Inside.releaseAll
  cases p with
  | none => exact h.trans (.of_eq rfl rfl rfl)
  | some c => exact h.trans (.of_eq rfl rfl rfl)

theorem Inside.setHeap (h : Inside d d') (heap : List Timer) : Inside d (d'.setHeap heap) := by
  unfold Descriptors.setHeap
  apply Inside.releaseAll
  exact h.trans (.of_eq rfl rfl rfl)

theorem Inside.addTimer (h : Inside d d') (c : ConnId) (timeout : ℕ) (now : Timeval) :
    Inside d (d'.addTimer c timeout now) := by
  unfold Descriptors.addTimer
  cases d'.getHolder c with
  | none => exact h
  | some b => exact h.trans (.of_eq rfl rfl rfl)

theorem Inside.epollAdd (h : Inside d d') (c : ConnId) (timeout : ℕ) (now : Timeval) (ok : Bool) :
    Inside d (d'.epollAdd c timeout now ok) := by
  have htimed := (h.addTimer c timeout now).setHttp (d'.conns c).fd ((d'.addTimer c timeout now).getHolder c)
  unfold Descriptors.epollAdd
  by_cases ht : timeout > 0
  · simp only [if_pos ht]
    exact htimed.trans (.of_eq rfl rfl rfl)
  · simp only [if_neg ht]
    exact h.trans (.of_eq rfl rfl rfl)

theorem Inside.epollMod (h : Inside d d') (c : ConnId) (timeout : ℕ) (now : Timeval) (ok : Bool) :
    Inside d (d'.epollMod c timeout now ok) := by
  have htimed : Inside d (if timeout > 0 then d'.addTimer c timeout now else d') := by
    split_ifs
    · exact h.addTimer c timeout now
    · exact h
  unfold Descriptors.epollMod
  dsimp only
  generalize (if timeout > 0 then d'.addTimer c timeout now else d') = e at htimed
  split_ifs <;> exact htimed.trans (.of_eq rfl rfl rfl)

theorem Inside.epollDel (h : Inside d d') (c : ConnId) (ok : Bool) : Inside d (d'.epollDel c ok) := by
  -- before fd2http_ is cleared
  obtain ⟨e, he, heq⟩ : ∃ e, Inside d' e ∧ d'.epollDel c ok =
      (e.setHttp (d'.conns c).fd none).log (.del c d'.tables (e.setHttp (d'.conns c).fd none).tables) := by
    cases ok with
    | false => exact ⟨{ d' with fd2chan := Function.update d'.fd2chan (d'.conns c).fd none }, .of_eq rfl rfl rfl, rfl⟩
    | true =>
      exact ⟨{ d' with
        interest := Function.update d'.interest (d'.conns c).fd none
        fd2chan := Function.update d'.fd2chan (d'.conns c).fd none }, .of_eq rfl rfl rfl, rfl⟩
  rw [heq]
  exact ((h.trans he).setHttp _ none).trans (.of_eq rfl rfl rfl)

theorem Inside.setEvents (h : Inside d d') (c : ConnId) (ev : Events) : Inside d (d'.setEvents c ev) :=
  h.trans (.of_eq rfl rfl rfl)

theorem Inside.newEvent (h : Inside d d') (c : ConnId) (now : Timeval) (ok : Bool) : Inside d (d'.newEvent c now ok) := by
  unfold Descriptors.newEvent
  apply Inside.epollAdd
  apply Inside.setEvents
  exact h.trans (.of_eq rfl rfl rfl)

theorem Inside.handleClose (h : Inside d d') (c : ConnId) (ok : Bool) : Inside d (d'.handleClose c ok) := by
  unfold Descriptors.handleClose
  apply Inside.release
  apply Inside.epollDel
  exact h.trans (.of_eq rfl rfl rfl)

theorem Inside.rearm (h : Inside d d') (c : ConnId) (now : Timeval) (ok : Bool) : Inside d (d'.rearm c now ok) := by
  unfold Descriptors.rearm
  dsimp only
  split_ifs
  all_goals first
    | exact (h.setEvents c _).epollMod c _ now ok
    | exact h.setEvents c _
    | skip
  all_goals
    apply Inside.release
    apply Inside.handleClose
    exact h.trans (.of_eq rfl rfl rfl)

theorem Inside.handleConn (h : Inside d d') (c : ConnId) (now : Timeval) (ok : Bool) :
    Inside d (d'.handleConn c now ok) := by
  have hsep : Inside d ((d'.log (.runs c)).seperateTimer c) := by
    unfold seperateTimer
    apply Inside.setHeap
    exact h.trans (.of_eq rfl rfl rfl)
  unfold Descriptors.handleConn
  apply Inside.rearm
  exact hsep.trans (.of_eq rfl rfl rfl)

theorem Inside.member (h : Inside d d') (c : ConnId) (ctx : Ctx) : Inside d (d'.member c ctx) := by
  have hset : Inside d (((d'.log (.runs c)).setConn c ctx.http).setHeap ctx.timers) := by
    apply Inside.setHeap
    exact h.trans (.of_eq rfl rfl rfl)
  exact hset.trans (.of_eq rfl rfl rfl)

theorem callback_inside {cb : Callback} {io : Io} {now : Timeval} {ok : Bool}
    (h : d.callback c cb io now ok = some d') : Inside d d' := by
  unfold callback at h
  cases cb with
  | read =>
    dsimp only at h
    split_ifs at h
    cases h
    exact (Inside.refl d).member c _
  | write => cases h; exact (Inside.refl d).member c _
  | error => cases h; exact .refl d
  | conn => cases h; exact (Inside.refl d).handleConn c now ok

theorem Inside.pop (h : Inside d d') (t : Timer) (ok : Bool) : Inside d (d'.pop t ok) := by
  unfold Descriptors.pop
  dsimp only
  cases t.httpdata with
  | none => exact h.trans (.of_eq rfl rfl rfl)
  | some c =>
    apply Inside.release
    apply Inside.handleClose
    exact h.trans (.of_eq rfl rfl rfl)

theorem Inside.endFunctors (h : Inside d d') (fs : List ConnId) : Inside d (d'.endFunctors fs) := by
  unfold Descriptors.endFunctors
  split_ifs
  · apply Inside.releaseAll
    exact h.trans (.of_eq rfl rfl rfl)
  · exact h

/-- a step of the loop's own thread -/
def Op.inThread : Op → Bool
  | .accept _ | .endAccept => false
  | _ => true

/-- **The loop's own thread.** -/
theorem step_inside {o : Op} (ho : o.inThread = true) (hstep : d.step o = some d') : Inside d d' := by
  cases o with
  | accept | endAccept => cases ho
  | poll events =>
    simp only [step] at hstep
    split_ifs at hstep
    cases hstep
    obtain ⟨-, -, -, -, hnext, -⟩ := report_fold events d.toConnections
    exact .of_eq hnext rfl rfl
  | handleEvents =>
    simp only [step] at hstep
    split at hstep
    · cases hstep; exact .of_eq rfl rfl rfl
    · cases hstep
  | callback reads writes fs now ok =>
    simp only [step] at hstep
    split at hstep
    · obtain ⟨e, he, hstep⟩ := Option.map_eq_some_iff.1 hstep
      cases hstep
      exact (callback_inside he).trans (.of_eq rfl rfl rfl)
    · cases hstep
  | doPendingFunctors =>
    simp only [step] at hstep
    split_ifs at hstep
    cases hstep
    exact .of_eq rfl rfl rfl
  | newEvent now ok =>
    simp only [step] at hstep
    split at hstep
    · cases hstep
      exact (((Inside.refl d).newEvent _ now ok).endFunctors _).trans (.of_eq rfl rfl rfl)
    · cases hstep
  | handleExpired top now ok =>
    simp only [step] at hstep
    by_cases hpc : d.pc = .functors []
    · rw [if_pos hpc] at hstep
      cases top with
      | none =>
        dsimp only at hstep
        split_ifs at hstep
        cases hstep
        exact .of_eq rfl rfl rfl
      | some t =>
        dsimp only at hstep
        split_ifs at hstep
        · cases hstep; exact (Inside.refl d).pop t ok
        · cases hstep; exact .of_eq rfl rfl rfl
    · rw [if_neg hpc] at hstep
      cases hstep

theorem step_accept {fd : ℕ} (hstep : d.step (.accept fd) = some d') :
    fd < MAXFDS ∧ d'.nextConn = d.nextConn + 1 ∧ d'.reqInfo = some d.nextConn ∧
      d'.owner = Function.update d.owner fd (some d.nextConn) := by
  simp only [step] at hstep
  split_ifs at hstep with hg
  cases hstep
  exact ⟨hg.2.1, rfl, rfl, rfl⟩

theorem step_endAccept (hstep : d.step .endAccept = some d') :
    d'.nextConn = d.nextConn ∧ d'.reqInfo = none ∧ ∀ fd c, d'.owner fd = some c → d.owner fd = some c := by
  simp only [step] at hstep
  obtain ⟨c, -, hstep⟩ := Option.map_eq_some_iff.1 hstep
  cases hstep
  have h := (Inside.refl { d with reqInfo := none }).release c
  exact ⟨h.nextConn, h.reqInfo, h.owner⟩

/-! ## The connections of a loop -/

/-- each connection that was made owns its descriptor or has closed it -/
theorem Inv.count (h : Inv d) :
    ((Finset.range MAXFDS).filter fun fd => d.owner fd ≠ none).card + (closed d.trace).length = d.nextConn := by
  have hc := h.counted
  -- the owned descriptors are those of the connections that live
  have hopen : ((Finset.range MAXFDS).filter fun fd => d.owner fd ≠ none) =
      ((Finset.range d.nextConn).filter fun c => 0 < d.refs c).image fun c => (d.conns c).fd := by
    ext fd
    simp only [Finset.mem_filter, Finset.mem_image, Finset.mem_range]
    constructor
    · intro ⟨_, hfd⟩
      obtain ⟨c, hown⟩ := Option.ne_none_iff_exists'.1 hfd
      obtain ⟨hlive, hfd⟩ := (hc.owner fd c).1 hown
      exact ⟨c, ⟨(hc.bound c hlive).1, hlive⟩, hfd⟩
    · intro ⟨c, ⟨_, hlive⟩, hfd⟩
      refine ⟨hfd ▸ (hc.bound c hlive).2, ?_⟩
      exact Option.ne_none_iff_exists'.2 ⟨c, (hc.owner fd c).2 ⟨hlive, hfd⟩⟩
  have hinj : Set.InjOn (fun c => (d.conns c).fd) ((Finset.range d.nextConn).filter fun c => 0 < d.refs c) := by
    intro c hmem c' hmem' hfd
    exact hc.eq_of_fd (Finset.mem_filter.1 hmem).2 (Finset.mem_filter.1 hmem').2 hfd
  have hclosed : (closed d.trace).toFinset = (Finset.range d.nextConn).filter fun c => ¬ 0 < d.refs c := by
    ext c
    rw [List.mem_toFinset, hc.closed, Finset.mem_filter, Finset.mem_range, Nat.not_lt, Nat.le_zero]
  calc ((Finset.range MAXFDS).filter fun fd => d.owner fd ≠ none).card + (closed d.trace).length
      = ((Finset.range d.nextConn).filter fun c => 0 < d.refs c).card
          + ((Finset.range d.nextConn).filter fun c => ¬ 0 < d.refs c).card := by
        rw [hopen, Finset.card_image_of_injOn hinj, ← hclosed, List.toFinset_card_of_nodup hc.orderly.closed_nodup]
    _ = (Finset.range d.nextConn).card := Finset.card_filter_add_card_filter_not _
    _ = d.nextConn := Finset.card_range _

end Descriptors

end Glacier
