/-
How long a connection stays without being handled: the timers of one loop over whole runs.

Each handling of a connection, by newEvent or handleConn, detaches its timer and sets a new one; handleExpiredEvent closes
the connections whose timers are due at its clock reading, at the end of each iteration. `lastHandled` is history: when a
connection was last handled, and the timeout that it got.
- `step_timers`: the timers that hold connections after a step were there before, or are of the connection that it handles;
- `idle_closed`: what is closed for its timer has been idle for its timeout, and at the end of an iteration what has been
  idle for so long is gone.
-/
import Glacier.Http.ReusedConnection
import Glacier.Net.NoLeak
import Glacier.Net.TimerManager

namespace Glacier

namespace Connections

/-! ## The timers after a step -/

/-- the handling of a connection: the clock reading, and the timeout from then on; none if no timer is set -/
structure Visit where
  now : Timeval
  timeout : Option ℕ

/-- the connection that the step handles to the end -/
def handledAt (l : Connections) : Op → Option (ConnId × Visit)
  | .newEvent now =>
    match l.pc with
    | .functors (c :: _) => some (c, ⟨now, some DEFAULT_EXPIRED_TIME⟩)
    | _ => none
  | .callback _ _ _ now =>
    match l.pc with
    | .callbacks c (.conn :: _) _ => some (c, ⟨now, (l.conns c).connTimeout⟩)
    | _ => none
  | _ => none

theorem report_heap (l : Connections) (e : ℕ × Events) : (l.report e).heap = l.heap := by
  unfold report
  dsimp only
  split <;> rfl

theorem reports_heap (events : List (ℕ × Events)) (l : Connections) : (events.foldl report l).heap = l.heap := by
  induction events generalizing l with
  | nil => rfl
  | cons e events ih => rw [List.foldl_cons, ih, report_heap]

theorem connTimeout_pos {h : HttpData} {timeout : ℕ} (ht : h.connTimeout = some timeout) : 0 < timeout := by
  unfold HttpData.connTimeout at ht
  split_ifs at ht <;> cases ht <;> decide

/-- handleConn sets a timer for connTimeout, or none -/
theorem rearm_heap (l : Connections) (c : ConnId) (now : Timeval) :
    match (l.conns c).connTimeout with
    | some timeout => (l.rearm c now).heap = .new l.nextTimer c timeout now :: l.heap
    | none => (l.rearm c now).heap = l.heap := by
  have hrearm := rearm_connTimeout l c now
  cases htimeout : (l.conns c).connTimeout with
  | some timeout =>
    rw [htimeout] at hrearm
    obtain ⟨ev, hmod⟩ := hrearm
    rw [hmod, epollMod_eq l c ev (connTimeout_pos htimeout) now]
  | none =>
    rw [htimeout] at hrearm
    rcases hrearm with ⟨ev, hmask⟩ | hclose
    · rw [hmask]; rfl
    · rw [hclose]; rfl

theorem pop_heap {l : Connections} {t u : Timer} (h : u ∈ (l.pop t).heap) : u ∈ l.heap := by
  unfold pop at h
  dsimp only at h
  split at h
  · exact List.mem_of_mem_erase h
  · exact List.mem_of_mem_erase h

/-- a turn of handleExpiredEvent pops a timer that is due or deleted, or finds none on the top and ends the iteration -/
theorem handleExpired_cases {l l' : Connections} {top : Option Timer} {now : Timeval}
    (hstep : l.step (.handleExpired top now) = some l') :
    (∃ t ∈ l.heap, l.pc = .functors [] ∧ (t.deleted = true ∨ t.expiredtime ≤ now.reading) ∧ l' = l.pop t) ∨
      (∀ t ∈ l.heap, now.reading < t.expiredtime) ∧ l' = { l with pc := .poll } := by
  by_cases hpc : l.pc = .functors []
  · cases top with
    | none =>
      simp only [step, if_pos hpc] at hstep
      split_ifs at hstep with hempty
      cases hstep
      refine Or.inr ⟨?_, rfl⟩
      rw [hempty]
      simp
    | some t =>
      simp only [step, if_pos hpc] at hstep
      split_ifs at hstep with htop hdue
      · cases hstep
        exact Or.inl ⟨t, htop.1, hpc, hdue.imp_right TimerManager.isValid_false_iff.1, rfl⟩
      · cases hstep
        refine Or.inr ⟨fun u hu => ?_, rfl⟩
        have hvalid : now.reading < t.expiredtime := not_le.1 fun hle => hdue (Or.inr (TimerManager.isValid_false_iff.2 hle))
        exact hvalid.trans_le (htop.2 u hu)
  · simp [step, hpc] at hstep

/-- where a timer that holds `c` after a step comes from -/
inductive TimerFrom (l : Connections) (o : Op) (t : Timer) (c : ConnId) : Prop where
  | kept (hmem : t ∈ l.heap) (hother : ∀ v, l.handledAt o ≠ some (c, v))
  | set (now : Timeval) (timeout : ℕ) (hhandled : l.handledAt o = some (c, ⟨now, some timeout⟩))
    (hexpired : t.expiredtime = now.reading + timeout)

/-- a callback that reads or writes detaches timers at most -/
theorem watched_timers {x y : Ctx} (h : Ctx.Watched x y) {t : Timer} (ht : t ∈ y.timers) {c : ConnId}
    (hc : t.httpdata = some c) : t ∈ x.timers := by
  rcases h.timer with ⟨hsame, -⟩ | ⟨hreset, -⟩
  · exact hsame ▸ ht
  · rcases mem_resetTimer (hreset ▸ ht) with hold | hfree
    · exact hold
    · rw [hc] at hfree
      cases hfree

theorem callback_timers {l l' : Connections} {reads : List ReadResult} {writes : List WriteResult} {fs : FileSystem}
    {now : Timeval} (h : Inv l) (hstep : l.step (.callback reads writes fs now) = some l') {t : Timer} (ht : t ∈ l'.heap)
    {c : ConnId} (hc : t.httpdata = some c) : TimerFrom l (.callback reads writes fs now) t c := by
  cases hpc : l.pc with
  | poll | dispatch | functors => simp [step, hpc] at hstep
  | callbacks c' cbs active =>
    cases h.handling c' cbs active hpc with
    | error hsettled =>
      simp only [step, hpc, callback, Option.map_some, Option.some.injEq] at hstep
      subst hstep
      exact .kept ht fun r hr => by simp [handledAt, hpc] at hr
    | @before pre hpre hconn htimer hmask hasks =>
      cases pre with
      | nil =>
        simp only [step, hpc, List.nil_append, callback, Option.map_some, Option.some.injEq] at hstep
        subst hstep
        have hhandled : l.handledAt (.callback reads writes fs now) = some (c', ⟨now, (l.conns c').connTimeout⟩) := by
          simp [handledAt, hpc]
        -- no timer holds the connection after seperateTimer, and the others hold what they held
        have hrest : ∀ u ∈ (l.seperateTimer c').heap, ∀ d, u.httpdata = some d → d ≠ c' ∧ u ∈ l.heap := by
          intro u hu d hd
          obtain ⟨hnone, -⟩ := htimer.holders_resetTimer h.heapOk
          refine ⟨?_, ?_⟩
          · rintro rfl
            have hmem : u ∈ holders (resetTimer l.heap (l.conns d).timer) d := mem_holders.2 ⟨hu, hd⟩
            rw [hnone] at hmem
            exact List.not_mem_nil hmem
          · rcases mem_resetTimer hu with hold | hfree
            · exact hold
            · rw [hd] at hfree
              cases hfree
        have hkept (hmem : t ∈ (l.seperateTimer c').heap) : TimerFrom l (.callback reads writes fs now) t c := by
          obtain ⟨hne, hold⟩ := hrest t hmem c hc
          refine .kept hold fun r hr => ?_
          rw [hhandled] at hr
          cases hr
          exact hne rfl
        have hheap := rearm_heap (l.seperateTimer c') c' now
        have hsame : ((l.seperateTimer c').conns c').connTimeout = (l.conns c').connTimeout := by
          simp [seperateTimer, HttpData.connTimeout, set]
        rw [hsame] at hheap
        cases htimeout : (l.conns c').connTimeout with
        | none =>
          rw [htimeout] at hheap
          exact hkept (hheap ▸ ht)
        | some timeout =>
          rw [htimeout] at hheap hhandled
          rcases List.mem_cons.1 (hheap ▸ ht) with rfl | hold
          · cases hc
            exact .set now timeout hhandled rfl
          · exact hkept hold
      | cons cb pre =>
        have hhandled : ∀ r, l.handledAt (.callback reads writes fs now) ≠ some (c, r) := by
          intro r hr
          obtain ⟨hcb, -⟩ := List.forall_mem_cons.1 hpre
          rcases hcb with rfl | rfl
          · simp [handledAt, hpc] at hr
          · simp [handledAt, hpc] at hr
        obtain ⟨hcb, -⟩ := List.forall_mem_cons.1 hpre
        rcases hcb with rfl | rfl
        · obtain ⟨hw, -⟩ := (l.enter c' ⟨reads, writes, fs, [], [], false⟩).handleRead_interest hconn
          simp only [step, hpc, List.cons_append, callback] at hstep
          split_ifs at hstep
          · cases hstep
          · simp only [Option.map_some, Option.some.injEq] at hstep
            subst hstep
            exact .kept (watched_timers hw ht hc) hhandled
        · obtain ⟨hw, -⟩ := (l.enter c' ⟨reads, writes, fs, [], [], false⟩).handleWrite_interest hconn
          simp only [step, hpc, List.cons_append, callback, Option.map_some, Option.some.injEq] at hstep
          subst hstep
          exact .kept (watched_timers hw ht hc) hhandled

theorem step_timers {l l' : Connections} {o : Op} (h : Inv l) (hstep : l.step o = some l') {t : Timer}
    (ht : t ∈ l'.heap) {c : ConnId} (hc : t.httpdata = some c) : TimerFrom l o t c := by
  cases o with
  | accept fd =>
    simp only [step] at hstep
    split_ifs at hstep
    cases hstep
    exact .kept ht fun now => by simp [handledAt]
  | poll events =>
    simp only [step] at hstep
    split_ifs at hstep
    cases hstep
    exact .kept (by rwa [← reports_heap events l]) fun now => by simp [handledAt]
  | handleEvents =>
    simp only [step] at hstep
    split at hstep
    · cases hstep
      exact .kept ht fun now => by simp [handledAt]
    · cases hstep
  | callback reads writes fs now => exact callback_timers h hstep ht hc
  | doPendingFunctors =>
    simp only [step] at hstep
    split_ifs at hstep
    cases hstep
    exact .kept ht fun now => by simp [handledAt]
  | newEvent now =>
    simp only [step] at hstep
    split at hstep
    · rename_i c' fs hpc
      cases hstep
      rw [newEvent_eq] at ht
      rcases List.mem_cons.1 ht with rfl | hold
      · cases hc
        exact .set now DEFAULT_EXPIRED_TIME (by simp [handledAt, hpc]) rfl
      · refine .kept hold fun r hr => ?_
        -- what waits for its newEvent has no timer
        rw [handledAt, hpc] at hr
        cases hr
        have hqueued : c ∈ l.queued := by simp [queued, LoopPc.running, hpc]
        have hnone := (h.queue c hqueued).2.2
        rw [h.held t hold c hc] at hnone
        cases hnone
    · cases hstep
  | handleExpired top now =>
    refine .kept ?_ fun r => by simp [handledAt]
    rcases handleExpired_cases hstep with ⟨u, -, -, -, hpop⟩ | ⟨-, hend⟩
    · rw [hpop] at ht
      exact pop_heap ht
    · rw [hend] at ht
      exact ht

/-! ## Runs -/

/-- a loop, and when each connection was last handled -/
structure Timed where
  loop : Connections
  lastHandled : ConnId → Option Visit

namespace Timed

def note (g : ConnId → Option Visit) : Option (ConnId × Visit) → ConnId → Option Visit
  | none => g
  | some (c, v) => Function.update g c (some v)

def step (s : Timed) (o : Op) : Option Timed :=
  (s.loop.step o).map fun l => ⟨l, note s.lastHandled (s.loop.handledAt o)⟩

def init : Timed := ⟨Connections.init, fun _ => none⟩

abbrev Regular (s : Timed) (o : Op) : Prop := s.loop.Regular o

/-- `c` was last handled at `r`, and got the timeout `τ` -/
def Since (s : Timed) (c : ConnId) (r : Timeval) (τ : ℕ) : Prop := s.lastHandled c = some ⟨r, some τ⟩

structure Inv (s : Timed) : Prop where
  loop : s.loop.Inv
  timers : ∀ t ∈ s.loop.heap, ∀ c, t.httpdata = some c → ∃ r τ, s.Since c r τ ∧ t.expiredtime = r.reading + τ

theorem step_eq {s s' : Timed} {o : Op} :
    s.step o = some s' ↔ s.loop.step o = some s'.loop ∧ s'.lastHandled = note s.lastHandled (s.loop.handledAt o) := by
  obtain ⟨l, g⟩ := s'
  simp [step, eq_comm]

theorem step_inv (s : Timed) (o : Op) (s' : Timed) (h : Inv s) (hok : Regular s o) (hstep : s.step o = some s') :
    Inv s' := by
  obtain ⟨hloop, hnote⟩ := step_eq.1 hstep
  refine ⟨Connections.step_inv h.loop hok hloop, fun t ht c hc => ?_⟩
  cases step_timers h.loop hloop ht hc with
  | kept hmem hother =>
    obtain ⟨r, τ, hlast, hexpired⟩ := h.timers t hmem c hc
    refine ⟨r, τ, ?_, hexpired⟩
    rw [Since, hnote, ← hlast]
    match hhandled : s.loop.handledAt o with
    | none => rfl
    | some (c', other) =>
      have hne : c ≠ c' := by
        rintro rfl
        exact hother other hhandled
      exact Function.update_of_ne hne _ _
  | set now timeout hhandled hexpired =>
    refine ⟨now, timeout, ?_, hexpired⟩
    rw [Since, hnote, hhandled]
    exact Function.update_self _ _ _

theorem init_inv : Inv init := ⟨Connections.init_inv, fun _ ht => absurd ht List.not_mem_nil⟩

/-- what a turn of handleExpiredEvent takes out of the table -/
theorem closed_of_pop {l : Connections} {t : Timer} {fd : ℕ} {c : ConnId} (h : l.fd2http fd = some c)
    (hgone : (l.pop t).fd2http fd ≠ some c) : ∃ d, t.httpdata = some d ∧ (l.conns d).fd = fd := by
  unfold pop at hgone
  dsimp only at hgone
  split at hgone
  · exact absurd h hgone
  · rename_i d hd
    refine ⟨d, hd, ?_⟩
    by_contra hne
    apply hgone
    have hother : (({ l with heap := l.heap.erase t } : Connections).handleClose d).fd2http fd = l.fd2http fd := by
      simp [handleClose, epollDel, set, Function.update_of_ne (Ne.symm hne)]
    rw [hother, h]

/-- **Idle connections are closed, and no others.** In every run of a loop that keeps away from the two branches of `regular`
(on one of them a connection is left without a timer): a connection that handleExpiredEvent closes was last handled at least
its timeout before the clock reading, and at the end of an iteration every connection that is not closed was last handled
less than its timeout before; the timeout is the one of its last handling. -/
theorem idle_closed (ops : List Op) (s : Timed) (hok : Machine.Meets step Regular init ops)
    (hrun : Machine.run step init ops = some s) (top : Option Timer) (now : Timeval) (s' : Timed)
    (hstep : s.step (.handleExpired top now) = some s') :
    (∀ fd c, s.loop.fd2http fd = some c → s'.loop.fd2http fd ≠ some c →
      ∃ r τ, s.Since c r τ ∧ r.reading + τ ≤ now.reading) ∧
    (s'.loop.pc = .poll → ∀ fd c, s'.loop.fd2http fd = some c →
      ∃ r τ, s'.Since c r τ ∧ now.reading < r.reading + τ) := by
  have hinv : Inv s := Machine.run_inv_of_meets step_inv init_inv hok hrun
  have hinv' : Inv s' := step_inv s _ s' hinv rfl hstep
  obtain ⟨hloop, -⟩ := step_eq.1 hstep
  rcases handleExpired_cases hloop with ⟨t, ht, hpc, hdue, hpop⟩ | ⟨hlive, hend⟩
  · refine ⟨?_, ?_⟩
    · intro fd c hc hgone
      rw [hpop] at hgone
      obtain ⟨d, hd, hfd⟩ := closed_of_pop hc hgone
      have hdc : d = c := by
        have hheld := hinv.loop.held t ht d hd
        rw [hfd, hc] at hheld
        exact (Option.some.inj hheld).symm
      subst hdc
      obtain ⟨r, τ, hsince, hexpired⟩ := hinv.timers t ht d hd
      refine ⟨r, τ, hsince, ?_⟩
      rcases hdue with hdeleted | hle
      · have hlive := hinv.loop.heapOk.live t ht (by rw [hd]; simp)
        rw [hdeleted] at hlive
        cases hlive
      · exact hexpired ▸ hle
    · intro hpoll
      have hsame : (s.loop.pop t).pc = s.loop.pc := by unfold pop; dsimp only; split <;> rfl
      rw [hpop, hsame, hpc] at hpoll
      cases hpoll
  · refine ⟨?_, ?_⟩
    · intro fd c hc hgone
      rw [hend] at hgone
      exact absurd hc hgone
    · intro hpoll fd c hc
      have hsettled := hinv'.loop.settled fd c hc (by rw [hpoll]; simp [LoopPc.handled])
      obtain ⟨t, ht, -⟩ := hsettled.timer
      obtain ⟨hmem, hheld⟩ := mem_holders.1 (by rw [ht]; exact List.mem_singleton_self t)
      obtain ⟨r, τ, hsince, hexpired⟩ := hinv'.timers t hmem c hheld
      refine ⟨r, τ, hsince, ?_⟩
      rw [← hexpired]
      exact hlive t (by rw [hend] at hmem; exact hmem)

/-- a connection that sends nothing, up to the expiry of its first timer -/
def silent : List Op := [.accept 5, .poll [], .doPendingFunctors, .newEvent ⟨0, 0⟩]

theorem idle_closed_silent : ∃ s s', Machine.run step init silent = some s ∧
    s.step (.handleExpired (some (.new 0 0 DEFAULT_EXPIRED_TIME ⟨0, 0⟩)) ⟨3, 0⟩) = some s' ∧
    ∃ r τ, s.Since 0 r τ ∧ r.reading + τ ≤ Timeval.reading ⟨3, 0⟩ := by
  have hrun : (Machine.run step init silent).any fun s => s.loop.fd2http 5 = some 0 ∧
      (s.step (.handleExpired (some (.new 0 0 DEFAULT_EXPIRED_TIME ⟨0, 0⟩)) ⟨3, 0⟩)).any
        fun s' => s'.loop.fd2http 5 = none := by decide +kernel
  obtain ⟨s, hs, hfacts⟩ := (Option.any_eq_true _ _).1 hrun
  obtain ⟨hhttp, hclosed⟩ := of_decide_eq_true hfacts
  obtain ⟨s', hs', hgone⟩ := (Option.any_eq_true _ _).1 hclosed
  have hgone : s'.loop.fd2http 5 ≠ some 0 := by rw [of_decide_eq_true hgone]; simp
  exact ⟨s, s', hs, hs', (idle_closed silent s (by decide +kernel) hs _ ⟨3, 0⟩ s' hs').1 5 0 hhttp hgone⟩

end Timed

end Connections

end Glacier
