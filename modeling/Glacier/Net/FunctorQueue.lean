/-
The cross-thread functor queue of EventLoop: order, at most once, and no lost wakeup.

`Inv` ties the queue to the wakeup descriptor:
- `queue`: the functors started, then those swapped out and not started, then `pendingFunctors`, are the pushed
  functors in push order;
- `fd`: outside the window between a report of the wakeup descriptor and its drain, every write is queued for the next
  look of epoll_wait;
- `wake`: if `pendingFunctors` is not empty, the loop is on its way to a swap, or some thread is between its push and
  its wakeup, or a write is outstanding that no look has reported.
Main results:
- `step_inv`: every step of every thread preserves `Inv`;
- `functor_queue_safe`: the started functors are a prefix of the pushed ones, position by position, so each is started
  at most once and in push order; and no reachable state has the loop blocked in epoll_wait with functors pending while
  no queueInLoop call is between its push and its wakeup and no unreported write is outstanding.
-/
import Glacier.Net.EventLoop

namespace Glacier.EventLoop

variable {τ φ : Type}

/-- the wakeup channel has been reported and not been handled yet -/
def reportedIn : Pc → Bool
  | .events batch | .callback batch | .drained batch => batch.contains .wakeup
  | _ => false

/-- the loop's thread reaches the swap before it polls again -/
def beforeSwap : Pc → Bool
  | .events _ | .callback _ | .drained _ | .doPending | .swap => true
  | _ => false

/-- between the two writes of callingPendingFunctors_ in doPendingFunctors -/
def inPending : Pc → Bool
  | .swap | .running | .functor => true
  | _ => false

/-- a queueInLoop call is between its push and its wakeup -/
def Pushing (s : St τ φ) : Prop := s.self = true ∨ ∃ t, s.calls t = .pushed

structure Inv (s : St τ φ) : Prop where
  queue : s.ran ++ s.functors ++ s.pendingFunctors = s.pushed
  /-- a batch is only held while it runs -/
  batch : s.pc ≠ .running → s.pc ≠ .functor → s.functors = []
  fd : reportedIn s.pc = false → s.efd.Queued
  wake : s.pendingFunctors ≠ [] → beforeSwap s.pc = true ∨ Pushing s ∨ s.efd.Pending
  calling : inPending s.pc = true → s.callingPendingFunctors = true
  self : s.self = true → inUserCode s.pc = true
  /-- the mask of the wakeup channel is the one registered, and handling it restores it -/
  mask : s.armed = wakeupEvents ∧ s.wakeupChannel.lastevents = wakeupEvents
  restored : ∀ batch, s.pc = .drained batch → s.wakeupChannel.events = wakeupEvents
  revents : reportedIn s.pc = true → s.wakeupChannel.revents = EPOLLIN

theorem inv_init : Inv (init : St τ φ) := by
  constructor <;> simp [init, EventFd.new_queued, reportedIn, inPending]

/-- the wakeup channel is read and then its mask is programmed again, unchanged -/
theorem handleEvents_eq (s : St τ φ) (batch : List Chan) (h : s.wakeupChannel.revents = EPOLLIN) :
    handleEvents s batch =
      { s with
        efd := s.efd.read
        wakeupChannel := s.wakeupChannel.setEvents wakeupEvents
        pc := .drained batch } := by
  have hd : Channel.dispatch s.wakeupChannel.revents = [.read, .conn] := by rw [h]; decide
  simp [handleEvents, hd, handleRead, Channel.setEvents]

theorem handleConn_eq (s : St τ φ) (hlast : s.wakeupChannel.lastevents = wakeupEvents)
    (hev : s.wakeupChannel.events = wakeupEvents) : handleConn s = s := by
  have hchan : s.wakeupChannel.equalAndUpdateLastEvents = (true, s.wakeupChannel) := by
    cases hc : s.wakeupChannel with
    | mk ev rev last =>
      simp only [hc] at hlast hev
      simp [Channel.equalAndUpdateLastEvents, hlast, hev]
  simp [handleConn, hchan]

/-! ## The loop's thread -/

/-- outside user code the loop's thread is not in queueInLoop -/
theorem Inv.not_self {s : St τ φ} (h : Inv s) (hpc : inUserCode s.pc = false) : s.self = false := by
  by_contra hc
  have huser := h.self (by simpa using hc)
  rw [hpc] at huser; cases huser

/-- **Moves that leave the queue alone.** The loop's thread goes on and touches neither the functors nor the wakeup
channel, and does not pass the swap. -/
theorem Inv.move {s : St τ φ} (h : Inv s) (hself : s.self = false) {pc : Pc}
    {looping quit eventHandling callingPendingFunctors : Bool} (hbatch : s.functors = [] ∨ pc = .running)
    (hreported : reportedIn pc = reportedIn s.pc) (hswap : beforeSwap s.pc = true → beforeSwap pc = true)
    (hcalling : inPending pc = true → callingPendingFunctors = true) (hdrained : ∀ batch, pc ≠ .drained batch) :
    Inv { s with
      pc := pc, looping := looping, quit := quit, eventHandling := eventHandling
      callingPendingFunctors := callingPendingFunctors } := by
  refine { h with batch := ?_, fd := ?_, wake := ?_, calling := hcalling, self := ?_, restored := ?_, revents := ?_ }
  · intro hr _
    exact hbatch.resolve_right hr
  · intro hr
    exact h.fd (hreported ▸ hr)
  · intro hne
    rcases h.wake hne with hb | hp | hp
    · exact Or.inl (hswap hb)
    · exact Or.inr (Or.inl hp)
    · exact Or.inr (Or.inr hp)
  · intro hs
    have hs : s.self = true := hs
    rw [hself] at hs; cases hs
  · intro batch hpc
    exact absurd hpc (hdrained batch)
  · intro hr
    exact h.revents (hreported ▸ hr)

theorem loop_inv (s t : St τ φ) (h : Inv s) (hst : loop s = some t) : Inv t := by
  have hbatch : s.pc ≠ .running → s.pc ≠ .functor → ∀ pc : Pc, s.functors = [] ∨ pc = .running :=
    fun hr hf _ => Or.inl (h.batch hr hf)
  unfold loop at hst
  cases hpc : s.pc with
  | constructed | published | entered =>
    simp only [hpc, Option.some.injEq] at hst
    subst hst
    exact h.move (h.not_self (by rw [hpc]; rfl)) (hbatch (by simp [hpc]) (by simp [hpc]) _) (by rw [hpc]; rfl)
      (by simp [hpc, beforeSwap]) (by simp [inPending]) (by simp)
  | test =>
    simp only [hpc, Option.some.injEq] at hst
    have hs0 := h.not_self (by rw [hpc]; rfl)
    split_ifs at hst <;> subst hst
    · exact h.move hs0 (hbatch (by simp [hpc]) (by simp [hpc]) _) (by rw [hpc]; rfl) (by simp [hpc, beforeSwap])
        (by simp [inPending]) (by simp)
    · exact h.move hs0 (hbatch (by simp [hpc]) (by simp [hpc]) _) (by rw [hpc]; rfl) (by simp [hpc, beforeSwap])
        (by simp [inPending]) (by simp)
  | poll => simp [hpc] at hst
  | events batch =>
    have hs0 := h.not_self (by rw [hpc]; rfl)
    have hempty := hbatch (by simp [hpc]) (by simp [hpc])
    cases batch with
    | nil =>
      simp only [hpc, Option.some.injEq] at hst
      subst hst
      exact h.move hs0 (hempty _) (by rw [hpc]; rfl) (fun _ => rfl) (by simp [inPending]) (by simp)
    | cons c batch =>
      cases c with
      | other =>
        simp only [hpc, Option.some.injEq] at hst
        subst hst
        exact h.move hs0 (hempty _) (by rw [hpc]; rfl) (fun _ => rfl) (by simp [inPending]) (by simp)
      | wakeup =>
        have hrev := h.revents (by rw [hpc]; simp [reportedIn])
        simp only [hpc, handleEvents_eq s batch hrev, Option.some.injEq] at hst
        subst hst
        -- draining leaves a counter whose next write is queued
        exact { h with
          batch := fun _ _ => h.batch (by simp [hpc]) (by simp [hpc]), fd := fun _ => EventFd.read_queued _
          wake := fun _ => Or.inl rfl, calling := by simp [inPending], self := by simp [hs0], mask := h.mask
          restored := fun _ _ => rfl, revents := fun _ => hrev }
  | callback batch =>
    simp only [hpc, Option.ite_none_left_eq_some, Option.some.injEq] at hst
    obtain ⟨hs0, rfl⟩ := hst
    exact h.move (by simpa using hs0) (hbatch (by simp [hpc]) (by simp [hpc]) _) (by rw [hpc]; rfl) (fun _ => rfl)
      (by simp [inPending]) (by simp)
  | drained batch =>
    simp only [hpc, handleConn_eq s h.mask.2 (h.restored batch hpc), Option.some.injEq] at hst
    subst hst
    exact h.move (h.not_self (by rw [hpc]; rfl)) (hbatch (by simp [hpc]) (by simp [hpc]) _) (by rw [hpc]; rfl)
      (fun _ => rfl) (by simp [inPending]) (by simp)
  | doPending =>
    simp only [hpc, Option.some.injEq] at hst
    subst hst
    exact h.move (h.not_self (by rw [hpc]; rfl)) (hbatch (by simp [hpc]) (by simp [hpc]) _) (by rw [hpc]; rfl)
      (fun _ => rfl) (fun _ => rfl) (by simp)
  | swap =>
    simp only [hpc, Option.some.injEq] at hst
    subst hst
    have hs0 := h.not_self (by rw [hpc]; rfl)
    have hnone : s.functors = [] := h.batch (by simp [hpc]) (by simp [hpc])
    -- the swap empties pendingFunctors
    exact { h with
      queue := by simpa [hnone] using h.queue, batch := by simp, fd := fun _ => h.fd (by rw [hpc]; rfl)
      wake := fun hne => absurd hnone hne, calling := fun _ => h.calling (by rw [hpc]; rfl), self := by simp [hs0]
      restored := by simp, revents := by simp [reportedIn] }
  | running =>
    have hs0 := h.not_self (by rw [hpc]; rfl)
    cases hf : s.functors with
    | nil =>
      simp only [hpc, hf, Option.some.injEq] at hst
      subst hst
      rw [← hf]
      exact h.move hs0 (Or.inl hf) (by rw [hpc]; rfl) (by simp [hpc, beforeSwap]) (by simp [inPending]) (by simp)
    | cons f rest =>
      simp only [hpc, hf, Option.some.injEq] at hst
      subst hst
      have hwake : s.pendingFunctors ≠ [] → Pushing s ∨ s.efd.Pending := by
        intro hne
        exact (h.wake hne).resolve_left (by simp [hpc, beforeSwap])
      exact { h with
        queue := by simpa [hf] using h.queue, batch := by simp, fd := fun _ => h.fd (by rw [hpc]; rfl)
        wake := fun hne => Or.inr (hwake hne), calling := fun _ => h.calling (by rw [hpc]; rfl), self := by simp [hs0]
        restored := by simp, revents := by simp [reportedIn] }
  | functor =>
    simp only [hpc, Option.ite_none_left_eq_some, Option.some.injEq] at hst
    obtain ⟨hs0, rfl⟩ := hst
    exact h.move (by simpa using hs0) (Or.inr rfl) (by rw [hpc]; rfl) (by simp [hpc, beforeSwap])
      (fun _ => h.calling (by rw [hpc]; rfl)) (by simp)
  | expire =>
    simp only [hpc, Option.some.injEq] at hst
    subst hst
    exact h.move (h.not_self (by rw [hpc]; rfl)) (hbatch (by simp [hpc]) (by simp [hpc]) _) (by rw [hpc]; rfl)
      (by simp [hpc, beforeSwap]) (by simp [inPending]) (by simp)
  | exited => simp [hpc] at hst

theorem poll_inv (s t : St τ φ) (batch : List Chan) (looked : Bool) (h : Inv s) (hpc : s.pc = .poll)
    (hst : poll s batch looked = some t) : Inv t := by
  have hq : s.efd.Queued := h.fd (by rw [hpc]; rfl)
  have hs0 := h.not_self (by rw [hpc]; rfl)
  have hbatch : s.functors = [] := h.batch (by simp [hpc]) (by simp [hpc])
  unfold poll at hst
  cases looked with
  | false =>
    simp only [Bool.false_eq_true, ite_false, Option.ite_none_right_eq_some] at hst
    obtain ⟨hcount, hst⟩ := hst
    split_ifs at hst <;> cases hst
    · exact h
    · have hno : reportedIn (.events batch) = false := by
        simpa [reportedIn, List.count_eq_zero] using hcount
      exact { h with
        batch := fun _ _ => hbatch, fd := fun _ => hq, wake := fun _ => Or.inl rfl, calling := by simp [inPending]
        self := by simp [hs0], restored := by simp, revents := fun hr => by rw [hno] at hr; cases hr }
  | true =>
    simp only [ite_true, Option.ite_none_right_eq_some] at hst
    obtain ⟨hcount, hst⟩ := hst
    cases hrep : s.efd.report.2 with
    | false =>
      -- nothing was outstanding: the counter is drained
      have hzero := EventFd.report_missed hq hrep
      have hno : reportedIn (.events batch) = false := by
        simpa [reportedIn, List.count_eq_zero, hrep] using hcount
      simp only [hrep, Bool.false_eq_true, ite_false] at hst
      split_ifs at hst <;> cases hst
      · refine { h with fd := fun _ hne => absurd hzero hne, wake := ?_ }
        intro hne
        rcases h.wake hne with hb | hp | hp
        · rw [hpc] at hb; cases hb
        · exact Or.inr (Or.inl hp)
        · rw [EventFd.report_of_pending hp] at hrep; cases hrep
      · exact { h with
          batch := fun _ _ => hbatch, fd := fun _ hne => absurd hzero hne, wake := fun _ => Or.inl rfl
          calling := by simp [inPending], self := by simp [hs0], restored := by simp
          revents := fun hr => by rw [hno] at hr; cases hr }
    | true =>
      have hyes : Chan.wakeup ∈ batch := by
        simp only [hrep, ite_true] at hcount
        exact List.count_pos_iff.1 (by omega)
      have hne : batch ≠ [] := List.ne_nil_of_mem hyes
      simp only [hrep, ite_true, hne, ite_false, Option.some.injEq] at hst
      subst hst
      exact { h with
        batch := fun _ _ => hbatch
        fd := fun hr => by
          have : reportedIn (.events batch) = true := by simpa [reportedIn] using hyes
          rw [this] at hr; cases hr
        wake := fun _ => Or.inl rfl, calling := by simp [inPending], self := by simp [hs0], mask := h.mask
        restored := by simp, revents := fun _ => rfl }

/-! ## Every step -/

/-- a reported wakeup channel is handled before the swap -/
theorem beforeSwap_of_reported {pc : Pc} (h : reportedIn pc = true) : beforeSwap pc = true := by
  cases pc with
  | events | callback | drained => rfl
  | _ => cases h

/-- the end of a queueInLoop or quit() call: a write to the wakeup descriptor -/
theorem wake_of_write {s : St τ φ} {t : St τ φ} (h : Inv s) (hpc : t.pc = s.pc) (hefd : t.efd = s.efd.write) :
    t.pendingFunctors ≠ [] → beforeSwap t.pc = true ∨ Pushing t ∨ t.efd.Pending := by
  intro _
  cases hr : reportedIn s.pc with
  | false => exact Or.inr (Or.inr (hefd ▸ EventFd.write_pending (h.fd hr)))
  | true =>
    left
    rw [hpc]
    exact beforeSwap_of_reported hr

variable [DecidableEq τ]

/-- a thread's move in its call keeps the other threads where they are -/
theorem pushing_setCall {s : St τ φ} {t : τ} {c : Call} (hc : s.calls t ≠ .pushed) (h : Pushing s) :
    Pushing (setCall s t c) := by
  rcases h with h | ⟨u, hu⟩
  · exact Or.inl h
  · refine Or.inr ⟨u, ?_⟩
    have hne : u ≠ t := fun he => hc (he ▸ hu)
    simpa [setCall, Function.update_of_ne hne] using hu

theorem step_inv (s : St τ φ) (o : Op τ φ) (t : St τ φ) (h : Inv s) (hst : step s o = some t) : Inv t := by
  cases o with
  | loop => exact loop_inv s t h hst
  | poll batch looked =>
    simp only [step, Option.ite_none_right_eq_some] at hst
    exact poll_inv s t batch looked h hst.1 hst.2
  | selfPush f =>
    simp only [step, Option.ite_none_right_eq_some, Option.some.injEq] at hst
    obtain ⟨⟨hu, -⟩, rfl⟩ := hst
    exact { h with
      queue := by simp [← h.queue], wake := fun _ => Or.inr (Or.inl (Or.inl rfl)), self := fun _ => hu }
  | selfWake =>
    simp only [step, Option.ite_none_right_eq_some, Option.some.injEq] at hst
    obtain ⟨hs, rfl⟩ := hst
    have hu := h.self hs
    cases hc : s.callingPendingFunctors with
    | true =>
      exact { h with
        fd := fun hr => EventFd.write_queued (h.fd hr), wake := wake_of_write h rfl rfl, calling := fun _ => rfl
        self := by simp }
    | false =>
      -- not in doPendingFunctors, so in an event callback: the swap is still to come
      have hb : beforeSwap s.pc = true := by
        cases hp : s.pc with
        | callback batch => rfl
        | functor => rw [h.calling (by rw [hp]; rfl)] at hc; cases hc
        | _ => rw [hp] at hu; cases hu
      exact { h with
        fd := fun hr => h.fd hr, wake := fun _ => Or.inl hb, calling := fun hp => hc ▸ h.calling hp, self := by simp }
  | selfQuit =>
    simp only [step, Option.ite_none_right_eq_some, Option.some.injEq] at hst
    obtain ⟨-, rfl⟩ := hst
    exact { h with wake := h.wake }
  | push u f =>
    simp only [step, Option.ite_none_right_eq_some, Option.some.injEq] at hst
    obtain ⟨-, rfl⟩ := hst
    exact { h with
      queue := by simp [setCall, ← h.queue], wake := fun _ => Or.inr (Or.inl (Or.inr ⟨u, by simp [setCall]⟩)) }
  | wake u =>
    simp only [step, Option.ite_none_right_eq_some, Option.some.injEq] at hst
    obtain ⟨-, rfl⟩ := hst
    exact { h with fd := fun hr => EventFd.write_queued (h.fd hr), wake := wake_of_write h rfl rfl }
  | quitStore u =>
    simp only [step, Option.ite_none_right_eq_some, Option.some.injEq] at hst
    obtain ⟨⟨-, hi⟩, rfl⟩ := hst
    refine { h with wake := ?_ }
    intro hne
    rcases h.wake hne with hb | hp | hp
    · exact Or.inl hb
    · exact Or.inr (Or.inl (pushing_setCall (s := { s with quit := true }) (by simp [hi]) hp))
    · exact Or.inr (Or.inr hp)
  | quitWake u =>
    simp only [step, Option.ite_none_right_eq_some, Option.some.injEq] at hst
    obtain ⟨-, rfl⟩ := hst
    exact { h with fd := fun hr => EventFd.write_queued (h.fd hr), wake := wake_of_write h rfl rfl }
  | startReturn =>
    simp only [step, Option.ite_none_right_eq_some, Option.some.injEq] at hst
    obtain ⟨-, rfl⟩ := hst
    exact { h with wake := h.wake }

/-- **The functor queue of a loop.** In every state that the loop's thread and any number of other threads reach, in
any interleaving of their steps: the functors started are a prefix of the functors pushed under mutex_, so each is
started at most once and in push order; and the loop is not blocked in epoll_wait with functors pending while no
queueInLoop call is between its push and its wakeup and no unreported write to the wakeup descriptor is outstanding. -/
theorem functor_queue_safe (ops : List (Op τ φ)) (s : St τ φ) (h : Machine.run step init ops = some s) :
    s.ran <+: s.pushed ∧
      ¬ (s.pc = .poll ∧ s.pendingFunctors ≠ [] ∧ s.self = false ∧ (∀ t, s.calls t ≠ .pushed) ∧ ¬ s.efd.Pending) := by
  have hinv : Inv s := Machine.run_inv step_inv inv_init h
  refine ⟨⟨s.functors ++ s.pendingFunctors, by rw [← hinv.queue, List.append_assoc]⟩, ?_⟩
  intro ⟨hpc, hne, hself, hcalls, hpend⟩
  rcases hinv.wake hne with hb | (hs | ⟨t, ht⟩) | hp
  · rw [hpc] at hb; cases hb
  · rw [hself] at hs; cases hs
  · exact hcalls t ht
  · exact hpend hp

/-- a push whose wakeup arrives while the loop is in epoll_wait: one functor, started once -/
def wakeTrace : List (Op ℕ ℕ) :=
  [.loop, .loop, .loop, .loop, .push 0 7, .wake 0, .poll [.other, .wakeup] true] ++ List.replicate 8 .loop

theorem functor_queue_safe_wake : ∃ s, Machine.run step (init : St ℕ ℕ) wakeTrace = some s ∧ s.ran = [7] ∧
    s.ran <+: s.pushed := by
  have hrun : (Machine.run step (init : St ℕ ℕ) wakeTrace).map St.ran = some [7] := by decide +kernel
  obtain ⟨s, hs, hran⟩ := Option.map_eq_some_iff.1 hrun
  exact ⟨s, hs, hran, (functor_queue_safe wakeTrace s hs).1⟩

end Glacier.EventLoop
