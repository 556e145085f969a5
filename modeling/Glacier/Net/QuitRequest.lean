/-
A quit request made by another thread, and the `quit_ = false` at the head of loop().

startLoop returns as soon as `loop_` is published, so quit() may come before the new thread has entered loop(). The
store `quit_ = true` is then overwritten, the wakeup is consumed by the first poll, and the loop blocks again.
- `quit_never_lost_iff`: a run whose requests are all stored after `quit_ = false` loses none, and a request stored
  before it is lost in some continuation.
- `quit_lost_at_start`: the start-up order in which it is lost.
-/
import Glacier.Net.FunctorQueue

namespace Glacier.EventLoop

variable {τ φ : Type}

/-- the loop's thread has executed `quit_ = false` -/
def afterReset : Pc → Bool
  | .constructed | .published | .entered => false
  | _ => true

/-- quit() completed, its wakeup consumed, and the loop blocked again with quit_ == false -/
def Lost (s : St τ φ) : Prop := s.quits ≠ 0 ∧ s.efd.count = 0 ∧ s.pc = .poll ∧ s.quit = false

/-- a quit() of another thread stores the flag only once `quit_ = false` has been executed -/
def StoredAfterReset (s : St τ φ) : Op τ φ → Prop
  | .quitStore _ => afterReset s.pc = true
  | _ => True

instance (s : St τ φ) (o : Op τ φ) : Decidable (StoredAfterReset s o) := by
  cases o <;> unfold StoredAfterReset <;> infer_instance

/-! ## A store after the reset -/

/-- the loop's own steps neither make nor complete a call of another thread, and after the reset do not write quit_ -/
theorem loop_frame (s t : St τ φ) (hst : loop s = some t) : t.quits = s.quits ∧ t.calls = s.calls ∧
    (afterReset s.pc = true → afterReset t.pc = true ∧ t.quit = s.quit) := by
  unfold loop at hst
  cases hpc : s.pc with
  | constructed | published | entered =>
    simp only [hpc, Option.some.injEq] at hst
    subst hst
    exact ⟨rfl, rfl, fun hr => by cases hr⟩
  | poll | exited => simp [hpc] at hst
  | events batch =>
    rcases batch with _ | ⟨_ | _, batch⟩
    · simp only [hpc, Option.some.injEq] at hst
      subst hst
      exact ⟨rfl, rfl, fun _ => ⟨rfl, rfl⟩⟩
    · simp only [hpc, Option.some.injEq] at hst
      subst hst
      unfold handleEvents handleRead
      dsimp only
      split_ifs <;> exact ⟨rfl, rfl, fun _ => ⟨rfl, rfl⟩⟩
    · simp only [hpc, Option.some.injEq] at hst
      subst hst
      exact ⟨rfl, rfl, fun _ => ⟨rfl, rfl⟩⟩
  | running =>
    cases hf : s.functors <;> simp only [hpc, hf, Option.some.injEq] at hst <;> subst hst <;>
      exact ⟨rfl, rfl, fun _ => ⟨rfl, rfl⟩⟩
  | test =>
    simp only [hpc, Option.some.injEq] at hst
    split_ifs at hst <;> subst hst
    · exact ⟨rfl, rfl, fun _ => ⟨rfl, rfl⟩⟩
    · exact ⟨rfl, rfl, fun _ => ⟨rfl, rfl⟩⟩
  | callback batch | functor =>
    simp only [hpc, Option.ite_none_left_eq_some, Option.some.injEq] at hst
    obtain ⟨-, rfl⟩ := hst
    exact ⟨rfl, rfl, fun _ => ⟨rfl, rfl⟩⟩
  | _ =>
    simp only [hpc, Option.some.injEq] at hst
    subst hst
    exact ⟨rfl, rfl, fun _ => ⟨rfl, rfl⟩⟩

theorem poll_afterReset (s t : St τ φ) (batch : List Chan) (looked : Bool) (hr : afterReset s.pc = true)
    (hst : poll s batch looked = some t) : afterReset t.pc = true ∧ t.quit = s.quit := by
  unfold poll at hst
  simp only [Option.ite_none_right_eq_some] at hst
  obtain ⟨-, hst⟩ := hst
  by_cases hb : batch = []
  · rw [if_pos hb] at hst; cases hst; exact ⟨hr, rfl⟩
  · rw [if_neg hb] at hst; cases hst; exact ⟨rfl, rfl⟩

variable [DecidableEq τ]

/-- the flag of a request stored after the reset -/
def Standing (s : St τ φ) : Prop := afterReset s.pc = true ∧ s.quit = true

theorem step_standing (s : St τ φ) (o : Op τ φ) (t : St τ φ) (h : Standing s) (hst : step s o = some t) :
    Standing t := by
  obtain ⟨hr, hq⟩ := h
  cases o with
  | loop =>
    obtain ⟨hr', hq'⟩ := (loop_frame s t hst).2.2 hr
    exact ⟨hr', hq'.trans hq⟩
  | poll batch looked =>
    simp only [step, Option.ite_none_right_eq_some] at hst
    obtain ⟨hr', hq'⟩ := poll_afterReset s t batch looked hr hst.2
    exact ⟨hr', hq'.trans hq⟩
  | selfQuit | quitStore =>
    simp only [step, Option.ite_none_right_eq_some, Option.some.injEq] at hst
    obtain ⟨-, rfl⟩ := hst
    exact ⟨hr, rfl⟩
  | _ =>
    simp only [step, Option.ite_none_right_eq_some, Option.some.injEq] at hst
    obtain ⟨-, rfl⟩ := hst
    exact ⟨hr, hq⟩

/-! ## A store before the reset -/

theorem started_published {ops : List (Op τ φ)} {s : St τ φ} (h : Machine.run step init ops = some s) :
    s.started = true → s.pc ≠ .constructed := by
  refine Machine.run_inv (I := fun s : St τ φ => s.started = true → s.pc ≠ .constructed) ?_ (by simp [init]) h
  intro s o t hs hst
  cases o with
  | loop =>
    unfold step loop at hst
    cases hpc : s.pc with
    | constructed => simp only [hpc, Option.some.injEq] at hst; subst hst; simp
    | published | entered => simp only [hpc, Option.some.injEq] at hst; subst hst; simp
    | _ =>
      have := ((loop_frame s t (by unfold loop; exact hst)).2.2 (by rw [hpc]; rfl)).1
      intro _ hc; rw [hc] at this; cases this
  | poll batch looked =>
    simp only [step, Option.ite_none_right_eq_some] at hst
    have := (poll_afterReset s t batch looked (by rw [hst.1]; rfl) hst.2).1
    intro _ hc; rw [hc] at this; cases this
  | startReturn =>
    simp only [step, Option.ite_none_right_eq_some, Option.some.injEq] at hst
    obtain ⟨hne, rfl⟩ := hst
    exact fun _ => hne
  | _ =>
    simp only [step, Option.ite_none_right_eq_some, Option.some.injEq] at hst
    obtain ⟨-, rfl⟩ := hst
    exact hs

/-- the swapped-out functors can all be run -/
theorem run_functors (s : St τ φ) (l : List φ) (hpc : s.pc = .running) (hl : s.functors = l) (hs : s.self = false) :
    ∃ t, Machine.Reaches step s t ∧ t.pc = .running ∧ t.functors = [] ∧ t.quit = s.quit ∧ t.quits = s.quits ∧
      t.efd = s.efd ∧ t.self = false := by
  induction l generalizing s with
  | nil => exact ⟨s, .refl s, hpc, hl, rfl, rfl, rfl, hs⟩
  | cons f rest ih =>
    obtain ⟨t, ht, hrest⟩ := ih { s with functors := rest, ran := s.ran ++ [f], pc := .running } rfl rfl hs
    refine ⟨t, .head .loop (t := { s with functors := rest, ran := s.ran ++ [f], pc := .functor }) ?_ ?_, hrest⟩
    · simp [step, loop, hpc, hl]
    · exact .head .loop (by simp [step, loop, hs]) ht

/-- a loop that polls with the wakeup outstanding can consume it and poll again -/
theorem consume_wakeup (s : St τ φ) (h : Inv s) (hpc : s.pc = .poll) (hp : s.efd.Pending) (hq : s.quit = false) :
    ∃ t, Machine.Reaches step s t ∧ t.pc = .poll ∧ t.quit = false ∧ t.efd.count = 0 ∧ t.quits = s.quits := by
  have hs0 := h.not_self (by rw [hpc]; rfl)
  have hrep := EventFd.report_of_pending hp
  -- epoll_wait reports the wakeup descriptor alone
  set s1 : St τ φ := { s with
    efd := s.efd.report.1
    wakeupChannel := (s.wakeupChannel.setRevents EPOLLIN).setEvents 0
    eventHandling := true
    pc := .events [.wakeup] }
  have h1 : step s (.poll [.wakeup] true) = some s1 := by simp [step, hpc, poll, hrep, s1]
  have hinv1 : Inv s1 := step_inv s _ s1 h h1
  set s2 : St τ φ := { s1 with
    efd := s1.efd.read
    wakeupChannel := s1.wakeupChannel.setEvents wakeupEvents
    pc := .drained [] }
  have h2 : step s1 .loop = some s2 := by
    show some (handleEvents s1 []) = some s2
    rw [handleEvents_eq s1 [] rfl]
  have hinv2 : Inv s2 := step_inv s1 _ s2 hinv1 h2
  set s3 : St τ φ := { s2 with pc := .events [] }
  have h3 : step s2 .loop = some s3 := by
    show some { handleConn s2 with pc := .events [] } = some s3
    rw [handleConn_eq s2 hinv2.mask.2 rfl]
  set s4 : St τ φ := { s3 with eventHandling := false, pc := .doPending }
  have h4 : step s3 .loop = some s4 := rfl
  set s5 : St τ φ := { s4 with callingPendingFunctors := true, pc := .swap }
  have h5 : step s4 .loop = some s5 := rfl
  set s6 : St τ φ := { s5 with functors := s5.pendingFunctors, pendingFunctors := s5.functors, pc := .running }
  have h6 : step s5 .loop = some s6 := rfl
  obtain ⟨s7, h7, hpc7, hf7, hq7, hquits7, hefd7, hs7⟩ := run_functors s6 _ rfl rfl hs0
  refine ⟨{ s7 with callingPendingFunctors := false, pc := .poll }, ?_, rfl, hq7.trans hq, ?_, hquits7⟩
  · refine .head _ h1 (.head _ h2 (.head _ h3 (.head _ h4 (.head _ h5 (.head _ h6 (h7.trans ?_))))))
    refine .head .loop (t := { s7 with callingPendingFunctors := false, pc := .expire }) ?_ ?_
    · simp [step, loop, hpc7, hf7]
    · exact .head .loop rfl (.head .loop (by simp [step, loop, hq7.trans hq]) (.refl _))
  · show s7.efd.count = 0
    rw [hefd7]; rfl

/-- a request stored before the reset is lost in some continuation -/
theorem store_before_reset {ops : List (Op τ φ)} {s t : St τ φ} {q : τ} (hs : Machine.run step init ops = some s)
    (hq : step s (.quitStore q) = some t) (hr : afterReset s.pc = false) :
    ∃ more u, Machine.run step t more = some u ∧ Lost u := by
  have hinv : Inv s := Machine.run_inv step_inv inv_init hs
  have hinvt := step_inv s _ _ hinv hq
  simp only [step, Option.ite_none_right_eq_some, Option.some.injEq] at hq
  obtain ⟨⟨hstarted, -⟩, rfl⟩ := hq
  -- the request completes, then the loop's thread enters loop() and polls
  set t := setCall { s with quit := true } q .quitStored
  set w := setCall { t with efd := t.efd.write, quits := t.quits + 1 } q .idle
  have hw : step t (.quitWake q) = some w := by simp [step, t, w, setCall]
  have hinvw : Inv w := step_inv t _ w hinvt hw
  have hunreported : reportedIn s.pc = false := by
    cases hp : s.pc with
    | constructed | published | entered => rfl
    | _ => rw [hp] at hr; cases hr
  have hpend : w.efd.Pending := EventFd.write_pending (hinv.fd hunreported)
  have htest : ∀ y : St τ φ, y.pc = .entered → Machine.Reaches step y { y with quit := false, pc := .poll } := by
    intro y hy
    apply Machine.Reaches.head .loop (t := { y with quit := false, pc := .test })
    · simp [step, loop, hy]
    · exact .head .loop (by simp [step, loop]) (.refl _)
  obtain ⟨x, hx, hpcx, hqx, hefdx, hquitsx⟩ : ∃ x, Machine.Reaches step w x ∧ x.pc = .poll ∧ x.quit = false ∧
      x.efd = w.efd ∧ x.quits = w.quits := by
    cases hp : s.pc with
    | constructed => exact absurd hp (started_published hs hstarted)
    | published =>
      have hwp : w.pc = .published := hp
      refine ⟨_, .head .loop (t := { w with looping := true, pc := .entered }) ?_ (htest _ rfl), rfl, rfl, rfl, rfl⟩
      simp [step, loop, hwp]
    | entered => exact ⟨_, htest w hp, rfl, rfl, rfl, rfl⟩
    | _ => rw [hp] at hr; cases hr
  have hinvx : Inv x := by
    obtain ⟨l, hl⟩ := hx
    exact Machine.run_inv step_inv hinvw hl
  obtain ⟨u, hu, hpcu, hqu, hcount, hquits⟩ := consume_wakeup x hinvx hpcx (hefdx ▸ hpend) hqx
  obtain ⟨more, hmore⟩ := Machine.Reaches.head _ hw (hx.trans hu)
  refine ⟨more, u, hmore, ?_, hcount, hpcu, hqu⟩
  rw [hquits, hquitsx]
  exact Nat.succ_ne_zero _

/-! ## Runs -/

/-- either no thread has stored a request, or the flag of one stands -/
def Kept (s : St τ φ) : Prop := (s.quits = 0 ∧ ∀ q, s.calls q ≠ .quitStored) ∨ Standing s

theorem step_kept (s : St τ φ) (o : Op τ φ) (t : St τ φ) (h : Kept s) (hok : StoredAfterReset s o)
    (hst : step s o = some t) : Kept t := by
  rcases h with ⟨hquits, hcalls⟩ | h
  · cases o with
    | quitStore q =>
      simp only [step, Option.ite_none_right_eq_some, Option.some.injEq] at hst
      obtain ⟨-, rfl⟩ := hst
      exact Or.inr ⟨hok, rfl⟩
    | quitWake q =>
      simp only [step, Option.ite_none_right_eq_some] at hst
      exact absurd hst.1 (hcalls q)
    | loop =>
      obtain ⟨hquits', hcalls', -⟩ := loop_frame s t hst
      exact Or.inl ⟨hquits'.trans hquits, by rw [hcalls']; exact hcalls⟩
    | poll batch looked =>
      simp only [step, poll, Option.ite_none_right_eq_some] at hst
      obtain ⟨-, -, hst⟩ := hst
      by_cases hb : batch = []
      · rw [if_pos hb] at hst; cases hst; exact Or.inl ⟨hquits, hcalls⟩
      · rw [if_neg hb] at hst; cases hst; exact Or.inl ⟨hquits, hcalls⟩
    | push q f | wake q =>
      simp only [step, Option.ite_none_right_eq_some, Option.some.injEq] at hst
      obtain ⟨-, rfl⟩ := hst
      refine Or.inl ⟨hquits, ?_⟩
      intro r
      simp only [setCall, Function.update_apply]
      split_ifs
      · simp
      · exact hcalls r
    | _ =>
      simp only [step, Option.ite_none_right_eq_some, Option.some.injEq] at hst
      obtain ⟨-, rfl⟩ := hst
      exact Or.inl ⟨hquits, hcalls⟩
  · exact Or.inr (step_standing s o t h hst)

/-- **A quit request is lost exactly when it is stored before the reset.** A run whose requests are all stored after
`quit_ = false` reaches no state in which one is lost. And at any store of any run: no continuation loses the request if
and only if the loop's thread has executed `quit_ = false`. -/
theorem quit_never_lost_iff (ops : List (Op τ φ)) (s : St τ φ) (hs : Machine.run step init ops = some s) :
    (Machine.Meets step StoredAfterReset init ops → ¬ Lost s) ∧
      ∀ q t, step s (.quitStore q) = some t →
        ((∀ more u, Machine.run step t more = some u → ¬ Lost u) ↔ afterReset s.pc = true) := by
  refine ⟨?_, fun q t hq => ⟨?_, ?_⟩⟩
  · intro hok hlost
    have hkept : Kept s := Machine.run_inv_of_meets step_kept (Or.inl ⟨rfl, fun _ => by simp [init]⟩) hok hs
    rcases hkept with hnone | hstand
    · exact hlost.1 hnone.1
    · have := hstand.2
      rw [hlost.2.2.2] at this; cases this
  · intro hall
    by_contra hr
    obtain ⟨more, u, hu, hlost⟩ := store_before_reset hs hq (by simpa using hr)
    exact hall more u hu hlost
  · intro hr more u hu hlost
    have hstored : Standing t := by
      simp only [step, Option.ite_none_right_eq_some, Option.some.injEq] at hq
      obtain ⟨-, rfl⟩ := hq
      exact ⟨hr, rfl⟩
    have hstand : Standing u := Machine.run_inv step_standing hstored hu
    have := hstand.2
    rw [hlost.2.2.2] at this; cases this

/-- quit() comes when the loop already polls -/
def quitInPoll : List (Op Unit Unit) :=
  [.loop, .startReturn, .loop, .loop, .loop, .quitStore (), .quitWake (), .poll [.wakeup] true]

theorem quit_never_lost_iff_in_poll : ∃ s, Machine.run step init quitInPoll = some s ∧ s.quits = 1 ∧ ¬ Lost s := by
  obtain ⟨s, hs, hquits⟩ := Option.map_eq_some_iff.1
    (show (Machine.run step init quitInPoll).map (·.quits) = some 1 by decide +kernel)
  exact ⟨s, hs, hquits, (quit_never_lost_iff quitInPoll s hs).1 (by decide +kernel)⟩

/-- quit() comes between the publication of loop_ and `quit_ = false` -/
def quitAtStart : List (Op Unit Unit) :=
  [.loop, .startReturn, .quitStore (), .quitWake (), .loop, .loop, .loop, .poll [.wakeup] true,
    .loop, .loop, .loop, .loop, .loop, .loop, .loop, .loop]

theorem quit_lost_at_start : ∃ s, Machine.run step init quitAtStart = some s ∧ Lost s := by
  obtain ⟨s, hs, hlost⟩ := Option.map_eq_some_iff.1
    (show (Machine.run step init quitAtStart).map (fun s => (s.quits, s.efd.count, s.pc, s.quit)) =
      some (1, 0, .poll, false) by decide +kernel)
  simp only [Prod.mk.injEq] at hlost
  exact ⟨s, hs, by rw [hlost.1]; decide, hlost.2⟩

end Glacier.EventLoop
