/-
No connection is leaked or stalled: what holds of the connections at the end of every iteration of loop().

handleConn ends the handling of a connection by arming the mask with a new timer or by closing the connection; on one
branch it does neither. A connection that reads the end of the stream while a part of a response is unsent takes it.
- `accept_inv` to `handleExpired_inv`: every step keeps the invariant that does not take the branch;
- `no_leak`: the result over whole runs;
- `endOfStream_leaks`: a run that takes the branch.
-/
import Glacier.Lib.Machine
import Glacier.Net.ConnectionInv

namespace Glacier

namespace Connections

/-! ## Steps outside the callbacks -/

theorem init_inv : Inv init where
  heapOk := ⟨List.nodup_nil, fun _ ht => absurd ht List.not_mem_nil, fun _ ht => absurd ht List.not_mem_nil⟩
  held := fun _ ht => absurd ht List.not_mem_nil
  registered := fun _ _ hc => by cases hc
  chan := fun _ _ hc => by cases hc
  settled := fun _ _ hc => by cases hc
  handling := fun _ _ _ hpc => by cases hpc
  active := fun _ hc => absurd hc List.not_mem_nil
  active_nodup := List.nodup_nil
  queue := fun _ hc => absurd hc List.not_mem_nil
  queue_nodup := List.nodup_nil
  queue_fds := fun _ hc => absurd hc List.not_mem_nil

theorem accept_inv {l l' : Connections} {fd : ℕ} (h : Inv l) (hstep : l.step (.accept fd) = some l') : Inv l' := by
  simp only [step] at hstep
  by_cases hfree : ∀ c < l.nextConn, l.alive c → (l.conns c).fd ≠ fd
  · rw [if_pos hfree, Option.some.injEq] at hstep
    subst hstep
    set l' : Connections := { l.set l.nextConn (.new fd) with
      pendingFunctors := l.pendingFunctors ++ [l.nextConn], nextConn := l.nextConn + 1 }
    have hself : l'.conns l.nextConn = .new fd := set_conns_self l _ _
    have hconns : ∀ c < l.nextConn, l'.conns c = l.conns c := fun c hc => set_conns_of_ne l _ hc.ne
    have hreg : ∀ fd' c, l.fd2http fd' = some c → c < l.nextConn := fun fd' c hc => (h.registered fd' c hc).lt
    have hunused : l.fd2http fd = none := by
      cases hc : l.fd2http fd with
      | none => rfl
      | some c =>
        have hr := h.registered fd c hc
        exact absurd hr.fd_eq (hfree c hr.lt (Or.inl (by rw [hr.fd_eq]; exact hc)))
    have hqueued : l'.queued = l.queued ++ [l.nextConn] := by simp [queued, l', set]
    have hmem : ∀ c, c ∈ l'.queued → c ∈ l.queued ∨ c = l.nextConn := by
      intro c hc
      rw [hqueued, List.mem_append, List.mem_singleton] at hc
      exact hc
    have halive : ∀ c ∈ l.queued, l.alive c := by
      intro c hc
      rcases List.mem_append.1 hc with hc | hc
      · exact Or.inr (Or.inr (Or.inl hc))
      · exact Or.inr (Or.inl hc)
    have hqlt : ∀ c ∈ l.queued, c < l.nextConn := fun c hc => (h.queue c hc).1
    refine
      { heapOk := h.heapOk, held := ?_, registered := ?_, chan := h.chan, settled := ?_, handling := ?_, active := ?_
        active_nodup := h.active_nodup, queue := ?_, queue_nodup := ?_, queue_fds := ?_ }
    · -- held
      intro t ht c hd
      have hheld := h.held t ht c hd
      rw [hconns c (hreg _ c hheld)]
      exact hheld
    · -- registered
      intro fd' c hc
      have hr := h.registered fd' c hc
      exact ⟨by rw [hconns c hr.lt]; exact hr.fd_eq, hr.lt.trans (Nat.lt_succ_self _), hr.chan,
        hr.armed.congr (hconns c hr.lt) rfl⟩
    · -- settled
      intro fd' c hc hn
      exact (h.settled fd' c hc hn).congr (hconns c (hreg _ c hc)) rfl rfl
    · -- handling
      intro c cbs active hpc
      have hpc : l.pc = .callbacks c cbs active := hpc
      have hc := h.active c (by rw [hpc]; exact List.mem_cons_self)
      exact (h.handling c cbs active hpc).congr (hconns c (hreg _ c hc)) rfl rfl
    · -- active
      intro c hc
      have hact := h.active c hc
      rw [hconns c (hreg _ c hact)]
      exact hact
    · -- queue
      intro c hc
      rcases hmem c hc with hc | rfl
      · obtain ⟨hlt, hnew, hnone⟩ := h.queue c hc
        rw [hconns c hlt]
        exact ⟨hlt.trans (Nat.lt_succ_self _), hnew, hnone⟩
      · rw [hself]
        exact ⟨Nat.lt_succ_self _, rfl, hunused⟩
    · -- queue_nodup
      rw [hqueued]
      apply List.Nodup.append h.queue_nodup (List.nodup_singleton _)
      intro c hc hn
      rw [List.mem_singleton] at hn
      exact absurd (hqlt c hc) (by rw [hn]; exact lt_irrefl _)
    · -- queue_fds
      intro c hc c' hc' heq
      rcases hmem c hc with hc | rfl <;> rcases hmem c' hc' with hc' | rfl
      · rw [hconns c (hqlt c hc), hconns c' (hqlt c' hc')] at heq
        exact h.queue_fds c hc c' hc' heq
      · rw [hconns c (hqlt c hc), hself] at heq
        exact absurd heq (hfree c (hqlt c hc) (halive c hc))
      · rw [hself, hconns c' (hqlt c' hc')] at heq
        exact absurd heq.symm (hfree c' (hqlt c' hc') (halive c' hc'))
      · rfl
  · rw [if_neg hfree] at hstep
    cases hstep

/-! ### epoll_wait -/

theorem report_tables (l : Connections) (e : ℕ × Events) :
    (l.report e).fd2chan = l.fd2chan ∧ (l.report e).pc = l.pc := by
  unfold report
  dsimp only
  split <;> exact ⟨rfl, rfl⟩

/-- a report leaves the entry of a connection as its last mask, or as the spent one-shot mask -/
theorem armed_reported {l : Connections} {c : ConnId} (h : Armed l c) :
    ((l.conns c).channel.lastevents = DEFAULT_EVENT ∧
      (l.interest (l.conns c).fd).map reported = some (reported DEFAULT_EVENT)) ∨
    ((l.interest (l.conns c).fd).map reported = l.interest (l.conns c).fd ∧
      l.interest (l.conns c).fd = some (l.conns c).channel.lastevents ∧
      has (l.conns c).channel.lastevents EPOLLONESHOT = false) := by
  rcases h with ⟨hlast, hint | hint⟩ | ⟨hint, hshot⟩
  · exact Or.inl ⟨hlast, by rw [hint]; rfl⟩
  · exact Or.inl ⟨hlast, by rw [hint]; decide⟩
  · exact Or.inr ⟨by rw [hint]; simp [reported, hshot], hint, hshot⟩

theorem report_inv {l : Connections} {e : ℕ × Events} (h : Inv l) (hpc : l.pc = .poll) : Inv (l.report e) := by
  have hhandled : LoopPc.handled l.pc = none := by rw [hpc]; rfl
  cases hc : l.fd2chan e.1 with
  | none =>
    have heq : l.report e = { l with interest := Function.update l.interest e.1 ((l.interest e.1).map reported) } := by
      rw [report]; simp only [hc]
    rw [heq]
    refine h.congr rfl rfl rfl ?_ h.heapOk (fun _ => rfl) rfl rfl hhandled hhandled h.active h.active_nodup
    intro fd hfd
    apply Function.update_of_ne
    rintro rfl
    obtain ⟨c, hhttp⟩ := Option.ne_none_iff_exists'.1 hfd
    rw [(h.registered _ c hhttp).chan] at hc
    cases hc
  | some c =>
    have hhttp := h.chan e.1 c hc
    have hreg := h.registered e.1 c hhttp
    have hsettled := h.settled e.1 c hhttp (by rw [hhandled]; simp)
    set h' : HttpData := { l.conns c with channel := ((l.conns c).channel.setRevents e.2).setEvents 0 }
    have heq : l.report e =
        { l.set c h' with interest := Function.update l.interest e.1 ((l.interest e.1).map reported) } := by
      rw [report]; simp only [hc]; rfl
    rw [heq]
    set l' : Connections :=
      { l.set c h' with interest := Function.update l.interest e.1 ((l.interest e.1).map reported) }
    have hconn : l'.conns c = h' := set_conns_self l c h'
    have hint : l'.interest (l'.conns c).fd = (l.interest (l.conns c).fd).map reported := by
      rw [hconn]
      show Function.update l.interest e.1 _ (l.conns c).fd = _
      rw [hreg.fd_eq, Function.update_self]
    have harmed := armed_reported hreg.armed
    have hothers : Others l l' e.1 c := ⟨fun c' hne => set_conns_of_ne l h' hne, fun _ _ => rfl, fun _ _ => rfl,
      fun _ _ => rfl, fun fd hne => Function.update_of_ne hne _ _, h.heapOk, rfl, rfl⟩
    refine h.update hhttp hothers (.stay hhttp hreg.chan ?_ ?_ ?_) (by rw [hconn]; exact hreg.fd_eq)
      (only_of_none hhandled c) (only_of_none hhandled c) (.refl _) rfl
    · -- armed
      unfold Armed
      rw [hint, hconn]
      rcases harmed with ⟨hlast, hone⟩ | ⟨hsame, hlast, hshot⟩
      · exact Or.inl ⟨hlast, Or.inr hone⟩
      · exact Or.inr ⟨hsame.trans hlast, hshot⟩
    · -- settled
      intro _
      refine ⟨by rw [hconn]; exact hsettled.error, by rw [hconn]; exact hsettled.connstate,
        by rw [hconn]; exact hsettled.timer, ?_⟩
      intro hout
      rw [hconn] at hout
      obtain ⟨m, hm, hmask⟩ := hsettled.out hout
      rw [hint]
      rcases harmed with ⟨hlast, hone⟩ | ⟨hsame, -, -⟩
      · rcases hreg.armed with ⟨-, hd | hd⟩ | ⟨-, hshot⟩
        · rw [hm] at hd; cases hd; exact absurd hmask (by decide)
        · rw [hm] at hd; cases hd; exact absurd hmask (by decide)
        · rw [hlast] at hshot; exact absurd hshot (by decide)
      · exact ⟨m, hsame.trans hm, hmask⟩
    · -- handling
      intro cbs active hcb
      have hcb : l.pc = .callbacks c cbs active := hcb
      rw [hpc] at hcb; cases hcb

theorem poll_inv {l l' : Connections} {events : List (ℕ × Events)} (h : Inv l)
    (hstep : l.step (.poll events) = some l') : Inv l' := by
  simp only [step] at hstep
  by_cases hg : l.pc = .poll ∧ (events.map Prod.fst).Nodup
  · rw [if_pos hg] at hstep
    cases hstep
    obtain ⟨hpc, hnodup⟩ := hg
    have hrun : ∀ (es : List (ℕ × Events)) (k : Connections), Inv k → k.pc = .poll →
        Inv (es.foldl report k) ∧ (es.foldl report k).pc = .poll ∧ (es.foldl report k).fd2chan = k.fd2chan := by
      intro es
      induction es with
      | nil => exact fun k hk hkpc => ⟨hk, hkpc, rfl⟩
      | cons e es ih =>
        intro k hk hkpc
        obtain ⟨hchan, hkpc'⟩ := k.report_tables e
        obtain ⟨h1, h2, h3⟩ := ih (k.report e) (report_inv hk hkpc) (hkpc'.trans hkpc)
        exact ⟨h1, h2, h3.trans hchan⟩
    obtain ⟨hinv, hpc', hchan⟩ := hrun events l h hpc
    have hmem : ∀ fd c, l.fd2chan fd = some c → (events.foldl report l).fd2http fd = some c := by
      intro fd c hc
      exact hinv.chan fd c (by rw [hchan]; exact hc)
    refine hinv.congr rfl rfl rfl (fun _ _ => rfl) hinv.heapOk (fun _ => rfl) rfl ?_ (by rw [hpc']; rfl) rfl ?_ ?_
    · simp [queued, LoopPc.running, hpc']
    · intro c hc
      obtain ⟨e, -, he⟩ := List.mem_filterMap.1 hc
      have hhttp := hmem e.1 c he
      rw [(hinv.registered e.1 c hhttp).fd_eq]
      exact hhttp
    · show (events.filterMap fun e => l.fd2chan e.1).Nodup
      have hmap : (events.filterMap fun e => l.fd2chan e.1) = (events.map Prod.fst).filterMap l.fd2chan := by
        rw [List.filterMap_map]; rfl
      rw [hmap]
      apply hnodup.filterMap
      intro fd fd' c hc hc'
      exact (hinv.registered fd c (hmem fd c hc)).fd_eq.symm.trans (hinv.registered fd' c (hmem fd' c hc')).fd_eq
  · rw [if_neg hg] at hstep
    cases hstep

/-! ## handleEvents and the callbacks -/

theorem nextPc_active (c : ConnId) (cbs : List Callback) (active : List ConnId) :
    (LoopPc.active (nextPc c cbs active)).Sublist (c :: active) := by
  unfold nextPc
  split_ifs
  · exact List.sublist_cons_self c active
  · exact .refl _

theorem nextPc_only (c : ConnId) (cbs : List Callback) (active : List ConnId) :
    LoopPc.Only (nextPc c cbs active) c := by
  unfold nextPc
  split_ifs
  · exact only_of_none rfl c
  · exact only_callbacks rfl

theorem nextPc_running (c : ConnId) (cbs : List Callback) (active : List ConnId) :
    LoopPc.running (nextPc c cbs active) = [] := by
  unfold nextPc
  split_ifs <;> rfl

theorem nextPc_callbacks {c : ConnId} {cbs cbs' : List Callback} {active active' : List ConnId}
    (h : nextPc c cbs active = .callbacks c cbs' active') : cbs' = cbs ∧ active' = active := by
  unfold nextPc at h
  split_ifs at h
  cases h
  exact ⟨rfl, rfl⟩

theorem handleEvents_inv {l l' : Connections} (h : Inv l) (hok : Regular l .handleEvents)
    (hstep : l.step .handleEvents = some l') : Inv l' := by
  cases hpc : l.pc with
  | poll | callbacks | functors => simp [step, hpc] at hstep
  | dispatch active =>
    cases active with
    | nil => simp [step, hpc] at hstep
    | cons c active =>
      simp only [step, hpc, Option.some.injEq] at hstep
      simp only [Regular, regular, hpc, decide_eq_true_eq] at hok
      have hhttp := h.active c (by rw [hpc]; exact List.mem_cons_self)
      have hreg := h.registered _ c hhttp
      have hsettled := h.settled _ c hhttp (by rw [hpc]; simp [LoopPc.handled])
      subst hstep
      set h' : HttpData := { l.conns c with channel := (l.conns c).channel.setEvents 0 }
      set l' : Connections :=
        { l.setEvents c 0 with pc := nextPc c (Channel.dispatch (l.conns c).channel.revents) active }
      have hconn : l'.conns c = h' := set_conns_self l c h'
      have hsettled' : Settled l' c := ⟨by rw [hconn]; exact hsettled.error, by rw [hconn]; exact hsettled.connstate,
        by rw [hconn]; exact hsettled.timer, by rw [hconn]; exact hsettled.out⟩
      have hothers : Others l l' (l.conns c).fd c := ⟨fun c' hne => set_conns_of_ne l h' hne, fun _ _ => rfl,
        fun _ _ => rfl, fun _ _ => rfl, fun _ _ => rfl, h.heapOk, rfl, rfl⟩
      refine h.update hhttp hothers (.stay hhttp hreg.chan ?_ (fun _ => hsettled') ?_) (by rw [hconn])
        (only_of_none (by rw [hpc]; rfl) c) (nextPc_only _ _ _) (by rw [hpc]; exact nextPc_active _ _ _)
        (by rw [hpc]; exact nextPc_running _ _ _)
      · -- armed
        unfold Armed
        rw [hconn]; exact hreg.armed
      · -- handling
        intro cbs act hcb
        have hcb : nextPc c (Channel.dispatch (l.conns c).channel.revents) active = .callbacks c cbs act := hcb
        rw [(nextPc_callbacks hcb).1]
        rcases Channel.dispatch_cases (l.conns c).channel.revents with hnil | herr | ⟨pre, hpre, hcbs⟩
        · rw [hnil] at hcb; cases hcb
        · rw [herr]; exact .error hsettled'
        · rw [hpre]
          refine .before hcbs (by rw [hsettled'.connstate]; simp) (Or.inl hsettled'.timer)
            (fun _ => Or.inl (by rw [hconn]; rfl)) ?_
          intro hnil _ hout
          rw [hpre, hnil] at hok
          rw [hconn] at hout
          exact absurd (hok rfl) hout

/-- **The read and the write callback.** -/
theorem leave_inv {l : Connections} {c : ConnId} {cb : Callback} {pre : List Callback} {active : List ConnId} {ctx : Ctx}
    {io : Io} (h : Inv l) (hpc : l.pc = .callbacks c (cb :: (pre ++ [.conn])) active)
    (hpre : ∀ cb ∈ pre, cb = .read ∨ cb = .write) (hconn : (l.conns c).connstate ≠ .disconnected)
    (htimer : Linked l.heap c (l.conns c).timer) (hmask : (l.conns c).MaskOk) (hw : Ctx.Watched (l.enter c io) ctx)
    (hasks : ctx.http.Asks) : Inv { l.leave c ctx with pc := nextPc c (pre ++ [.conn]) active } := by
  have hhttp := h.active c (by rw [hpc]; exact List.mem_cons_self)
  have hreg := h.registered _ c hhttp
  set l' : Connections := { l.leave c ctx with pc := nextPc c (pre ++ [.conn]) active }
  have hself : l'.conns c = ctx.http := set_conns_self l c ctx.http
  have hfd : ctx.http.fd = (l.conns c).fd := hw.fd
  obtain ⟨hheap, hlinked, hothers⟩ : HeapOk ctx.timers l.nextTimer ∧ Linked ctx.timers c ctx.http.timer ∧
      ∀ c', c' ≠ c → holders ctx.timers c' = holders l.heap c' := by
    rcases hw.timer with ⟨hheap, hlink⟩ | ⟨hheap, hlink⟩
    · rw [hheap, hlink]
      exact ⟨h.heapOk, htimer, fun _ _ => rfl⟩
    · obtain ⟨hnone, hothers⟩ := htimer.holders_resetTimer h.heapOk
      rw [hheap, hlink]
      exact ⟨h.heapOk.resetTimer _, Or.inr ⟨hnone, rfl⟩, hothers⟩
  have hnext : l'.pc = .callbacks c (pre ++ [.conn]) active := if_neg (by simp)
  have houtside : Others l l' (l.conns c).fd c := ⟨fun c' hne => set_conns_of_ne l ctx.http hne, hothers,
    fun _ _ => rfl, fun _ _ => rfl, fun _ _ => rfl, hheap, rfl, rfl⟩
  refine h.update hhttp houtside (.stay hhttp hreg.chan ?_ ?_ ?_) (by rw [hself]; exact hfd) (only_callbacks hpc)
    (only_callbacks hnext) (by rw [hpc]; exact nextPc_active _ _ _) (by rw [hpc]; exact nextPc_running _ _ _)
  · -- armed
    unfold Armed
    rw [hself, hfd, hw.lastevents]
    exact hreg.armed
  · -- settled
    intro hn
    rw [hnext] at hn
    exact absurd rfl hn
  · -- handling
    intro cbs act hcb
    rw [hnext] at hcb
    cases hcb
    exact .before hpre (by rw [hself]; exact hw.connstate hconn) (by rw [hself]; exact hlinked)
      (by rw [hself]; exact hw.mask hmask) fun _ => by rw [hself]; exact hasks

/-! ### handleConn -/

theorem epollMod_eq (l : Connections) (c : ConnId) (ev : Events) {t : ℕ} (ht : 0 < t) (now : Timeval) :
    (l.setEvents c ev).epollMod c t now =
      { l.set c { l.conns c with
          channel := { (l.conns c).channel with events := ev, lastevents := ev }, timer := some l.nextTimer } with
        heap := .new l.nextTimer c t now :: l.heap
        nextTimer := l.nextTimer + 1
        interest := if (l.conns c).channel.lastevents = ev then l.interest
          else Function.update l.interest (l.conns c).fd (some ev) } := by
  unfold epollMod
  rw [if_pos ht]
  by_cases heq : (l.conns c).channel.lastevents = ev <;>
    simp [addTimer, setEvents, set, Channel.equalAndUpdateLastEvents, Channel.setEvents, heq]

/-- a connection without timer that is armed with a mask and a new timer is in order -/
theorem epollMod_outcome {l : Connections} {c : ConnId} {ev : Events} {t : ℕ} (ht : 0 < t) (now : Timeval)
    (hheap : HeapOk l.heap l.nextTimer) (hhttp : l.fd2http (l.conns c).fd = some c)
    (hchan : l.fd2chan (l.conns c).fd = some c) (harmed : Armed l c) (hfree : holders l.heap c = [])
    (herror : (l.conns c).error = false) (hconn : (l.conns c).connstate = .connected)
    (hshot : has ev EPOLLONESHOT = false) (hout : (l.conns c).outBuffer ≠ [] → has ev EPOLLOUT = true) {pc : LoopPc}
    (hpc : LoopPc.handled pc = none) :
    Others l { (l.setEvents c ev).epollMod c t now with pc := pc } (l.conns c).fd c ∧
      Outcome { (l.setEvents c ev).epollMod c t now with pc := pc } (l.conns c).fd c ∧
      (((l.setEvents c ev).epollMod c t now).conns c).fd = (l.conns c).fd := by
  rw [epollMod_eq l c ev ht now]
  set h' : HttpData := { l.conns c with
    channel := { (l.conns c).channel with events := ev, lastevents := ev }, timer := some l.nextTimer }
  set ints := if (l.conns c).channel.lastevents = ev then l.interest
    else Function.update l.interest (l.conns c).fd (some ev) with hints
  have hint : ints (l.conns c).fd = some ev := by
    rw [hints]
    split_ifs with heq
    · rcases harmed with ⟨hd, -⟩ | ⟨hint, -⟩
      · rw [heq] at hd
        rw [hd] at hshot
        exact absurd hshot (by decide)
      · rw [hint, heq]
    · exact Function.update_self _ _ _
  obtain ⟨hnew, hothers⟩ := holders_addTimer l.heap l.nextTimer c t now
  have hints_ne : ∀ fd, fd ≠ (l.conns c).fd → ints fd = l.interest fd := by
    intro fd hne
    rw [hints]
    split_ifs
    · rfl
    · exact Function.update_of_ne hne _ _
  set l' : Connections := { l.set c h' with
    heap := .new l.nextTimer c t now :: l.heap, nextTimer := l.nextTimer + 1, interest := ints, pc := pc }
  have hself : l'.conns c = h' := set_conns_self l c h'
  have hsettled : Settled l' c := by
    refine ⟨by rw [hself]; exact herror, by rw [hself]; exact hconn, ?_, ?_⟩
    · rw [hself]
      exact ⟨_, by rw [hnew, hfree], rfl⟩
    · intro hne
      rw [hself] at hne ⊢
      exact ⟨ev, hint, hout hne⟩
  refine ⟨⟨fun c' hne => set_conns_of_ne l h' hne, hothers, fun _ _ => rfl, fun _ _ => rfl, hints_ne,
    hheap.addTimer c t now, rfl, rfl⟩, .stay hhttp hchan ?_ (fun _ => hsettled) ?_, ?_⟩
  · -- armed
    right
    rw [hself]
    exact ⟨hint, hshot⟩
  · -- handling
    intro cbs act hcb
    have hcb : pc = .callbacks c cbs act := hcb
    rw [hcb] at hpc; cases hpc
  · have hfd : (l'.conns c).fd = (l.conns c).fd := by rw [hself]
    exact hfd

/-- handleClose of a connection that no timer holds -/
theorem handleClose_outcome {l : Connections} {c : ConnId} (hheap : HeapOk l.heap l.nextTimer)
    (hfree : holders l.heap c = []) {pc : LoopPc} (hpc : LoopPc.handled pc = none) (hgone : c ∉ LoopPc.active pc) :
    Others l { l.handleClose c with pc := pc } (l.conns c).fd c ∧
      Outcome { l.handleClose c with pc := pc } (l.conns c).fd c ∧ ((l.handleClose c).conns c).fd = (l.conns c).fd := by
  set h' : HttpData := { l.conns c with connstate := .disconnected }
  have hself : (l.set c h').conns c = h' := set_conns_self l c h'
  have heq : l.handleClose c = { l.set c h' with
      fd2chan := Function.update l.fd2chan (l.conns c).fd none
      fd2http := Function.update l.fd2http (l.conns c).fd none
      interest := Function.update l.interest (l.conns c).fd none } := by
    show (l.set c h').epollDel c = _
    simp only [epollDel, hself]
    rfl
  rw [heq]
  exact ⟨⟨fun c' hne => set_conns_of_ne l h' hne, fun _ _ => rfl, fun fd hne => Function.update_of_ne hne _ _,
    fun fd hne => Function.update_of_ne hne _ _, fun fd hne => Function.update_of_ne hne _ _, hheap, rfl, rfl⟩,
    .closed (Function.update_self _ _ _) (Function.update_self _ _ _) hfree hpc hgone, by simp only [hself]; rfl⟩

/-- **connCallback_** arms the connection with a new timer or closes it, away from the closing branch. -/
theorem handleConn_inv {l : Connections} {c : ConnId} {active : List ConnId} {now : Timeval} (h : Inv l)
    (hpc : l.pc = .callbacks c [.conn] active) (htimer : Linked l.heap c (l.conns c).timer) (hmask : (l.conns c).MaskOk)
    (hasks : (l.conns c).Asks)
    (hok : ¬ ((l.conns c).error = false ∧ (l.conns c).connstate = .disconnecting ∧
      has (l.conns c).channel.events EPOLLOUT = true)) :
    Inv { l.handleConn c now with pc := .dispatch active } := by
  have hhttp := h.active c (by rw [hpc]; exact List.mem_cons_self)
  have hreg := h.registered _ c hhttp
  have hnodup := h.active_nodup
  rw [hpc] at hnodup
  obtain ⟨hnone, hothers⟩ := htimer.holders_resetTimer h.heapOk
  set h1 : HttpData := { l.conns c with timer := none } with hh1
  set l1 := l.seperateTimer c with hl1
  have hself : l1.conns c = h1 := set_conns_self l c h1
  have hsep : Others l l1 (l.conns c).fd c := ⟨fun c' hne => set_conns_of_ne l h1 hne, hothers, fun _ _ => rfl,
    fun _ _ => rfl, fun _ _ => rfl, h.heapOk.resetTimer _, rfl, rfl⟩
  have hfd : (l1.conns c).fd = (l.conns c).fd := by rw [hself]
  have hheap : HeapOk l1.heap l1.nextTimer := hsep.heapOk
  have harmed : Armed l1 c := by
    unfold Armed
    rw [hself]; exact hreg.armed
  -- each way out of handleConn leaves the others alone and `c` in order or closed
  have hfinish : ∀ l2 : Connections, Others l1 { l2 with pc := .dispatch active } (l1.conns c).fd c ∧
      Outcome { l2 with pc := .dispatch active } (l1.conns c).fd c ∧ (l2.conns c).fd = (l1.conns c).fd →
      Inv { l2 with pc := .dispatch active } := by
    intro l2 ⟨ho, hout, hfd2⟩
    rw [hfd] at ho hout hfd2
    apply h.update hhttp (hsep.trans ho) hout hfd2 (only_callbacks hpc) (only_of_none rfl c)
    · rw [hpc]; exact List.sublist_cons_self c active
    · rw [hpc]; rfl
  have harm : ∀ (ev : Events) (t : ℕ), 0 < t → h1.error = false → h1.connstate = .connected →
      has ev EPOLLONESHOT = false → (h1.outBuffer ≠ [] → has ev EPOLLOUT = true) →
      Inv { (l1.setEvents c ev).epollMod c t now with pc := .dispatch active } := by
    intro ev t ht herror hconn hshot hev
    refine hfinish _ (epollMod_outcome ht now hheap ?_ ?_ harmed hnone (by rw [hself]; exact herror)
      (by rw [hself]; exact hconn) hshot (by rw [hself]; exact hev) rfl)
    · rw [hfd]; exact hhttp
    · rw [hfd]; exact hreg.chan
  show Inv { l1.rearm c now with pc := .dispatch active }
  unfold rearm
  simp only [hself]
  by_cases hopen : h1.error = false ∧ h1.connstate = .connected
  · rw [if_pos hopen]
    obtain ⟨herror, hconn⟩ := hopen
    have hout : h1.outBuffer ≠ [] → has h1.channel.events EPOLLOUT = true := hasks herror
    rcases hmask herror with hev | hev
    · have hev : h1.channel.events = 0 := hev
      have hempty : h1.outBuffer ≠ [] → False := fun hne => by
        have := hout hne
        rw [hev] at this
        exact absurd this (by decide)
      rw [if_neg (by simp [hev])]
      split_ifs
      · exact harm _ _ (by decide) herror hconn (by rw [hev]; decide) fun hne => (hempty hne).elim
      · exact harm _ _ (by decide) herror hconn (by rw [hev]; decide) fun hne => (hempty hne).elim
    · have hev : h1.channel.events = EPOLLOUT := hev
      rw [if_pos (by rw [hev]; decide)]
      refine harm _ _ ?_ herror hconn (by rw [hev]; decide) fun _ => by rw [hev]; decide
      split_ifs <;> decide
  · rw [if_neg hopen, if_neg hok]
    refine hfinish _ (handleClose_outcome hheap hnone rfl ?_)
    exact (List.nodup_cons.1 hnodup).1

theorem callback_inv {l l' : Connections} {reads : List ReadResult} {writes : List WriteResult} {fs : FileSystem}
    {now : Timeval} (h : Inv l) (hok : Regular l (.callback reads writes fs now))
    (hstep : l.step (.callback reads writes fs now) = some l') : Inv l' := by
  cases hpc : l.pc with
  | poll | dispatch | functors => simp [step, hpc] at hstep
  | callbacks c cbs active =>
    have hhandling := h.handling c cbs active hpc
    have hhttp := h.active c (by rw [hpc]; exact List.mem_cons_self)
    cases hhandling with
    | error hsettled =>
      simp only [step, hpc, callback, Option.map_some, Option.some.injEq] at hstep
      subst hstep
      have hreg := h.registered _ c hhttp
      set l' : Connections := { l with pc := nextPc c [] active }
      have hothers : Others l l' (l.conns c).fd c := ⟨fun _ _ => rfl, fun _ _ => rfl, fun _ _ => rfl, fun _ _ => rfl,
        fun _ _ => rfl, h.heapOk, rfl, rfl⟩
      have hout : Outcome l' (l.conns c).fd c := .stay hhttp hreg.chan hreg.armed
        (fun _ => hsettled.congr rfl rfl rfl) fun cbs act hcb => by cases hcb
      apply h.update hhttp hothers hout rfl (only_callbacks hpc) (only_of_none rfl c)
      · rw [hpc]; exact List.sublist_cons_self c active
      · rw [hpc]; rfl
    | @before pre hpre hconn htimer hmask hasks =>
      cases pre with
      | nil =>
        simp only [Regular, regular, hpc, List.nil_append, decide_eq_true_eq] at hok
        simp only [step, hpc, List.nil_append, callback, Option.map_some, Option.some.injEq] at hstep
        subst hstep
        exact handleConn_inv h hpc htimer hmask (hasks rfl) hok
      | cons cb pre =>
        obtain ⟨hcb, hrest⟩ := List.forall_mem_cons.1 hpre
        rcases hcb with rfl | rfl
        · obtain ⟨hw, ha⟩ := (l.enter c ⟨reads, writes, fs, [], [], false⟩).handleRead_interest hconn
          simp only [step, hpc, List.cons_append, callback] at hstep
          split_ifs at hstep
          · cases hstep
          · simp only [Option.map_some, Option.some.injEq] at hstep
            subst hstep
            exact leave_inv h hpc hrest hconn htimer hmask hw ha
        · obtain ⟨hw, ha⟩ := (l.enter c ⟨reads, writes, fs, [], [], false⟩).handleWrite_interest hconn
          simp only [step, hpc, List.cons_append, callback, Option.map_some, Option.some.injEq] at hstep
          subst hstep
          exact leave_inv h hpc hrest hconn htimer hmask hw ha

/-! ## doPendingFunctors and handleExpiredEvent -/

theorem doPendingFunctors_inv {l l' : Connections} (h : Inv l) (hstep : l.step .doPendingFunctors = some l') : Inv l' := by
  simp only [step] at hstep
  by_cases hpc : l.pc = .dispatch []
  · rw [if_pos hpc] at hstep
    cases hstep
    refine h.congr rfl rfl rfl (fun _ _ => rfl) h.heapOk (fun _ => rfl) rfl ?_ (by rw [hpc]; rfl) rfl
      (fun c hc => absurd hc List.not_mem_nil) List.nodup_nil
    simp [queued, LoopPc.running, hpc]
  · rw [if_neg hpc] at hstep
    cases hstep

theorem newEvent_eq (l : Connections) (c : ConnId) (now : Timeval) :
    l.newEvent c now =
      { l.set c { l.conns c with
          channel := { (l.conns c).channel with events := DEFAULT_EVENT, lastevents := DEFAULT_EVENT }
          timer := some l.nextTimer } with
        heap := .new l.nextTimer c DEFAULT_EXPIRED_TIME now :: l.heap
        nextTimer := l.nextTimer + 1
        fd2http := Function.update l.fd2http (l.conns c).fd (some c)
        fd2chan := Function.update l.fd2chan (l.conns c).fd (some c)
        interest := Function.update l.interest (l.conns c).fd (some DEFAULT_EVENT) } := by
  have ht : 0 < DEFAULT_EXPIRED_TIME := by decide
  unfold newEvent epollAdd
  simp [ht, addTimer, setEvents, set, Channel.equalAndUpdateLastEvents, Channel.setEvents]

/-- a connection of the queue has no timer yet, and nobody in the tables is it or has its descriptor -/
theorem Inv.fresh {l : Connections} {c : ConnId} (h : Inv l) (hc : c ∈ l.queued) :
    holders l.heap c = [] ∧ ∀ fd' c', l.fd2http fd' = some c' → fd' ≠ (l.conns c).fd ∧ c' ≠ c := by
  obtain ⟨-, -, hnone⟩ := h.queue c hc
  refine ⟨?_, ?_⟩
  · apply List.eq_nil_iff_forall_not_mem.2
    intro t ht
    obtain ⟨ht, hd⟩ := mem_holders.1 ht
    have hheld := h.held t ht c hd
    rw [hnone] at hheld
    cases hheld
  · intro fd' c' hc'
    have hfdne : fd' ≠ (l.conns c).fd := by
      rintro rfl
      rw [hnone] at hc'; cases hc'
    refine ⟨hfdne, ?_⟩
    rintro rfl
    exact hfdne (h.registered fd' c' hc').fd_eq.symm

theorem newEvent_others {l : Connections} (h : Inv l) (c : ConnId) (now : Timeval) :
    Others l (l.newEvent c now) (l.conns c).fd c := by
  rw [newEvent_eq]
  exact
    { conns := fun c' hne => set_conns_of_ne l _ hne
      holders := (holders_addTimer l.heap l.nextTimer c DEFAULT_EXPIRED_TIME now).2
      http := fun fd' hne => Function.update_of_ne hne _ _
      chan := fun fd' hne => Function.update_of_ne hne _ _
      interest := fun fd' hne => Function.update_of_ne hne _ _
      heapOk := h.heapOk.addTimer c DEFAULT_EXPIRED_TIME now
      pendingFunctors := rfl
      nextConn := rfl }

/-- the connection is in the tables, in order -/
theorem newEvent_self {l : Connections} {c : ConnId} (h : Inv l) (hc : c ∈ l.queued) (now : Timeval) :
    (l.newEvent c now).fd2http (l.conns c).fd = some c ∧ Registered (l.newEvent c now) (l.conns c).fd c ∧
      Settled (l.newEvent c now) c := by
  obtain ⟨hlt, hnew, -⟩ := h.queue c hc
  obtain ⟨hmine, -⟩ := holders_addTimer l.heap l.nextTimer c DEFAULT_EXPIRED_TIME now
  rw [(h.fresh hc).1] at hmine
  rw [newEvent_eq]
  refine ⟨Function.update_self _ _ _, ⟨?_, hlt, Function.update_self _ _ _, Or.inl ⟨?_, Or.inl ?_⟩⟩,
    ⟨?_, ?_, ⟨_, hmine, ?_⟩, fun hout => absurd ?_ hout⟩⟩ <;> simp only [set_conns_self]
  · exact Function.update_self _ _ _
  · rw [hnew]; rfl
  · rw [hnew]; rfl
  · rfl
  · rw [hnew]; rfl

/-- **newEvent** enters a connection of the queue in all the tables. -/
theorem newEvent_inv {l l' : Connections} {now : Timeval} (h : Inv l) (hstep : l.step (.newEvent now) = some l') :
    Inv l' := by
  cases hpc : l.pc with
  | poll | callbacks | dispatch => simp [step, hpc] at hstep
  | functors fs =>
    cases fs with
    | nil => simp [step, hpc] at hstep
    | cons c fs =>
      simp only [step, hpc, Option.some.injEq] at hstep
      have hqueued : l.queued = c :: (fs ++ l.pendingFunctors) := by rw [queued, hpc]; rfl
      have hmem : c ∈ l.queued := by rw [hqueued]; exact List.mem_cons_self
      have hnodup : c ∉ fs ++ l.pendingFunctors ∧ (fs ++ l.pendingFunctors).Nodup :=
        List.nodup_cons.1 (by rw [← hqueued]; exact h.queue_nodup)
      have ho := newEvent_others h c now
      obtain ⟨hhttp, hreg, hsettled⟩ := newEvent_self h hmem now
      obtain ⟨-, hfresh⟩ := h.fresh hmem
      set l1 := l.newEvent c now
      subst hstep
      have hkeep : ∀ fd' c', l.fd2http fd' = some c' → l1.fd2http fd' = some c' := fun fd' c' hc' =>
        (ho.http fd' (hfresh fd' c' hc').1).trans hc'
      have hint : ∀ fd' c', l.fd2http fd' = some c' → l1.interest (l.conns c').fd = l.interest (l.conns c').fd := by
        intro fd' c' hc'
        apply ho.interest
        rw [(h.registered fd' c' hc').fd_eq]; exact (hfresh fd' c' hc').1
      have hentry : ∀ fd' c', l1.fd2http fd' = some c' → fd' = (l.conns c).fd ∧ c' = c ∨ l.fd2http fd' = some c' := by
        intro fd' c' hc'
        by_cases heq : fd' = (l.conns c).fd
        · rw [heq, hhttp] at hc'
          exact Or.inl ⟨heq, (Option.some.inj hc').symm⟩
        · exact Or.inr ((ho.http fd' heq).symm.trans hc')
      have hrest : ∀ c' ∈ fs ++ l1.pendingFunctors, c' ∈ l.queued ∧ c' ≠ c := by
        intro c' hc'
        rw [ho.pendingFunctors] at hc'
        exact ⟨by rw [hqueued]; exact List.mem_cons_of_mem c hc', fun heq => hnodup.1 (heq ▸ hc')⟩
      refine
        { heapOk := ho.heapOk, held := ?_, registered := ?_, chan := ?_, settled := ?_
          handling := fun _ _ _ hcb => by cases hcb
          active := fun c' hc' => absurd hc' List.not_mem_nil, active_nodup := List.nodup_nil, queue := ?_
          queue_nodup := ?_, queue_fds := ?_ }
      · -- held
        intro t ht c' hd
        by_cases heq : c' = c
        · rw [heq]
          change l1.fd2http (l1.conns c).fd = some c
          rw [hreg.fd_eq]; exact hhttp
        · have hm : t ∈ holders l.heap c' := by
            rw [← ho.holders c' heq]; exact mem_holders.2 ⟨ht, hd⟩
          change l1.fd2http (l1.conns c').fd = some c'
          rw [ho.conns c' heq]
          exact hkeep _ c' (h.held t (mem_holders.1 hm).1 c' hd)
      · -- registered
        intro fd' c' hc'
        rcases hentry fd' c' hc' with ⟨rfl, rfl⟩ | hc'
        · exact ⟨hreg.fd_eq, hreg.lt, hreg.chan, hreg.armed.congr rfl rfl⟩
        · have hr := h.registered fd' c' hc'
          obtain ⟨hfdne, hcne⟩ := hfresh fd' c' hc'
          exact ⟨(congrArg HttpData.fd (ho.conns c' hcne)).trans hr.fd_eq, ho.nextConn ▸ hr.lt,
            (ho.chan fd' hfdne).trans hr.chan, hr.armed.congr (ho.conns c' hcne) (hint fd' c' hc')⟩
      · -- chan
        intro fd' c' hc'
        by_cases heq : fd' = (l.conns c).fd
        · rw [heq] at hc' ⊢
          rw [← hc']
          exact hhttp.trans hreg.chan.symm
        · exact hkeep fd' c' (h.chan fd' c' ((ho.chan fd' heq).symm.trans hc'))
      · -- settled
        intro fd' c' hc' _
        rcases hentry fd' c' hc' with ⟨-, rfl⟩ | hc'
        · exact hsettled.congr rfl rfl rfl
        · obtain ⟨-, hcne⟩ := hfresh fd' c' hc'
          exact (h.settled fd' c' hc' (by rw [hpc]; simp [LoopPc.handled])).congr (ho.conns c' hcne) (ho.holders c' hcne)
            (hint fd' c' hc')
      · -- queue
        intro c' hc'
        obtain ⟨hin, hcne⟩ := hrest c' hc'
        obtain ⟨hlt', hnew', hnone'⟩ := h.queue c' hin
        change c' < l1.nextConn ∧ l1.conns c' = .new (l1.conns c').fd ∧ l1.fd2http (l1.conns c').fd = none
        rw [ho.conns c' hcne, ho.nextConn]
        refine ⟨hlt', hnew', (ho.http _ ?_).trans hnone'⟩
        exact fun heq => hcne (h.queue_fds c' hin c hmem heq)
      · -- queue_nodup
        change (fs ++ l1.pendingFunctors).Nodup
        rw [ho.pendingFunctors]; exact hnodup.2
      · -- queue_fds
        intro c1 hc1 c2 hc2 heq
        obtain ⟨hin1, hne1⟩ := hrest c1 hc1
        obtain ⟨hin2, hne2⟩ := hrest c2 hc2
        change (l1.conns c1).fd = (l1.conns c2).fd at heq
        rw [ho.conns c1 hne1, ho.conns c2 hne2] at heq
        exact h.queue_fds c1 hin1 c2 hin2 heq

/-- the timer that is popped closes the connection that it holds -/
theorem pop_inv {l : Connections} {t : Timer} (h : Inv l) (hpc : l.pc = .functors []) (ht : t ∈ l.heap) :
    Inv (l.pop t) := by
  have hhandled : LoopPc.handled l.pc = none := by rw [hpc]; rfl
  have hactive : LoopPc.active l.pc = [] := by rw [hpc]; rfl
  cases hd : t.httpdata with
  | none =>
    have heq : l.pop t = { l with heap := l.heap.erase t } := by simp only [pop, hd]
    rw [heq]
    exact h.congr rfl rfl rfl (fun _ _ => rfl) (h.heapOk.erase t) (fun c => holders_erase_of_ne (by rw [hd]; simp)) rfl rfl
      hhandled hhandled h.active h.active_nodup
  | some c =>
    have hhttp := h.held t ht c hd
    have hreg := h.registered _ c hhttp
    have hsettled := h.settled _ c hhttp (by rw [hhandled]; simp)
    set l1 : Connections := { l with heap := l.heap.erase t } with hl1
    have heq : l.pop t = { l1.handleClose c with pc := l.pc } := by simp only [pop, hd]; rfl
    have hfree : holders l1.heap c = [] := by
      obtain ⟨u, hu, -⟩ := hsettled.timer
      have htu : t ∈ holders l.heap c := mem_holders.2 ⟨ht, hd⟩
      rw [hu, List.mem_singleton] at htu
      exact holders_erase_self (htu ▸ hu)
    have herase : Others l l1 (l.conns c).fd c := ⟨fun _ _ => rfl,
      fun c' hne => holders_erase_of_ne (by rw [hd]; exact fun he => hne (Option.some.inj he).symm), fun _ _ => rfl,
      fun _ _ => rfl, fun _ _ => rfl, h.heapOk.erase t, rfl, rfl⟩
    obtain ⟨ho, hout, hfd⟩ := handleClose_outcome herase.heapOk hfree hhandled
      (show c ∉ LoopPc.active l.pc by rw [hactive]; exact List.not_mem_nil)
    rw [heq]
    exact h.update hhttp (herase.trans ho) hout hfd (only_of_none hhandled c) (only_of_none hhandled c) (.refl _) rfl

theorem handleExpired_inv {l l' : Connections} {top : Option Timer} {now : Timeval} (h : Inv l)
    (hstep : l.step (.handleExpired top now) = some l') : Inv l' := by
  by_cases hpc : l.pc = .functors []
  · have hend : Inv { l with pc := .poll } :=
      h.congr rfl rfl rfl (fun _ _ => rfl) h.heapOk (fun _ => rfl) rfl (by simp [queued, LoopPc.running, hpc])
        (by rw [hpc]; rfl) rfl (fun c hc => absurd hc List.not_mem_nil) List.nodup_nil
    cases top with
    | none =>
      simp only [step, if_pos hpc] at hstep
      split_ifs at hstep
      cases hstep
      exact hend
    | some t =>
      simp only [step, if_pos hpc] at hstep
      split_ifs at hstep with htop
      · cases hstep
        exact pop_inv h hpc htop.1
      · cases hstep
        exact hend
  · simp [step, hpc] at hstep

/-! ## Runs -/

theorem step_inv {l l' : Connections} {o : Op} (h : Inv l) (hok : Regular l o) (hstep : l.step o = some l') : Inv l' := by
  cases o with
  | accept => exact accept_inv h hstep
  | poll => exact poll_inv h hstep
  | handleEvents => exact handleEvents_inv h hok hstep
  | callback => exact callback_inv h hok hstep
  | doPendingFunctors => exact doPendingFunctors_inv h hstep
  | newEvent => exact newEvent_inv h hstep
  | handleExpired => exact handleExpired_inv h hstep

theorem run_inv {l l' : Connections} {ops : List Op} (h : Inv l) (hok : Machine.Meets step Regular l ops)
    (hrun : Machine.run step l ops = some l') : Inv l' :=
  Machine.run_inv_of_meets (fun _ _ _ h hok hstep => step_inv h hok hstep) h hok hrun

/-- **No leak.** In a run that keeps away from the two branches, at the end of every iteration each connection that is not
closed has its timer and, with unsent output, EPOLLOUT armed. -/
theorem no_leak {l : Connections} {ops : List Op} (hok : Machine.Meets step Regular init ops)
    (hrun : Machine.run step init ops = some l) (hpc : l.pc = .poll) : NoLeak l :=
  (run_inv init_inv hok hrun).noLeak hpc

/-- a new connection with the descriptor 5, and the iteration that runs its newEvent -/
def connect (now : Timeval) : List Op :=
  [.accept 5, .poll [], .doPendingFunctors, .newEvent now,
    .handleExpired (some (.new 0 0 DEFAULT_EXPIRED_TIME now)) now]

/-- an iteration in which the descriptor 5 is readable; handleExpiredEvent drops the timer of newEvent and then sees `top` -/
def readable (reads : List ReadResult) (writes : List WriteResult) (now : Timeval) (top : Option Timer) : List Op :=
  let fs : FileSystem := fun _ => .regular (Cxx.ascii "hello")
  [.poll [(5, EPOLLIN)], .handleEvents, .callback reads writes fs now, .callback [] [] fs now, .doPendingFunctors,
    .handleExpired (some (.reset (.new 0 0 DEFAULT_EXPIRED_TIME now))) now, .handleExpired top now]

def getHello : ReadResult := .data (Cxx.ascii "GET /hello HTTP/1.1\r\nHost: a\r\n\r\n")

/-- a request whose response is written in part -/
def partlyWritten : List Op :=
  connect ⟨0, 0⟩ ++ readable [getHello, .again] [.wrote 10, .again] ⟨0, 0⟩ (some (.new 1 0 DEFAULT_EXPIRED_TIME ⟨0, 0⟩))

/-- the same with the end of the stream behind the request -/
def endOfStream : List Op := connect ⟨0, 0⟩ ++ readable [getHello, .data []] [.wrote 10, .again] ⟨0, 0⟩ none

theorem no_leak_partlyWritten : ∃ l, Machine.run step init partlyWritten = some l ∧ l.fd2http 5 = some 0 ∧
    (l.conns 0).outBuffer ≠ [] ∧ NoLeak l := by
  have hrun : (Machine.run step init partlyWritten).any fun l =>
      l.pc = .poll ∧ l.fd2http 5 = some 0 ∧ (l.conns 0).outBuffer ≠ [] := by decide +kernel
  obtain ⟨l, hl, hfacts⟩ := (Option.any_eq_true _ _).1 hrun
  obtain ⟨hpc, hhttp, hout⟩ := of_decide_eq_true hfacts
  exact ⟨l, hl, hhttp, hout, no_leak (by decide +kernel) hl hpc⟩

/-- no timer holds the connection, and nothing but an error will be reported for it -/
theorem endOfStream_leaks : ∃ l, Machine.run step init endOfStream = some l ∧ l.pc = .poll ∧
    l.interest 5 = some (EPOLLONESHOT ||| EPOLLET) ∧ ¬ NoLeak l := by
  have hrun : (Machine.run step init endOfStream).any fun l =>
      l.pc = .poll ∧ l.interest 5 = some (EPOLLONESHOT ||| EPOLLET) ∧ l.fd2http 5 = some 0 ∧ l.heap = [] := by
    decide +kernel
  obtain ⟨l, hl, hfacts⟩ := (Option.any_eq_true _ _).1 hrun
  obtain ⟨hpc, hint, hhttp, hheap⟩ := of_decide_eq_true hfacts
  refine ⟨l, hl, hpc, hint, ?_⟩
  intro h
  have hcount := (h 5 0 hhttp).1
  rw [hheap] at hcount
  exact absurd hcount (by decide)

end Connections

end Glacier
