/-
The descriptor tables over whole runs: connections are accepted, registered, handled, closed and destroyed in any order, the
kernel gives a closed descriptor to the next connection, and epoll_ctl may fail at every call.
- `Inv`: between two steps the counts are right for what is kept, and what waits in the loop refers to connections that are
  not destroyed;
- `tables_survive_reuse`: the tables refer to the owners of the descriptors, and everything the loop does is proper;
- `req_info_last`: the last reference may be req_info of handleNewConn.
-/
import Glacier.Net.DescriptorInv

namespace Glacier

open Cxx

namespace Descriptors

structure Inv (d : Descriptors) : Prop where
  counted : Counted d []
  active : ∀ c ∈ Connections.LoopPc.active d.pc, d.fd2http (d.conns c).fd = some c
  active_nodup : (Connections.LoopPc.active d.pc).Nodup
  /-- handleConn is the last callback -/
  last : ∀ c cbs active, d.pc = .callbacks c cbs active → .conn ∉ cbs.dropLast
  running : ∀ c ∈ Connections.LoopPc.running d.pc, c ∈ d.functors
  functors : Connections.LoopPc.running d.pc = [] → d.functors = []

theorem inv_init : Inv init where
  counted := by
    have hempty : (init).references = [] := by
      have hslots : (List.range MAXFDS).filterMap (init).fd2http = [] := by
        apply List.filterMap_eq_nil_iff.2
        intro fd _
        rfl
      unfold references
      rw [hslots]
      rfl
    constructor
    · intro c
      rw [hempty]; rfl
    · intro fd c hc
      cases hc
    · intro fd c hc
      cases hc
    · intro fd c
      constructor
      · intro hc; cases hc
      · intro ⟨hc, _⟩; exact absurd hc (lt_irrefl 0)
    · intro c hc
      exact absurd hc (lt_irrefl 0)
    · intro c
      constructor
      · intro hc; cases hc
      · intro ⟨hc, _⟩; exact absurd hc (Nat.not_lt_zero c)
    · intro past a rest heq
      exact absurd heq (by simp [init])
  active := fun _ hc => absurd hc List.not_mem_nil
  active_nodup := List.nodup_nil
  last := fun _ _ _ hc => by cases hc
  running := fun _ hc => absurd hc List.not_mem_nil
  functors := fun _ => rfl

variable {d d' : Descriptors} {extra : List ConnId} {c : ConnId}

/-- no channel is active -/
theorem Inv.quiet (h : Counted d []) (hactive : Connections.LoopPc.active d.pc = [])
    (hrunning : ∀ c ∈ Connections.LoopPc.running d.pc, c ∈ d.functors)
    (hfunctors : Connections.LoopPc.running d.pc = [] → d.functors = []) : Inv d where
  counted := h
  active := by
    rw [hactive]
    intro c hc
    exact absurd hc List.not_mem_nil
  active_nodup := by rw [hactive]; exact List.nodup_nil
  last := by
    intro c cbs active hpc
    rw [hpc] at hactive
    cases hactive
  running := hrunning
  functors := hfunctors

theorem Counted.setPc (h : Counted d extra) (pc : LoopPc) : Counted { d with pc := pc } extra :=
  ⟨h.balanced, h.http, h.chan, h.owner, h.bound, h.closed, h.orderly⟩

/-! ## Accepting -/

/-- whoever is referred to is another connection than the next one -/
theorem Counted.ne_next (h : Counted d extra) {b : ConnId} (hb : 0 < d.refs b) : b ≠ d.nextConn :=
  (h.bound b hb).1.ne

/-- a new connection under a descriptor that no one owns, with its two references: req_info and the functor -/
theorem Counted.accept {fd : ℕ} (h : Counted d []) (hfree : d.owner fd = none) (hlt : fd < MAXFDS)
    (hreq : d.reqInfo = none) :
    Counted (({ d.setConn d.nextConn (.new fd) with
      owner := Function.update d.owner fd (some d.nextConn)
      reqInfo := some d.nextConn
      pendingFunctors := d.pendingFunctors ++ [d.nextConn]
      nextConn := d.nextConn + 1 }.acquire d.nextConn).acquire d.nextConn) [] := by
  have hnew : ¬ 0 < d.refs d.nextConn := fun hlive => h.ne_next hlive rfl
  have hset : ∀ b, b ≠ d.nextConn → (d.toConnections.set d.nextConn (.new fd)).conns b = d.conns b :=
    fun b hb => Connections.set_conns_of_ne _ _ hb
  have hself : (d.toConnections.set d.nextConn (.new fd)).conns d.nextConn = .new fd :=
    Connections.set_conns_self _ _ _
  set refs := UseCount.acquire (UseCount.acquire d.refs d.nextConn) d.nextConn with hrefs
  have hrefs_new : refs d.nextConn ≠ 0 := by
    rw [hrefs, UseCount.acquire, Function.update_self]
    exact Nat.succ_ne_zero _
  have hrefs_old : ∀ b, b ≠ d.nextConn → refs b = d.refs b := by
    intro b hb
    rw [hrefs, UseCount.acquire, Function.update_of_ne hb, UseCount.acquire, Function.update_of_ne hb]
  refine ⟨?_, ?_, h.chan, ?_, ?_, ?_, h.orderly⟩
  · -- balanced
    have hbalanced := (h.balanced.acquire d.nextConn).acquire d.nextConn
    apply hbalanced.perm
    unfold references
    rw [hreq, List.perm_iff_count]
    intro b
    change List.count b (d.nextConn :: d.nextConn :: ([] ++ ((List.range MAXFDS).filterMap d.fd2http ++ (held d.heap ++
      (d.pendingFunctors ++ (d.functors ++ [])))))) = List.count b ([] ++ ((List.range MAXFDS).filterMap d.fd2http ++
        (held d.heap ++ ((d.pendingFunctors ++ [d.nextConn]) ++ (d.functors ++ [d.nextConn])))))
    simp only [List.count_append, List.count_cons, List.count_nil]
    omega
  · -- http
    intro fd' b hb
    have hhttp := h.http fd' b hb
    refine ⟨hhttp.1, ?_⟩
    change ((d.toConnections.set d.nextConn (.new fd)).conns b).fd = fd'
    rw [hset b (h.ne_next (h.live_of_http hb))]; exact hhttp.2
  · -- owner
    intro fd' b
    change Function.update d.owner fd (some d.nextConn) fd' = some b ↔
      0 < refs b ∧ ((d.toConnections.set d.nextConn (.new fd)).conns b).fd = fd'
    by_cases hb : b = d.nextConn
    · subst hb
      rw [hself]
      by_cases hfd : fd' = fd
      · subst hfd
        rw [Function.update_self]
        exact ⟨fun _ => ⟨Nat.pos_of_ne_zero hrefs_new, rfl⟩, fun _ => rfl⟩
      · rw [Function.update_of_ne hfd, h.owner]
        exact ⟨fun hlive => absurd hlive.1 hnew, fun hlive => absurd hlive.2.symm hfd⟩
    · rw [hset b hb, hrefs_old b hb, ← h.owner]
      by_cases hfd : fd' = fd
      · subst hfd
        rw [Function.update_self, hfree]
        exact ⟨fun heq => absurd (Option.some.inj heq).symm hb, fun heq => by cases heq⟩
      · rw [Function.update_of_ne hfd]
  · -- bound
    intro b hb
    change b < d.nextConn + 1 ∧ ((d.toConnections.set d.nextConn (.new fd)).conns b).fd < MAXFDS
    by_cases hbn : b = d.nextConn
    · subst hbn
      rw [hself]
      exact ⟨Nat.lt_succ_self _, hlt⟩
    · have hlive : 0 < d.refs b := by rw [← hrefs_old b hbn]; exact hb
      rw [hset b hbn]
      exact ⟨Nat.lt_succ_of_lt (h.bound b hlive).1, (h.bound b hlive).2⟩
  · -- closed
    intro b
    change b ∈ Glacier.closed d.trace ↔ b < d.nextConn + 1 ∧ refs b = 0
    rw [h.closed]
    by_cases hbn : b = d.nextConn
    · subst hbn
      exact ⟨fun hb => absurd hb.1 (lt_irrefl _), fun hb => absurd hb.2 hrefs_new⟩
    · rw [hrefs_old b hbn]
      have hlt : b < d.nextConn + 1 ↔ b < d.nextConn :=
        ⟨fun hb => lt_of_le_of_ne (Nat.lt_succ_iff.1 hb) hbn, Nat.lt_succ_of_lt⟩
      rw [hlt]

theorem accept_inv {fd : ℕ} (h : Inv d) (hstep : d.step (.accept fd) = some d') : Inv d' := by
  simp only [step] at hstep
  by_cases hg : d.owner fd = none ∧ fd < MAXFDS ∧ d.reqInfo = none
  · rw [if_pos hg] at hstep
    cases hstep
    obtain ⟨hfree, hlt, hreq⟩ := hg
    refine ⟨h.counted.accept hfree hlt hreq, ?_, h.active_nodup, h.last, h.running, h.functors⟩
    -- the active connections are those of before
    intro b hb
    have hactive := h.active b hb
    change d.fd2http ((d.toConnections.set d.nextConn (.new fd)).conns b).fd = some b
    rw [Connections.set_conns_of_ne _ _ (h.counted.ne_next (h.counted.live_of_http hactive))]; exact hactive
  · rw [if_neg hg] at hstep
    cases hstep

theorem endAccept_inv (h : Inv d) (hstep : d.step .endAccept = some d') : Inv d' := by
  simp only [step] at hstep
  obtain ⟨c, hreq, hstep⟩ := Option.map_eq_some_iff.1 hstep
  cases hstep
  have hcounted : Counted { d with reqInfo := none } [c] := by
    refine h.counted.update ?_ (fun _ => Iff.rfl) (fun _ => rfl) h.counted.http h.counted.chan rfl rfl rfl
    apply h.counted.balanced.perm
    unfold references
    dsimp only
    rw [hreq, List.perm_iff_count]
    intro b
    simp only [List.count_append, List.count_cons, Option.toList_some, Option.toList_none, List.count_nil]
    omega
  have hframe : Frame { d with reqInfo := none } ({ d with reqInfo := none }.release c) c :=
    .of_toConnections (release_toConnections _ _) (release_functors _ _)
  have hconns := release_toConnections { d with reqInfo := none } c
  refine ⟨hcounted.release, ?_, ?_, ?_, ?_, ?_⟩
  · rw [hconns]; exact h.active
  · rw [hconns]; exact h.active_nodup
  · rw [hconns]; exact h.last
  · rw [hconns, hframe.functors]; exact h.running
  · rw [hconns, hframe.functors]; exact h.functors

/-! ## Events and callbacks -/

theorem report_fold (events : List (ℕ × Events)) (l : Connections) :
    (events.foldl Connections.report l).fd2http = l.fd2http ∧ (events.foldl Connections.report l).fd2chan = l.fd2chan ∧
      (events.foldl Connections.report l).heap = l.heap ∧
      (events.foldl Connections.report l).pendingFunctors = l.pendingFunctors ∧
      (events.foldl Connections.report l).nextConn = l.nextConn ∧
      ∀ b, ((events.foldl Connections.report l).conns b).fd = (l.conns b).fd := by
  induction events generalizing l with
  | nil => exact ⟨rfl, rfl, rfl, rfl, rfl, fun _ => rfl⟩
  | cons e events ih =>
    have hone : (l.report e).fd2http = l.fd2http ∧ (l.report e).fd2chan = l.fd2chan ∧ (l.report e).heap = l.heap ∧
        (l.report e).pendingFunctors = l.pendingFunctors ∧ (l.report e).nextConn = l.nextConn ∧
        ∀ b, ((l.report e).conns b).fd = (l.conns b).fd := by
      unfold Connections.report
      dsimp only
      cases l.fd2chan e.1 with
      | none => exact ⟨rfl, rfl, rfl, rfl, rfl, fun _ => rfl⟩
      | some c => exact ⟨rfl, rfl, rfl, rfl, rfl, set_fd l rfl⟩
    obtain ⟨h1, h2, h3, h4, h5, h6⟩ := ih (l.report e)
    rw [List.foldl_cons]
    exact ⟨h1.trans hone.1, h2.trans hone.2.1, h3.trans hone.2.2.1, h4.trans hone.2.2.2.1, h5.trans hone.2.2.2.2.1,
      fun b => (h6 b).trans (hone.2.2.2.2.2 b)⟩

theorem poll_inv {events : List (ℕ × Events)} (h : Inv d) (hstep : d.step (.poll events) = some d') : Inv d' := by
  simp only [step] at hstep
  by_cases hg : d.pc = .poll ∧ (events.map Prod.fst).Nodup
  · rw [if_pos hg] at hstep
    cases hstep
    obtain ⟨hhttp, hchan, hheap, hpending, hnext, hfd⟩ := report_fold events d.toConnections
    have hentry := h.counted.chan
    refine ⟨?_, ?_, ?_, ?_, ?_, fun _ => ?_⟩
    · refine h.counted.update ?_ (fun _ => Iff.rfl) hfd ?_ ?_ rfl hnext rfl
      · unfold references
        dsimp only
        rw [hhttp, hheap, hpending]
        exact h.counted.balanced
      · dsimp only
        rw [hhttp]; exact h.counted.http
      · dsimp only
        rw [hhttp, hchan]; exact hentry
    · intro c hc
      obtain ⟨e, -, he⟩ := List.mem_filterMap.1 hc
      dsimp only
      rw [hhttp, hfd, (h.counted.http _ c (hentry e.1 c he)).2]
      exact hentry e.1 c he
    · change (events.filterMap fun e => d.fd2chan e.1).Nodup
      have hmap : (events.filterMap fun e => d.fd2chan e.1) = (events.map Prod.fst).filterMap d.fd2chan := by
        rw [List.filterMap_map]; rfl
      rw [hmap]
      apply hg.2.filterMap
      intro fd fd' c hc hc'
      exact (h.counted.http fd c (hentry fd c hc)).2.symm.trans (h.counted.http fd' c (hentry fd' c hc')).2
    · intro c cbs active hpc
      cases hpc
    · intro c hc
      exact absurd hc List.not_mem_nil
    · exact h.functors (by rw [hg.1]; rfl)
  · rw [if_neg hg] at hstep
    cases hstep

/-- a step that handles `c`, the first of the active channels -/
theorem Inv.next {e : Descriptors} {active : List ConnId} (h : Inv d) (he : Counted e []) (hframe : Frame d e c)
    (hactive : Connections.LoopPc.active d.pc = c :: active) (hrunning : Connections.LoopPc.running d.pc = [])
    {cbs : List Callback} (hlast : .conn ∉ cbs.dropLast) (hself : cbs ≠ [] → e.fd2http (d.conns c).fd = some c) :
    Inv { e with pc := Connections.nextPc c cbs active } := by
  have hnodup := h.active_nodup
  have hhttp := h.active
  rw [hactive] at hnodup hhttp
  have hothers : ∀ b ∈ active, e.fd2http (e.conns b).fd = some b := by
    intro b hb
    have hentry := hhttp b (List.mem_cons_of_mem _ hb)
    have hne : (d.conns b).fd ≠ (d.conns c).fd := by
      intro heq
      rw [heq, hhttp c List.mem_cons_self] at hentry
      cases hentry
      exact (List.nodup_cons.1 hnodup).1 hb
    rw [hframe.fd, hframe.http _ hne]; exact hentry
  refine ⟨he.setPc _, ?_, hnodup.sublist (Connections.nextPc_active c cbs active), ?_, ?_, fun _ => ?_⟩
  · intro b hb
    change b ∈ Connections.LoopPc.active (Connections.nextPc c cbs active) at hb
    change e.fd2http (e.conns b).fd = some b
    unfold Connections.nextPc at hb
    by_cases hcbs : cbs = []
    · rw [if_pos hcbs] at hb
      exact hothers b hb
    · rw [if_neg hcbs] at hb
      rcases List.mem_cons.1 hb with rfl | hb
      · rw [hframe.fd]; exact hself hcbs
      · exact hothers b hb
  · intro b cbs' active' hpc
    change Connections.nextPc c cbs active = .callbacks b cbs' active' at hpc
    unfold Connections.nextPc at hpc
    split_ifs at hpc
    cases hpc
    exact hlast
  · intro b hb
    change b ∈ Connections.LoopPc.running (Connections.nextPc c cbs active) at hb
    rw [Connections.nextPc_running] at hb
    exact absurd hb List.not_mem_nil
  · change e.functors = []
    rw [hframe.functors]; exact h.functors hrunning

/-- handleEvents calls connCallback_ last -/
theorem dispatch_last (revents : Events) : .conn ∉ (Channel.dispatch revents).dropLast := by
  rcases Channel.dispatch_cases revents with hnil | herr | ⟨pre, hpre, hcbs⟩
  · rw [hnil]; simp
  · rw [herr]; simp
  · rw [hpre, List.dropLast_concat]
    intro hc
    rcases hcbs _ hc with hcb | hcb <;> cases hcb

theorem handleEvents_inv (h : Inv d) (hstep : d.step .handleEvents = some d') : Inv d' := by
  simp only [step] at hstep
  split at hstep
  · rename_i c active hpc
    cases hstep
    have hentry := h.active c (by rw [hpc]; exact List.mem_cons_self)
    exact h.next (h.counted.setEvents 0) (setEvents_frame d c 0) (by rw [hpc]; rfl) (by rw [hpc]; rfl) (dispatch_last _)
      fun _ => hentry
  · cases hstep

theorem callback_inv {reads : List ReadResult} {writes : List WriteResult} {fs : FileSystem} {now : Timeval} {ok : Bool}
    (h : Inv d) (hstep : d.step (.callback reads writes fs now ok) = some d') : Inv d' := by
  simp only [step] at hstep
  split at hstep
  · rename_i c cb cbs active hpc
    obtain ⟨e, he, hstep⟩ := Option.map_eq_some_iff.1 hstep
    cases hstep
    have hentry := h.active c (by rw [hpc]; exact List.mem_cons_self)
    have hactive : Connections.LoopPc.active d.pc = c :: active := by rw [hpc]; rfl
    have hrunning : Connections.LoopPc.running d.pc = [] := by rw [hpc]; rfl
    have hlast := h.last c (cb :: cbs) active hpc
    have hrest : .conn ∉ cbs.dropLast := by
      cases cbs with
      | nil => simp
      | cons cb' cbs => exact fun hc => hlast (List.mem_cons_of_mem _ hc)
    unfold callback at he
    cases cb with
    | read =>
      dsimp only at he
      split_ifs at he
      cases he
      obtain ⟨hcounted, hframe, hhttp⟩ := h.counted.member hentry (Ctx.handleRead_detaches _)
      exact h.next hcounted hframe hactive hrunning hrest fun _ => by rw [hhttp]; exact hentry
    | write =>
      cases he
      obtain ⟨hcounted, hframe, hhttp⟩ := h.counted.member hentry (Ctx.handleWrite_frame _).detaches
      exact h.next hcounted hframe hactive hrunning hrest fun _ => by rw [hhttp]; exact hentry
    | error =>
      cases he
      exact h.next h.counted (.of_toConnections rfl rfl) hactive hrunning hrest fun _ => hentry
    | conn =>
      cases he
      have hcbs : cbs = [] := by
        cases cbs with
        | nil => rfl
        | cons cb' cbs => exact absurd List.mem_cons_self hlast
      obtain ⟨hcounted, hframe⟩ := h.counted.handleConn hentry now ok
      exact h.next hcounted hframe hactive hrunning hrest fun hne => absurd hcbs hne
  · cases hstep

/-! ## Functors and timers -/

theorem doPendingFunctors_inv (h : Inv d) (hstep : d.step .doPendingFunctors = some d') : Inv d' := by
  simp only [step] at hstep
  by_cases hpc : d.pc = .dispatch []
  · rw [if_pos hpc] at hstep
    cases hstep
    have hfunctors : d.functors = [] := h.functors (by rw [hpc]; rfl)
    refine .quiet ?_ rfl (fun _ hc => hc) fun hc => hc
    refine h.counted.update ?_ (fun _ => Iff.rfl) (fun _ => rfl) h.counted.http h.counted.chan rfl rfl rfl
    apply h.counted.balanced.perm
    unfold references
    dsimp only
    rw [hfunctors]
    simp only [List.nil_append, List.Perm.refl]
  · rw [if_neg hpc] at hstep
    cases hstep

theorem Counted.endFunctors (h : Counted d []) (fs : List ConnId) :
    Counted (d.endFunctors fs) [] ∧ (fs = [] → (d.endFunctors fs).functors = []) ∧
      (fs ≠ [] → (d.endFunctors fs).functors = d.functors) := by
  unfold Descriptors.endFunctors
  by_cases hfs : fs = []
  · rw [if_pos hfs]
    refine ⟨?_, fun _ => releaseAll_functors _ _, fun hne => absurd hfs hne⟩
    apply Counted.releaseAll
    refine h.update ?_ (fun _ => Iff.rfl) (fun _ => rfl) h.http h.chan rfl rfl rfl
    apply h.balanced.perm
    unfold references
    dsimp only
    rw [List.perm_iff_count]
    intro b
    simp only [List.count_append, List.count_nil]
    omega
  · rw [if_neg hfs]
    exact ⟨h, fun hnil => absurd hnil hfs, fun _ => rfl⟩

theorem newEvent_inv {now : Timeval} {ok : Bool} (h : Inv d) (hstep : d.step (.newEvent now ok) = some d') : Inv d' := by
  simp only [step] at hstep
  split at hstep
  · rename_i c fs hpc
    cases hstep
    have hrunning : ∀ b ∈ c :: fs, b ∈ d.functors := by
      intro b hb
      exact h.running b (by rw [hpc]; exact hb)
    have hlive : 0 < d.refs c :=
      h.counted.live_of_reference
        (mem_references.2 (Or.inr (Or.inr (Or.inr (Or.inl (hrunning c List.mem_cons_self))))))
    obtain ⟨hadded, hframe⟩ := h.counted.newEvent hlive now ok
    obtain ⟨hended, hnone, hsame⟩ := hadded.endFunctors fs
    refine .quiet (hended.setPc _) rfl ?_ hnone
    intro b hb
    change b ∈ fs at hb
    change b ∈ ((d.newEvent c now ok).endFunctors fs).functors
    rw [hsame (List.ne_nil_of_mem hb), hframe.functors]
    exact hrunning b (List.mem_cons_of_mem _ hb)
  · cases hstep

theorem handleExpired_inv {top : Option Timer} {now : Timeval} {ok : Bool} (h : Inv d)
    (hstep : d.step (.handleExpired top now ok) = some d') : Inv d' := by
  simp only [step] at hstep
  by_cases hpc : d.pc = .functors []
  · rw [if_pos hpc] at hstep
    have hfunctors : d.functors = [] := h.functors (by rw [hpc]; rfl)
    -- back in epoll_wait
    have hend : Inv { d with pc := .poll } :=
      .quiet (h.counted.setPc _) rfl (fun _ hc => absurd hc List.not_mem_nil) fun _ => hfunctors
    cases top with
    | none =>
      dsimp only at hstep
      split_ifs at hstep
      cases hstep
      exact hend
    | some t =>
      dsimp only at hstep
      split_ifs at hstep with htop
      · cases hstep
        obtain ⟨hcounted, hf, hp⟩ := h.counted.pop htop.1 ok
        rw [hpc] at hp
        rw [hfunctors] at hf
        refine .quiet hcounted (by rw [hp]; rfl) ?_ fun _ => hf
        rw [hp]
        intro b hb
        exact absurd hb List.not_mem_nil
      · cases hstep
        exact hend
  · rw [if_neg hpc] at hstep
    cases hstep

/-! ## Runs -/

theorem step_inv {o : Op} (h : Inv d) (hstep : d.step o = some d') : Inv d' := by
  cases o with
  | accept => exact accept_inv h hstep
  | endAccept => exact endAccept_inv h hstep
  | poll => exact poll_inv h hstep
  | handleEvents => exact handleEvents_inv h hstep
  | callback => exact callback_inv h hstep
  | doPendingFunctors => exact doPendingFunctors_inv h hstep
  | newEvent => exact newEvent_inv h hstep
  | handleExpired => exact handleExpired_inv h hstep

theorem run_inv {ops : List Op} (hrun : Machine.run step init ops = some d) : Inv d :=
  Machine.run_inv (fun _ _ _ h hstep => step_inv h hstep) inv_init hrun

/-- **Descriptor reuse.** In every state that a run reaches the table entries refer to the connections that own the
descriptors. Every epoll_del has cleared no entry of another connection; every descriptor was closed by its owner, for the
first time, when no entry and no reference was left; no member function has run on a destroyed object. And the connections
that have closed their descriptor are those that nothing refers to any more. -/
theorem tables_survive_reuse {ops : List Op} (hrun : Machine.run step init ops = some d) :
    d.tables.Sound ∧ Orderly d.trace ∧ ∀ c < d.nextConn, c ∈ closed d.trace ↔ ¬ d.tables.Referred c := by
  have h := (run_inv hrun).counted
  refine ⟨h.sound, h.orderly, ?_⟩
  intro c hc
  have hcount : d.refs c = 0 ↔ c ∉ [] ++ d.references := h.balanced.eq_zero_iff
  rw [List.nil_append] at hcount
  rw [h.closed, hcount, h.referred_iff]
  exact and_iff_right hc

def noFiles : FileSystem := fun _ => .absent

/-- a peer that hangs up at once, while handleNewConn still holds req_info -/
def hangsUp : List Op :=
  [.accept 5, .poll [], .doPendingFunctors, .newEvent ⟨0, 0⟩ true,
    .handleExpired (some (.new 0 0 2000 ⟨0, 0⟩)) ⟨0, 0⟩ true, .poll [(5, EPOLLIN)], .handleEvents,
    .callback [.data []] [] noFiles ⟨0, 0⟩ true, .callback [] [] noFiles ⟨0, 0⟩ true]

/-- the kernel gives the descriptor to a second connection, and epoll_ctl fails for it -/
theorem tables_survive_reuse_twice :
    ∃ d, Machine.run step init (hangsUp ++ [.endAccept, .accept 5, .doPendingFunctors, .newEvent ⟨1, 0⟩ false]) = some d ∧
      (closed d.trace = [0] ∧ d.owner 5 = some 1 ∧ d.fd2chan 5 = none ∧ d.fd2http 5 = some 1) ∧
      d.tables.Sound ∧ Orderly d.trace ∧ ∀ c < d.nextConn, c ∈ closed d.trace ↔ ¬ d.tables.Referred c := by
  have hend : (Machine.run step init (hangsUp ++ [.endAccept, .accept 5, .doPendingFunctors, .newEvent ⟨1, 0⟩ false])).map
      (fun d => (closed d.trace, d.owner 5, d.fd2chan 5, d.fd2http 5)) = some ([0], some 1, none, some 1) := by
    decide +kernel
  obtain ⟨d, hrun, hfields⟩ := Option.map_eq_some_iff.1 hend
  simp only [Prod.mk.injEq] at hfields
  exact ⟨d, hrun, hfields, tables_survive_reuse hrun⟩

/-- nothing in the loop refers to the connection any more, and its descriptor is open -/
theorem req_info_last :
    ∃ d, Machine.run step init hangsUp = some d ∧ ¬ d.tables.Held 0 ∧ 0 ∉ closed d.trace ∧ d.owner 5 = some 0 := by
  have hend : (Machine.run step init hangsUp).map (fun d => (((d.conns 0).fd, d.fd2http 5, d.owner 5),
      (held d.heap ++ d.pendingFunctors ++ d.functors, closed d.trace))) = some ((5, none, some 0), ([], [])) := by
    decide +kernel
  obtain ⟨d, hrun, hfields⟩ := Option.map_eq_some_iff.1 hend
  simp only [Prod.mk.injEq, List.append_eq_nil_iff] at hfields
  obtain ⟨⟨hfd, hhttp, howner⟩, ⟨⟨hheld, hpending⟩, hfunctors⟩, hclosed⟩ := hfields
  refine ⟨d, hrun, ?_, ?_, howner⟩
  · rintro (⟨fd, hentry⟩ | htimer | hqueued | hrunning)
    · have hown := ((run_inv hrun).counted.http fd 0 hentry).2
      rw [hfd] at hown
      subst hown
      change d.fd2http 5 = some 0 at hentry
      rw [hhttp] at hentry
      cases hentry
    · have hmem : 0 ∈ held d.heap := mem_held.2 htimer
      rw [hheld] at hmem
      cases hmem
    · change 0 ∈ d.pendingFunctors at hqueued
      rw [hpending] at hqueued
      cases hqueued
    · change 0 ∈ d.functors at hrunning
      rw [hfunctors] at hrunning
      cases hrunning
  · rw [hclosed]; exact List.not_mem_nil

end Descriptors

end Glacier
