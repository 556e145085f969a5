/-
The invariant of the connections between two steps of the loop.

A connection whose callbacks are running is in between: its timer may be detached, and its mask is 0 or what it asks for.
`Settled` is what holds of every other connection, `Handling` what holds of this one, `Inv` what holds of them all.

A step works on one connection or on none. `Inv.update` and `Inv.congr` carry the invariant over the two kinds: `Others`
says what a step leaves to all other connections, `Outcome` that its own stays in order or is closed.
-/
import Glacier.Net.Connections
import Glacier.Http.Interest

namespace Glacier

namespace Connections

/-! ## The property and the condition -/

/-- every connection that is not closed has exactly one timer that is not deleted and holds it, and if it has unsent output
the mask armed in the kernel contains EPOLLOUT -/
def NoLeak (l : Connections) : Prop :=
  ∀ fd c, l.fd2http fd = some c →
    (l.heap.countP fun t => t.deleted = false ∧ t.httpdata = some c) = 1 ∧
      ((l.conns c).outBuffer ≠ [] → ∃ m, l.interest fd = some m ∧ has m EPOLLOUT = true)

/-- The step keeps away from two branches: handleEvents for a mask that selects connCallback_ alone, while there is unsent
output; and connCallback_ for a connection without error that is closing and asks for EPOLLOUT. -/
def regular (l : Connections) : Op → Bool
  | .handleEvents =>
    match l.pc with
    | .dispatch (c :: _) => Channel.dispatch (l.conns c).channel.revents = [.conn] → (l.conns c).outBuffer = []
    | _ => true
  | .callback _ _ _ _ =>
    match l.pc with
    | .callbacks c (.conn :: _) _ =>
      ¬ ((l.conns c).error = false ∧ (l.conns c).connstate = .disconnecting ∧
        has (l.conns c).channel.events EPOLLOUT = true)
    | _ => true
  | _ => true

/-- the steps that `regular` allows -/
abbrev Regular (l : Connections) (o : Op) : Prop := l.regular o = true

/-! ## The invariant -/

/-- the kernel's entry is the last mask, unless that was the one-shot mask of newEvent -/
def Armed (l : Connections) (c : ConnId) : Prop :=
  ((l.conns c).channel.lastevents = DEFAULT_EVENT ∧
    (l.interest (l.conns c).fd = some DEFAULT_EVENT ∨ l.interest (l.conns c).fd = some (reported DEFAULT_EVENT))) ∨
  (l.interest (l.conns c).fd = some (l.conns c).channel.lastevents ∧
    has (l.conns c).channel.lastevents EPOLLONESHOT = false)

/-- `c` is in the tables under its descriptor -/
structure Registered (l : Connections) (fd : ℕ) (c : ConnId) : Prop where
  fd_eq : (l.conns c).fd = fd
  lt : c < l.nextConn
  chan : l.fd2chan fd = some c
  armed : Armed l c

/-- `c` is in order and no callback of it is running -/
structure Settled (l : Connections) (c : ConnId) : Prop where
  error : (l.conns c).error = false
  connstate : (l.conns c).connstate = .connected
  timer : ∃ t, holders l.heap c = [t] ∧ (l.conns c).timer = some t.id
  out : (l.conns c).outBuffer ≠ [] → ∃ m, l.interest (l.conns c).fd = some m ∧ has m EPOLLOUT = true

/-- what holds of `c` before its callbacks `cbs` -/
inductive Handling (l : Connections) (c : ConnId) : List Callback → Prop where
  /-- errorCallback_ does nothing -/
  | error (h : Settled l c) : Handling l c [.error]
  | before {pre : List Callback} (hpre : ∀ cb ∈ pre, cb = .read ∨ cb = .write)
      (hconn : (l.conns c).connstate ≠ .disconnected) (htimer : Linked l.heap c (l.conns c).timer)
      (hmask : (l.conns c).MaskOk) (hasks : pre = [] → (l.conns c).Asks) : Handling l c (pre ++ [.conn])

/-- the connection whose callbacks are running -/
def LoopPc.handled : LoopPc → Option ConnId
  | .callbacks c _ _ => some c
  | _ => none

/-- no callback runs, or those of `c` do -/
def LoopPc.Only (pc : LoopPc) (c : ConnId) : Prop := ∀ c', LoopPc.handled pc = some c' → c' = c

/-- the active channels that are not handled yet, with the one that is being handled -/
def LoopPc.active : LoopPc → List ConnId
  | .callbacks c _ active => c :: active
  | .dispatch active => active
  | _ => []

/-- the connections whose newEvent is still to run -/
def queued (l : Connections) : List ConnId := LoopPc.running l.pc ++ l.pendingFunctors

structure Inv (l : Connections) : Prop where
  heapOk : HeapOk l.heap l.nextTimer
  held : ∀ t ∈ l.heap, ∀ c, t.httpdata = some c → l.fd2http (l.conns c).fd = some c
  registered : ∀ fd c, l.fd2http fd = some c → Registered l fd c
  chan : ∀ fd c, l.fd2chan fd = some c → l.fd2http fd = some c
  settled : ∀ fd c, l.fd2http fd = some c → LoopPc.handled l.pc ≠ some c → Settled l c
  handling : ∀ c cbs active, l.pc = .callbacks c cbs active → Handling l c cbs
  active : ∀ c ∈ LoopPc.active l.pc, l.fd2http (l.conns c).fd = some c
  active_nodup : (LoopPc.active l.pc).Nodup
  queue : ∀ c ∈ l.queued, c < l.nextConn ∧ l.conns c = .new (l.conns c).fd ∧ l.fd2http (l.conns c).fd = none
  queue_nodup : l.queued.Nodup
  queue_fds : ∀ c ∈ l.queued, ∀ c' ∈ l.queued, (l.conns c).fd = (l.conns c').fd → c = c'

theorem Inv.noLeak {l : Connections} (h : Inv l) (hpc : l.pc = .poll) : NoLeak l := by
  intro fd c hc
  have hsettled := h.settled fd c hc (by rw [hpc]; simp [LoopPc.handled])
  have hfd := (h.registered fd c hc).fd_eq
  obtain ⟨t, ht, -⟩ := hsettled.timer
  refine ⟨?_, fun hout => hfd ▸ hsettled.out hout⟩
  have hcount : (l.heap.countP fun t => t.deleted = false ∧ t.httpdata = some c) = (holders l.heap c).length := by
    rw [holders, ← List.countP_eq_length_filter]
    apply List.countP_congr
    intro u hu
    simp only [decide_eq_true_eq, and_iff_right_iff_imp]
    exact fun hd => h.heapOk.live u hu (by rw [hd]; simp)
  rw [hcount, ht, List.length_singleton]

@[simp] theorem set_conns_self (l : Connections) (c : ConnId) (h : HttpData) : (l.set c h).conns c = h := by
  simp [set]

theorem set_conns_of_ne (l : Connections) {c c' : ConnId} (h : HttpData) (hne : c' ≠ c) :
    (l.set c h).conns c' = l.conns c' := by
  simp [set, hne]

/-! ## Steps of one connection -/

/-- what a step of the connection `c` with the descriptor `fd` leaves to all others -/
structure Others (l l' : Connections) (fd : ℕ) (c : ConnId) : Prop where
  conns : ∀ c', c' ≠ c → l'.conns c' = l.conns c'
  holders : ∀ c', c' ≠ c → holders l'.heap c' = holders l.heap c'
  http : ∀ fd', fd' ≠ fd → l'.fd2http fd' = l.fd2http fd'
  chan : ∀ fd', fd' ≠ fd → l'.fd2chan fd' = l.fd2chan fd'
  interest : ∀ fd', fd' ≠ fd → l'.interest fd' = l.interest fd'
  heapOk : HeapOk l'.heap l'.nextTimer
  pendingFunctors : l'.pendingFunctors = l.pendingFunctors
  nextConn : l'.nextConn = l.nextConn

theorem Others.trans {l1 l2 l3 : Connections} {fd : ℕ} {c : ConnId} (h1 : Others l1 l2 fd c) (h2 : Others l2 l3 fd c) :
    Others l1 l3 fd c where
  conns := fun c' hne => (h2.conns c' hne).trans (h1.conns c' hne)
  holders := fun c' hne => (h2.holders c' hne).trans (h1.holders c' hne)
  http := fun fd' hne => (h2.http fd' hne).trans (h1.http fd' hne)
  chan := fun fd' hne => (h2.chan fd' hne).trans (h1.chan fd' hne)
  interest := fun fd' hne => (h2.interest fd' hne).trans (h1.interest fd' hne)
  heapOk := h2.heapOk
  pendingFunctors := h2.pendingFunctors.trans h1.pendingFunctors
  nextConn := h2.nextConn.trans h1.nextConn

/-- and what it does to `c`: it stays in order, or it is closed -/
inductive Outcome (l : Connections) (fd : ℕ) (c : ConnId) : Prop where
  | stay (hhttp : l.fd2http fd = some c) (hchan : l.fd2chan fd = some c) (harmed : Armed l c)
      (hsettled : LoopPc.handled l.pc ≠ some c → Settled l c)
      (hhandling : ∀ cbs active, l.pc = .callbacks c cbs active → Handling l c cbs)
  | closed (hhttp : l.fd2http fd = none) (hchan : l.fd2chan fd = none) (hfree : Glacier.holders l.heap c = [])
      (hafter : LoopPc.handled l.pc = none) (hgone : c ∉ LoopPc.active l.pc)

theorem Armed.congr {l l' : Connections} {c : ConnId} (h : Armed l c) (hconns : l'.conns c = l.conns c)
    (hint : l'.interest (l.conns c).fd = l.interest (l.conns c).fd) : Armed l' c := by
  unfold Armed
  rw [hconns, hint]; exact h

theorem Settled.congr {l l' : Connections} {c : ConnId} (h : Settled l c) (hconns : l'.conns c = l.conns c)
    (hholders : holders l'.heap c = holders l.heap c)
    (hint : l'.interest (l.conns c).fd = l.interest (l.conns c).fd) : Settled l' c where
  error := by rw [hconns]; exact h.error
  connstate := by rw [hconns]; exact h.connstate
  timer := by rw [hconns, hholders]; exact h.timer
  out := by rw [hconns, hint]; exact h.out

theorem Handling.congr {l l' : Connections} {c : ConnId} {cbs : List Callback} (h : Handling l c cbs)
    (hconns : l'.conns c = l.conns c) (hheap : l'.heap = l.heap)
    (hint : l'.interest (l.conns c).fd = l.interest (l.conns c).fd) : Handling l' c cbs := by
  cases h with
  | error h => exact .error (h.congr hconns (by rw [hheap]) hint)
  | before hpre hconn htimer hmask hasks =>
    exact .before hpre (by rw [hconns]; exact hconn) (by rw [hconns, hheap]; exact htimer)
      (by rw [hconns]; exact hmask) (by rw [hconns]; exact hasks)

theorem only_of_none {pc : LoopPc} (h : LoopPc.handled pc = none) (c : ConnId) : LoopPc.Only pc c := by
  intro c' hc'
  rw [h] at hc'; cases hc'

theorem only_callbacks {pc : LoopPc} {c : ConnId} {cbs : List Callback} {active : List ConnId}
    (h : pc = .callbacks c cbs active) : LoopPc.Only pc c := by
  intro c' hc'
  rw [h] at hc'
  exact (Option.some.inj hc').symm

section Update

variable {l l' : Connections} {fd : ℕ} {c : ConnId}

/-- a table has one connection for each descriptor -/
theorem fd_ne_of_http {fd' : ℕ} {c' : ConnId} (hc : l.fd2http fd = some c) (hc' : l.fd2http fd' = some c') (hne : c' ≠ c) :
    fd' ≠ fd := by
  rintro rfl
  exact hne (Option.some.inj (hc'.symm.trans hc))

theorem Others.fd_eq (ho : Others l l' fd c) (hold : (l.conns c).fd = fd) (hfd : (l'.conns c).fd = fd) (c' : ConnId) :
    (l'.conns c').fd = (l.conns c').fd := by
  by_cases heq : c' = c
  · rw [heq, hfd, hold]
  · rw [ho.conns c' heq]

/-- another connection that is in the table stays there -/
theorem Others.keeps {c' : ConnId} (ho : Others l l' fd c) (hc : l.fd2http fd = some c) (hne : c' ≠ c)
    (hc' : l.fd2http (l.conns c').fd = some c') : l'.fd2http (l'.conns c').fd = some c' := by
  rw [ho.conns c' hne, ho.http _ (fd_ne_of_http hc hc' hne), hc']

/-- and was there before -/
theorem Others.still {fd' : ℕ} {c' : ConnId} (ho : Others l l' fd c) (hout : Outcome l' fd c)
    (hc' : l'.fd2http fd' = some c') (hne : c' ≠ c) : l.fd2http fd' = some c' := by
  by_cases heq : fd' = fd
  · rw [heq] at hc'
    cases hout with
    | stay hhttp _ _ _ _ => exact absurd (Option.some.inj (hc'.symm.trans hhttp)) hne
    | closed hhttp _ _ _ _ => rw [hhttp] at hc'; cases hc'
  · rw [← ho.http fd' heq]; exact hc'

/-- the connection itself is nowhere else -/
theorem Others.self {fd' : ℕ} (h : Inv l) (hc : l.fd2http fd = some c) (ho : Others l l' fd c)
    (hc' : l'.fd2http fd' = some c) : fd' = fd := by
  by_contra hne
  rw [ho.http fd' hne] at hc'
  exact hne ((h.registered fd' c hc').fd_eq.symm.trans (h.registered fd c hc).fd_eq)

theorem Inv.update_held (h : Inv l) (hc : l.fd2http fd = some c) (ho : Others l l' fd c) (hout : Outcome l' fd c)
    (hfd : (l'.conns c).fd = fd) : ∀ t ∈ l'.heap, ∀ c', t.httpdata = some c' → l'.fd2http (l'.conns c').fd = some c' := by
  intro t ht c' hd
  have hmem : t ∈ Glacier.holders l'.heap c' := mem_holders.2 ⟨ht, hd⟩
  by_cases heq : c' = c
  · rw [heq] at hmem ⊢
    cases hout with
    | stay hhttp _ _ _ _ => rw [hfd]; exact hhttp
    | closed _ _ hfree _ _ => rw [hfree] at hmem; cases hmem
  · rw [ho.holders c' heq] at hmem
    exact ho.keeps hc heq (h.held t (mem_holders.1 hmem).1 c' hd)

theorem Inv.update_registered (h : Inv l) (hc : l.fd2http fd = some c) (ho : Others l l' fd c) (hout : Outcome l' fd c)
    (hfd : (l'.conns c).fd = fd) : ∀ fd' c', l'.fd2http fd' = some c' → Registered l' fd' c' := by
  intro fd' c' hc'
  have hreg := h.registered fd c hc
  by_cases heq : c' = c
  · rw [heq] at hc' ⊢
    obtain rfl := Others.self h hc ho hc'
    cases hout with
    | stay _ hchan harmed _ _ => exact ⟨hfd, ho.nextConn ▸ hreg.lt, hchan, harmed⟩
    | closed hhttp _ _ _ _ => rw [hhttp] at hc'; cases hc'
  · have hold := ho.still hout hc' heq
    have hr := h.registered fd' c' hold
    have hne := fd_ne_of_http hc hold heq
    exact ⟨(ho.fd_eq hreg.fd_eq hfd c').trans hr.fd_eq, ho.nextConn ▸ hr.lt, (ho.chan fd' hne).trans hr.chan,
      hr.armed.congr (ho.conns c' heq) (ho.interest _ (by rw [hr.fd_eq]; exact hne))⟩

theorem Inv.update_chan (h : Inv l) (ho : Others l l' fd c) (hout : Outcome l' fd c) :
    ∀ fd' c', l'.fd2chan fd' = some c' → l'.fd2http fd' = some c' := by
  intro fd' c' hc'
  by_cases heq : fd' = fd
  · rw [heq] at hc' ⊢
    cases hout with
    | stay hhttp hchan _ _ _ => rw [hhttp]; exact hchan.symm.trans hc'
    | closed _ hchan _ _ _ => rw [hchan] at hc'; cases hc'
  · rw [ho.chan fd' heq] at hc'
    rw [ho.http fd' heq]
    exact h.chan fd' c' hc'

theorem Inv.update_settled (h : Inv l) (hc : l.fd2http fd = some c) (ho : Others l l' fd c) (hout : Outcome l' fd c)
    (hbefore : LoopPc.Only l.pc c) :
    ∀ fd' c', l'.fd2http fd' = some c' → LoopPc.handled l'.pc ≠ some c' → Settled l' c' := by
  intro fd' c' hc' hn
  by_cases heq : c' = c
  · rw [heq] at hc' hn ⊢
    obtain rfl := Others.self h hc ho hc'
    cases hout with
    | stay _ _ _ hsettled _ => exact hsettled hn
    | closed hhttp _ _ _ _ => rw [hhttp] at hc'; cases hc'
  · have hold := ho.still hout hc' heq
    exact (h.settled fd' c' hold fun hc => heq (hbefore c' hc)).congr (ho.conns c' heq) (ho.holders c' heq)
      (ho.interest _ (by rw [(h.registered fd' c' hold).fd_eq]; exact fd_ne_of_http hc hold heq))

/-- **Steps of one connection.** -/
theorem Inv.update (h : Inv l) (hc : l.fd2http fd = some c)
    (ho : Others l l' fd c) (hout : Outcome l' fd c) (hfd : (l'.conns c).fd = fd)
    (hbefore : LoopPc.Only l.pc c) (hafter : LoopPc.Only l'.pc c)
    (hactive : (LoopPc.active l'.pc).Sublist (LoopPc.active l.pc))
    (hrunning : LoopPc.running l'.pc = LoopPc.running l.pc) : Inv l' := by
  have hreg := h.registered fd c hc
  have hcfd := ho.fd_eq hreg.fd_eq hfd
  have hqueued : l'.queued = l.queued := by rw [queued, queued, hrunning, ho.pendingFunctors]
  -- a connection in the queue has neither the identity nor the descriptor of one in the table
  have hqne : ∀ c' ∈ l.queued, c' ≠ c ∧ (l.conns c').fd ≠ fd := by
    intro c' hc'
    have hnone := (h.queue c' hc').2.2
    have hfdne : (l.conns c').fd ≠ fd := by
      intro heq
      rw [heq, hc] at hnone
      cases hnone
    exact ⟨fun heq => hfdne (heq ▸ hreg.fd_eq), hfdne⟩
  refine
    { heapOk := ho.heapOk, held := h.update_held hc ho hout hfd, registered := h.update_registered hc ho hout hfd
      chan := h.update_chan ho hout, settled := h.update_settled hc ho hout hbefore, handling := ?_, active := ?_
      active_nodup := h.active_nodup.sublist hactive, queue := ?_, queue_nodup := by rw [hqueued]; exact h.queue_nodup
      queue_fds := ?_ }
  · -- handling
    intro c' cbs active hpc
    obtain rfl := hafter c' (by rw [hpc]; rfl)
    cases hout with
    | stay _ _ _ _ hhandling => exact hhandling cbs active hpc
    | closed _ _ _ hnone _ => rw [hpc] at hnone; cases hnone
  · -- active
    intro c' hc'
    by_cases heq : c' = c
    · rw [heq] at hc' ⊢
      cases hout with
      | stay hhttp _ _ _ _ => rw [hfd]; exact hhttp
      | closed _ _ _ _ hgone => exact absurd hc' hgone
    · exact ho.keeps hc heq (h.active c' (hactive.subset hc'))
  · -- queue
    intro c' hc'
    rw [hqueued] at hc'
    obtain ⟨hlt, hnew, hnone⟩ := h.queue c' hc'
    obtain ⟨hcne, hfdne⟩ := hqne c' hc'
    rw [ho.conns c' hcne, ho.nextConn, ho.http _ hfdne]
    exact ⟨hlt, hnew, hnone⟩
  · -- queue_fds
    intro c1 hc1 c2 hc2 heq
    rw [hqueued] at hc1 hc2
    rw [hcfd, hcfd] at heq
    exact h.queue_fds c1 hc1 c2 hc2 heq

end Update

/-- **Steps that leave the connections alone**, taken while no callback runs. -/
theorem Inv.congr {l l' : Connections} (h : Inv l) (hconns : l'.conns = l.conns) (hhttp : l'.fd2http = l.fd2http)
    (hchan : l'.fd2chan = l.fd2chan) (hint : ∀ fd, l.fd2http fd ≠ none → l'.interest fd = l.interest fd)
    (hheap : HeapOk l'.heap l'.nextTimer) (hholders : ∀ c, holders l'.heap c = holders l.heap c)
    (hnext : l'.nextConn = l.nextConn) (hqueued : l'.queued = l.queued) (hbefore : LoopPc.handled l.pc = none)
    (hafter : LoopPc.handled l'.pc = none) (hactive : ∀ c ∈ LoopPc.active l'.pc, l.fd2http (l.conns c).fd = some c)
    (hnodup : (LoopPc.active l'.pc).Nodup) : Inv l' := by
  have hreg : ∀ fd c, l.fd2http fd = some c → l'.interest (l.conns c).fd = l.interest (l.conns c).fd := by
    intro fd c hc
    apply hint
    rw [(h.registered fd c hc).fd_eq, hc]
    simp
  refine
    { heapOk := hheap, held := ?_, registered := ?_, chan := by rw [hchan, hhttp]; exact h.chan, settled := ?_
      handling := ?_, active := by rw [hhttp, hconns]; exact hactive, active_nodup := hnodup
      queue := by rw [hqueued, hnext, hconns, hhttp]; exact h.queue
      queue_nodup := by rw [hqueued]; exact h.queue_nodup
      queue_fds := by rw [hqueued, hconns]; exact h.queue_fds }
  · -- held
    intro t ht c hd
    have hmem : t ∈ holders l'.heap c := mem_holders.2 ⟨ht, hd⟩
    rw [hholders] at hmem
    rw [hhttp, hconns]
    exact h.held t (mem_holders.1 hmem).1 c hd
  · -- registered
    intro fd c hc
    rw [hhttp] at hc
    have hr := h.registered fd c hc
    exact ⟨by rw [hconns]; exact hr.fd_eq, hnext ▸ hr.lt, hchan ▸ hr.chan,
      hr.armed.congr (by rw [hconns]) (hreg fd c hc)⟩
  · -- settled
    intro fd c hc _
    rw [hhttp] at hc
    exact (h.settled fd c hc (by rw [hbefore]; simp)).congr (by rw [hconns]) (hholders c) (hreg fd c hc)
  · -- handling
    intro c cbs active hpc
    rw [hpc] at hafter; cases hafter

end Connections

end Glacier
