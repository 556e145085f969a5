/-
Each connection of a loop on its own: what it receives, sends and accepts is what its own calls make of it.

The loop serves many connections in turn, adds and resets their timers, gives their descriptors to new ones and may fail to
enter them in the kernel's list. `Observed` notes for each connection the calls that it has got, the bytes that it has sent
and the requests that it has accepted.
- `told_read`, `told_write`: a callback inside the loop and the same callback outside it;
- `Inv`: between two steps each connection is what its calls make of it, but for the members that the loop writes itself;
- `connections_apart`: the result over whole runs.
-/
import Glacier.Http.Calls
import Glacier.Net.DescriptorReuse
import Glacier.Net.Footprint

namespace Glacier

open Cxx

structure Observed extends Descriptors where
  calls : ConnId → List Call
  sent : ConnId → Bytes
  requests : ConnId → List Request

namespace Observed

def init : Observed where
  toDescriptors := .init
  calls := fun _ => []
  sent := fun _ => []
  requests := fun _ => []

/-- the step to `d` with a call of `c` noted, which leaves `io` of what the callback began with -/
def record (s : Observed) (d : Descriptors) (c : ConnId) (o : Call) (io : Io) : Observed where
  toDescriptors := d
  calls := Function.update s.calls c (s.calls c ++ [o])
  sent := Function.update s.sent c (s.sent c ++ io.sent)
  requests := Function.update s.requests c (s.requests c ++ io.requests)

/-- the outside world of a callback -/
def world (reads : List ReadResult) (writes : List WriteResult) (fs : FileSystem) : Io := ⟨reads, writes, fs, [], [], false⟩

def note (s : Observed) (d : Descriptors) : Descriptors.Op → Observed
  | .handleEvents =>
    match s.pc with
    | .dispatch (c :: _) => s.record d c .handleEvents (world [] [] fun _ => .absent)
    | _ => { s with toDescriptors := d }
  | .callback reads writes fs _ _ =>
    match s.pc with
    | .callbacks c (.read :: _) _ =>
      s.record d c (.handleRead reads writes fs) (s.enter c (world reads writes fs)).handleRead.io
    | .callbacks c (.write :: _) _ => s.record d c (.handleWrite writes) (s.enter c (world reads writes fs)).handleWrite.io
    | _ => { s with toDescriptors := d }
  | _ => { s with toDescriptors := d }

def step (s : Observed) (o : Descriptors.Op) : Option Observed := (s.toDescriptors.step o).map fun d => s.note d o

theorem note_toDescriptors (s : Observed) (d : Descriptors) (o : Descriptors.Op) : (s.note d o).toDescriptors = d := by
  unfold note
  split
  · split <;> rfl
  · split <;> rfl
  · rfl

/-! ## A connection and what its calls make of it -/

/-- the same record, but for the channel and the timer, and a connection that has been closed -/
structure Alike (h g : HttpData) : Prop where
  self : ∃ channel timer connstate, h = { g with channel := channel, timer := timer, connstate := connstate }
  connstate : h.connstate ≠ .disconnected → h.connstate = g.connstate

/-- the connection `c` is what its calls make of a new one -/
structure Told (s : Observed) (c : ConnId) (ctx : Ctx) : Prop where
  run : Machine.run Ctx.call (.fresh (s.conns c).fd) (s.calls c) = some ctx
  sent : ctx.io.sent = s.sent c
  requests : ctx.io.requests = s.requests c
  alike : Alike (s.conns c) ctx.http
  /-- while its callbacks run the masks are the same -/
  mask : Connections.LoopPc.handled s.pc = some c → (s.conns c).channel.events = ctx.http.channel.events

theorem Alike.refl (h : HttpData) : Alike h h := ⟨⟨_, _, _, rfl⟩, fun _ => rfl⟩

theorem Alike.owned {h h' g : HttpData} (ha : Alike h g) (ho : h'.OwnedBy h) : Alike h' g := by
  obtain ⟨⟨channel, timer, cs, rfl⟩, hconn⟩ := ha
  obtain ⟨channel', timer', rfl⟩ := ho
  exact ⟨⟨_, _, _, rfl⟩, hconn⟩

theorem Alike.owned_right {h g g' : HttpData} (ha : Alike h g) (ho : g'.OwnedBy g) : Alike h g' := by
  obtain ⟨⟨channel, timer, cs, rfl⟩, hconn⟩ := ha
  obtain ⟨channel', timer', rfl⟩ := ho
  exact ⟨⟨_, _, _, rfl⟩, hconn⟩

theorem Alike.closed {h g : HttpData} (ha : Alike h g) : Alike { h with connstate := .disconnected } g := by
  obtain ⟨⟨channel, timer, cs, rfl⟩, -⟩ := ha
  exact ⟨⟨_, _, _, rfl⟩, fun hc => absurd rfl hc⟩

theorem Alike.fd {h g : HttpData} (ha : Alike h g) : h.fd = g.fd := by
  obtain ⟨⟨channel, timer, cs, rfl⟩, -⟩ := ha
  rfl

theorem Alike.error {h g : HttpData} (ha : Alike h g) : h.error = g.error := by
  obtain ⟨⟨channel, timer, cs, rfl⟩, -⟩ := ha
  rfl

/-- two connections with the same masks, one of them in the loop -/
theorem Alike.agree {h g : HttpData} (ha : Alike h g) (hmask : h.channel.events = g.channel.events)
    (hconn : h.connstate ≠ .disconnected) (io : Io) (timers timers' : List Timer) :
    Agree ⟨g, io, timers⟩ ⟨h, io, timers'⟩ := by
  obtain ⟨⟨channel, timer, cs, rfl⟩, hcs⟩ := ha
  obtain rfl : cs = g.connstate := hcs hconn
  have hev : channel.events = g.channel.events := hmask
  refine ⟨rfl, rfl, rfl, rfl, rfl, rfl, rfl, rfl, rfl, rfl, rfl, hev.symm, rfl, rfl, ?_⟩
  unfold HttpData.connTimeout
  rw [hev]

/-- and what agrees again is alike again -/
theorem alike_of_agree {c d : Ctx} (h : Agree c d) (hfd : c.http.fd = d.http.fd) : Alike d.http c.http := by
  obtain ⟨⟨⟨ev, rev, last⟩, fd, err, inb, outb, cs, m, v, f, rp, k, st, ps, hd, tm⟩, io, tms⟩ := c
  obtain ⟨⟨⟨ev', rev', last'⟩, fd', err', inb', outb', cs', m', v', f', rp', k', st', ps', hd', tm'⟩, io', tms'⟩ := d
  obtain ⟨h1, h2, h3, h4, h5, h6, h7, h8, h9, h10, h11, h12, -, h14, -⟩ := h
  simp only at h1 h2 h3 h4 h5 h6 h7 h8 h9 h10 h11 h12 h14 hfd
  subst h1 h2 h3 h4 h5 h6 h7 h8 h9 h10 h11 h12 h14 hfd
  exact ⟨⟨_, _, _, rfl⟩, fun _ => rfl⟩

/-- **The read callback** in the loop and outside it -/
theorem told_read {h : HttpData} {c : Ctx} {timers : List Timer} {reads : List ReadResult} {writes : List WriteResult}
    {fs : FileSystem} (ha : Alike h c.http) (hmask : h.channel.events = c.http.channel.events)
    (hconn : h.connstate ≠ .disconnected) (he : h.error = false) (hready : c.Ready) (hlive : c.io.fault = false)
    (hfault : (Ctx.mk h (world reads writes fs) timers).handleRead.io.fault = false) :
    ∃ c', c.call (.handleRead reads writes fs) = some c' ∧
      c'.io.sent = c.io.sent ++ (Ctx.mk h (world reads writes fs) timers).handleRead.io.sent ∧
      c'.io.requests = c.io.requests ++ (Ctx.mk h (world reads writes fs) timers).handleRead.io.requests ∧
      Alike (Ctx.mk h (world reads writes fs) timers).handleRead.http c'.http ∧
      (Ctx.mk h (world reads writes fs) timers).handleRead.http.channel.events = c'.http.channel.events := by
  set d : Ctx := ⟨h, world reads writes fs, timers⟩
  set e : Ctx := ⟨c.http, world reads writes fs, c.timers⟩
  have herr : c.http.error = false := ha.error.symm.trans he
  have hagree : Agree e.handleRead d.handleRead :=
    Ctx.handleRead_agree (ha.agree hmask hconn _ _ _) ⟨hready.connstate, hready.readpos, hready.state, hready.fresh⟩ herr
      hfault
  have hfd : e.handleRead.http.fd = d.handleRead.http.fd :=
    calc e.handleRead.http.fd = c.http.fd := (Ctx.handleRead_detaches e).1
      _ = h.fd := ha.fd.symm
      _ = d.handleRead.http.fd := (Ctx.handleRead_detaches d).1.symm
  have halike : Alike d.handleRead.http e.handleRead.http := alike_of_agree hagree hfd
  have hpast : { c with io := { c.io with reads := reads, writes := writes, fs := fs } } =
      e.withPast c.io.sent c.io.requests := by
    simp only [Ctx.mapIo, Ctx.past, e, world, List.append_nil, hlive]
  refine ⟨e.handleRead.withPast c.io.sent c.io.requests, ?_, ?_, ?_, halike, hagree.events.symm⟩
  · have hdone : (e.handleRead.withPast c.io.sent c.io.requests).io.fault = false :=
      (congrArg Io.fault hagree.io).trans hfault
    simp only [Ctx.call, herr, Bool.false_eq_true, if_false]
    rw [hpast, Ctx.handleRead_withPast, hdone]
    rfl
  · rw [← hagree.io]; rfl
  · rw [← hagree.io]; rfl

/-- **The write callback** in the loop and outside it -/
theorem told_write {h : HttpData} {c : Ctx} (timers : List Timer) (reads : List ReadResult) (writes : List WriteResult)
    (fs : FileSystem) (ha : Alike h c.http) (hmask : h.channel.events = c.http.channel.events)
    (hconn : h.connstate ≠ .disconnected) (hlive : c.io.fault = false) :
    ∃ c', c.call (.handleWrite writes) = some c' ∧
      c'.io.sent = c.io.sent ++ (Ctx.mk h (world reads writes fs) timers).handleWrite.io.sent ∧
      c'.io.requests = c.io.requests ++ (Ctx.mk h (world reads writes fs) timers).handleWrite.io.requests ∧
      Alike (Ctx.mk h (world reads writes fs) timers).handleWrite.http c'.http ∧
      (Ctx.mk h (world reads writes fs) timers).handleWrite.http.channel.events = c'.http.channel.events := by
  set d : Ctx := ⟨h, world reads writes fs, timers⟩
  set e : Ctx := ⟨c.http, world reads writes fs, c.timers⟩
  have hagree : Agree e.handleWrite d.handleWrite := Session.agree_handleWrite (ha.agree hmask hconn _ _ _)
  have hfd : e.handleWrite.http.fd = d.handleWrite.http.fd :=
    calc e.handleWrite.http.fd = c.http.fd := e.handleWrite_frame.detaches.1
      _ = h.fd := ha.fd.symm
      _ = d.handleWrite.http.fd := d.handleWrite_frame.detaches.1.symm
  have halike : Alike d.handleWrite.http e.handleWrite.http := alike_of_agree hagree hfd
  have hpast : { c with io := { c.io with writes := writes } } =
      (e.mapIo (Ctx.scripts c.io.reads c.io.fs)).withPast c.io.sent c.io.requests := by
    simp only [Ctx.mapIo, Ctx.past, Ctx.scripts, e, world, List.append_nil, hlive]
  refine ⟨(e.handleWrite.mapIo (Ctx.scripts c.io.reads c.io.fs)).withPast c.io.sent c.io.requests, ?_, ?_, ?_, halike,
    hagree.events.symm⟩
  · rw [Ctx.call, hpast, Ctx.withPast, Ctx.handleWrite_mapIo (Ctx.unseen_past _ _),
      Ctx.handleWrite_mapIo (Ctx.unseen_scripts _ _)]
  · rw [← hagree.io]; rfl
  · rw [← hagree.io]; rfl

/-! ## The invariant -/

/-- neither closed nor to be closed -/
structure Open (h : HttpData) : Prop where
  error : h.error = false
  connstate : h.connstate ≠ .disconnected

/-- the callbacks of the connection that are still to run; after an error only handleWrite may run before handleConn, which
closes the connection -/
inductive Serving (h : HttpData) : List Callback → Prop where
  | error (ho : Open h) : Serving h [.error]
  | read {cbs : List Callback} (ho : Open h) (hrest : cbs = [.conn] ∨ cbs = [.write, .conn]) : Serving h (.read :: cbs)
  | write (hconn : h.connstate ≠ .disconnected) : Serving h [.write, .conn]
  | conn (hconn : h.connstate ≠ .disconnected) : Serving h [.conn]

structure Inv (s : Observed) : Prop where
  loop : Descriptors.Inv s.toDescriptors
  unused : ∀ c, s.nextConn ≤ c → s.calls c = [] ∧ s.sent c = [] ∧ s.requests c = []
  told : ∀ c < s.nextConn, ∃ ctx, Told s c ctx
  opened : ∀ fd c, s.fd2http fd = some c → Connections.LoopPc.handled s.pc ≠ some c → Open (s.conns c)
  serving : ∀ c cbs active, s.pc = .callbacks c cbs active → Serving (s.conns c) cbs
  queue : ∀ c ∈ s.queued, Open (s.conns c) ∧ (∀ fd, s.fd2http fd ≠ some c) ∧ c ∉ held s.heap
  queue_nodup : s.queued.Nodup

theorem inv_init : Inv init where
  loop := Descriptors.inv_init
  unused := fun _ _ => ⟨rfl, rfl, rfl⟩
  told := fun _ hc => absurd hc (Nat.not_lt_zero _)
  opened := by
    intro fd c hc
    cases hc
  serving := by
    intro c cbs active hpc
    cases hpc
  queue := fun _ hc => absurd hc List.not_mem_nil
  queue_nodup := List.nodup_nil

variable {s t : Observed} {d : Descriptors} {c : ConnId}

theorem Open.owned {h g : HttpData} (ho : Open h) (hown : g.OwnedBy h) : Open g := by
  obtain ⟨channel, timer, rfl⟩ := hown
  exact ⟨ho.error, ho.connstate⟩

/-- what is told of a connection that a step has not touched -/
theorem Told.congr {ctx : Ctx} (h : Told s c ctx) (hconns : t.conns c = s.conns c) (hcalls : t.calls c = s.calls c)
    (hsent : t.sent c = s.sent c) (hrequests : t.requests c = s.requests c)
    (hpc : Connections.LoopPc.handled t.pc = some c → Connections.LoopPc.handled s.pc = some c) : Told t c ctx where
  run := by rw [hconns, hcalls]; exact h.run
  sent := by rw [hsent]; exact h.sent
  requests := by rw [hrequests]; exact h.requests
  alike := by rw [hconns]; exact h.alike
  mask := by
    intro hc
    rw [hconns]; exact h.mask (hpc hc)

/-- a step of the loop that writes its own members only, while no callback runs after it -/
theorem Told.owned {ctx : Ctx} (h : Told s c ctx) (hconns : (t.conns c).OwnedBy (s.conns c)) (hcalls : t.calls c = s.calls c)
    (hsent : t.sent c = s.sent c) (hrequests : t.requests c = s.requests c)
    (hpc : Connections.LoopPc.handled t.pc ≠ some c) : Told t c ctx where
  run := by rw [hconns.fd, hcalls]; exact h.run
  sent := by rw [hsent]; exact h.sent
  requests := by rw [hrequests]; exact h.requests
  alike := h.alike.owned hconns
  mask := fun hc => absurd hc hpc

/-- **Steps on one connection** that does not wait for its newEvent after them. -/
theorem Inv.on (h : Inv s) (hloop : Descriptors.Inv t.toDescriptors) (hapart : Apart s.toConnections t.toConnections c)
    (hlt : c < s.nextConn)
    (hnotes : ∀ b, b ≠ c → t.calls b = s.calls b ∧ t.sent b = s.sent b ∧ t.requests b = s.requests b)
    (hbefore : ∀ b, b ≠ c → Connections.LoopPc.handled s.pc ≠ some b)
    (hafter : ∀ b, b ≠ c → Connections.LoopPc.handled t.pc ≠ some b)
    (hqueue : t.queued.Sublist s.queued) (hout : c ∉ t.queued) (hself : ∃ ctx, Told t c ctx)
    (hopen : ∀ fd, t.fd2http fd = some c → Connections.LoopPc.handled t.pc ≠ some c → Open (t.conns c))
    (hserving : ∀ cbs active, t.pc = .callbacks c cbs active → Serving (t.conns c) cbs) : Inv t where
  loop := hloop
  unused := by
    intro b hb
    have hb : s.nextConn ≤ b := hapart.nextConn ▸ hb
    obtain ⟨hcalls, hsent, hrequests⟩ := hnotes b (by rintro rfl; exact absurd hlt (not_lt.2 hb))
    rw [hcalls, hsent, hrequests]; exact h.unused b hb
  told := by
    intro b hb
    by_cases hbc : b = c
    · subst hbc; exact hself
    · obtain ⟨ctx, hctx⟩ := h.told b (hapart.nextConn ▸ hb)
      obtain ⟨hcalls, hsent, hrequests⟩ := hnotes b hbc
      exact ⟨ctx, hctx.congr (hapart.conns b hbc) hcalls hsent hrequests fun hpc => absurd hpc (hafter b hbc)⟩
  opened := by
    intro fd b hb hpc
    by_cases hbc : b = c
    · subst hbc; exact hopen fd hb hpc
    · rw [hapart.conns b hbc]
      exact h.opened fd b (hapart.http fd b hbc hb) (hbefore b hbc)
  serving := by
    intro b cbs active hpc
    by_cases hbc : b = c
    · subst hbc; exact hserving cbs active hpc
    · exact absurd (by rw [hpc]; rfl) (hafter b hbc)
  queue := by
    intro b hb
    have hbc : b ≠ c := fun heq => hout (heq ▸ hb)
    obtain ⟨ho, hhttp, hheap⟩ := h.queue b (hqueue.subset hb)
    rw [hapart.conns b hbc]
    exact ⟨ho, fun fd hc => hhttp fd (hapart.http fd b hbc hc), fun hc => hheap (hapart.heap b hbc hc)⟩
  queue_nodup := h.queue_nodup.sublist hqueue

/-- **Steps on no connection**: at most the channels change, and no connection is entered anywhere. -/
theorem Inv.quiet (h : Inv s) (hloop : Descriptors.Inv d) (hconns : ∀ b, (d.conns b).OwnedBy (s.conns b))
    (hhttp : d.fd2http = s.fd2http) (hheap : (held d.heap).Sublist (held s.heap)) (hnext : d.nextConn = s.nextConn)
    (hbefore : Connections.LoopPc.handled s.pc = none) (hafter : Connections.LoopPc.handled d.pc = none)
    (hqueue : d.queued = s.queued) : Inv { s with toDescriptors := d } where
  loop := hloop
  unused := by
    intro b hb
    exact h.unused b (hnext ▸ hb)
  told := by
    intro b hb
    obtain ⟨ctx, hctx⟩ := h.told b (hnext ▸ hb)
    exact ⟨ctx, hctx.owned (hconns b) rfl rfl rfl (by change Connections.LoopPc.handled d.pc ≠ _; rw [hafter]; simp)⟩
  opened := by
    intro fd b hb _
    change d.fd2http fd = some b at hb
    rw [hhttp] at hb
    exact (h.opened fd b hb (by rw [hbefore]; simp)).owned (hconns b)
  serving := by
    intro b cbs active hpc
    change d.pc = _ at hpc
    rw [hpc] at hafter
    cases hafter
  queue := by
    intro b hb
    change b ∈ d.queued at hb
    rw [hqueue] at hb
    obtain ⟨ho, hnone, hheld⟩ := h.queue b hb
    exact ⟨ho.owned (hconns b), fun fd => by rw [show d.fd2http = s.fd2http from hhttp]; exact hnone fd,
      fun hc => hheld (hheap.subset hc)⟩
  queue_nodup := by
    change d.queued.Nodup
    rw [hqueue]; exact h.queue_nodup

/-- a connection in fd2http_ does not wait for its newEvent -/
theorem Inv.registered (h : Inv s) {fd : ℕ} (hc : s.fd2http fd = some c) : c < s.nextConn ∧ c ∉ s.queued :=
  ⟨(h.loop.counted.bound c (h.loop.counted.live_of_http hc)).1, fun hq => (h.queue c hq).2.1 fd hc⟩

/-! ## The steps -/

theorem accept_inv {fd : ℕ} (h : Inv s) (hloop : Descriptors.Inv d) (hd : s.toDescriptors.step (.accept fd) = some d) :
    Inv { s with toDescriptors := d } := by
  simp only [Descriptors.step] at hd
  split_ifs at hd
  obtain rfl := Option.some.inj hd
  set l : Connections := s.toConnections.set s.nextConn (.new fd)
  have hself : l.conns s.nextConn = .new fd := Connections.set_conns_self _ _ _
  have hothers : ∀ b, b ≠ s.nextConn → l.conns b = s.conns b := fun b hb => Connections.set_conns_of_ne _ _ hb
  -- nothing refers to the new connection yet
  have hfresh : ¬ 0 < s.refs s.nextConn := fun hlive => h.loop.counted.ne_next hlive rfl
  have hhttp : ∀ fd' b, s.fd2http fd' = some b → b ≠ s.nextConn := by
    rintro fd' b hb rfl
    exact hfresh (h.loop.counted.live_of_http hb)
  have hqueued : ∀ b ∈ s.queued, b ≠ s.nextConn := by
    rintro b hb rfl
    refine hfresh (h.loop.counted.live_of_reference (Descriptors.mem_references.2 ?_))
    rcases List.mem_append.1 hb with hb | hb
    · exact Or.inr (Or.inr (Or.inr (Or.inl (h.loop.running _ hb))))
    · exact Or.inr (Or.inr (Or.inl hb))
  have hheld : s.nextConn ∉ held s.heap := by
    intro hb
    exact hfresh (h.loop.counted.live_of_reference (Descriptors.mem_references.2 (Or.inr (Or.inl (mem_held.1 hb)))))
  have hqueue : Connections.LoopPc.running s.pc ++ (s.pendingFunctors ++ [s.nextConn]) = s.queued ++ [s.nextConn] :=
    (List.append_assoc _ _ _).symm
  refine ⟨hloop, ?_, ?_, ?_, ?_, ?_, ?_⟩
  · intro b hb
    exact h.unused b (Nat.le_of_succ_le hb)
  · intro b hb
    by_cases hbn : b = s.nextConn
    · subst hbn
      obtain ⟨hcalls, hsent, hrequests⟩ := h.unused s.nextConn le_rfl
      refine ⟨.fresh fd, ?_, hsent.symm, hrequests.symm, ?_, fun _ => ?_⟩
      · change Machine.run Ctx.call (.fresh (l.conns s.nextConn).fd) (s.calls s.nextConn) = _
        rw [hcalls, hself]
        rfl
      · change Alike (l.conns s.nextConn) _
        rw [hself]; exact .refl _
      · exact congrArg (fun g => g.channel.events) hself
    · obtain ⟨ctx, hctx⟩ := h.told b (lt_of_le_of_ne (Nat.lt_succ_iff.1 hb) hbn)
      exact ⟨ctx, hctx.congr (hothers b hbn) rfl rfl rfl id⟩
  · intro fd' b hb hpc
    change Open (l.conns b)
    rw [hothers b (hhttp fd' b hb)]
    exact h.opened fd' b hb hpc
  · intro b cbs active hpc
    have hb := h.loop.active b (by rw [show s.pc = _ from hpc]; exact List.mem_cons_self)
    change Serving (l.conns b) cbs
    rw [hothers b (hhttp _ b hb)]
    exact h.serving b cbs active hpc
  · intro b hb
    change b ∈ Connections.LoopPc.running s.pc ++ (s.pendingFunctors ++ [s.nextConn]) at hb
    change Open (l.conns b) ∧ (∀ fd', s.fd2http fd' ≠ some b) ∧ b ∉ held s.heap
    rw [hqueue] at hb
    rcases List.mem_append.1 hb with hb | hb
    · rw [hothers b (hqueued b hb)]
      exact h.queue b hb
    · obtain rfl := List.mem_singleton.1 hb
      rw [hself]
      exact ⟨⟨rfl, by simp [HttpData.new]⟩, fun fd' hc => hhttp fd' _ hc rfl, hheld⟩
  · change (Connections.LoopPc.running s.pc ++ (s.pendingFunctors ++ [s.nextConn])).Nodup
    rw [hqueue]
    refine List.Nodup.append h.queue_nodup (List.nodup_singleton _) ?_
    intro b hb hn
    exact hqueued b hb (List.mem_singleton.1 hn)

/-- the thread that accepts lets go of its reference -/
theorem endAccept_inv (h : Inv s) (hloop : Descriptors.Inv d) (hd : s.toDescriptors.step .endAccept = some d) :
    Inv { s with toDescriptors := d } := by
  simp only [Descriptors.step] at hd
  obtain ⟨c, -, rfl⟩ := Option.map_eq_some_iff.1 hd
  have hsame : ({ s.toDescriptors with reqInfo := none }.release c).toConnections = s.toConnections :=
    Descriptors.release_toConnections _ _
  generalize { s.toDescriptors with reqInfo := none }.release c = d at hloop hsame ⊢
  obtain ⟨l, refs, functors, reqInfo, owner, trace⟩ := d
  obtain rfl : l = s.toConnections := hsame
  exact ⟨hloop, h.unused, fun b hb => (h.told b hb).imp fun ctx hctx => hctx.congr rfl rfl rfl rfl id, h.opened, h.serving,
    h.queue, h.queue_nodup⟩

theorem report_owned (events : List (ℕ × Events)) (l : Connections) (b : ConnId) :
    ((events.foldl Connections.report l).conns b).OwnedBy (l.conns b) := by
  induction events generalizing l with
  | nil => exact .refl _
  | cons e events ih =>
    have hone : ((l.report e).conns b).OwnedBy (l.conns b) := by
      unfold Connections.report
      dsimp only
      cases l.fd2chan e.1 with
      | none => exact .refl _
      | some c =>
        dsimp only
        by_cases hb : b = c
        · subst hb
          rw [Connections.set_conns_self]
          exact ⟨_, _, rfl⟩
        · rw [Connections.set_conns_of_ne _ _ hb]
          exact .refl _
    rw [List.foldl_cons]
    exact (ih (l.report e)).trans hone

theorem poll_inv {events : List (ℕ × Events)} (h : Inv s) (hloop : Descriptors.Inv d)
    (hd : s.toDescriptors.step (.poll events) = some d) : Inv { s with toDescriptors := d } := by
  simp only [Descriptors.step] at hd
  split_ifs at hd with hg
  obtain rfl := Option.some.inj hd
  obtain ⟨hhttp, -, hheap, hpending, hnext, -⟩ := Descriptors.report_fold events s.toConnections
  refine h.quiet hloop (report_owned events s.toConnections) hhttp (by rw [hheap]) hnext (by rw [hg.1]; rfl) rfl ?_
  unfold Connections.queued
  rw [hg.1]
  exact hpending

theorem doPendingFunctors_inv (h : Inv s) (hloop : Descriptors.Inv d)
    (hd : s.toDescriptors.step .doPendingFunctors = some d) : Inv { s with toDescriptors := d } := by
  simp only [Descriptors.step] at hd
  split_ifs at hd with hpc
  obtain rfl := Option.some.inj hd
  refine h.quiet hloop (fun _ => .refl _) rfl (.refl _) rfl (by rw [hpc]; rfl) rfl ?_
  unfold Connections.queued
  rw [hpc]
  exact List.append_nil _

/-! ### Callbacks -/

theorem dispatch_serving {h : HttpData} (ho : Open h) (revents : Events) (hne : Channel.dispatch revents ≠ []) :
    Serving h (Channel.dispatch revents) := by
  unfold Channel.dispatch at hne ⊢
  split_ifs at hne ⊢
  · exact absurd rfl hne
  · exact .error ho
  · exact .read ho (Or.inr rfl)
  · exact .read ho (Or.inl rfl)
  · exact .write ho.connstate
  · exact .conn ho.connstate

/-- one more call is told -/
theorem Told.record {ctx ctx' : Ctx} {o : Call} {io : Io} (h : Told s c ctx) (hcall : ctx.call o = some ctx')
    (hsent : ctx'.io.sent = ctx.io.sent ++ io.sent) (hrequests : ctx'.io.requests = ctx.io.requests ++ io.requests)
    (hfd : (d.conns c).fd = (s.conns c).fd) (halike : Alike (d.conns c) ctx'.http)
    (hmask : (d.conns c).channel.events = ctx'.http.channel.events) : Told (s.record d c o io) c ctx' where
  run := by
    have hself : (s.record d c o io).calls c = s.calls c ++ [o] := Function.update_self _ _ _
    rw [hself]
    exact Machine.run_append.2 ⟨ctx, hfd ▸ h.run, Machine.run_cons.2 ⟨ctx', hcall, rfl⟩⟩
  sent := by
    have hself : (s.record d c o io).sent c = s.sent c ++ io.sent := Function.update_self _ _ _
    rw [hself, hsent, h.sent]
  requests := by
    have hself : (s.record d c o io).requests c = s.requests c ++ io.requests := Function.update_self _ _ _
    rw [hself, hrequests, h.requests]
  alike := halike
  mask := fun _ => hmask

/-- **A noted step** on the connection `c`, which is being handled -/
theorem Inv.recorded {o : Call} {io : Io} {cbs : List Callback} {active : List ConnId} (h : Inv s) (ctx : Ctx)
    (hloop : Descriptors.Inv { d with pc := Connections.nextPc c cbs active })
    (hreg : s.fd2http (s.conns c).fd = some c) (hpc : Connections.LoopPc.Only s.pc c)
    (hrunning : Connections.LoopPc.running s.pc = []) (hapart : Apart s.toConnections d.toConnections c)
    (hself : Told (s.record { d with pc := Connections.nextPc c cbs active } c o io) c ctx)
    (hserving : cbs ≠ [] → Serving (d.conns c) cbs) (hopen : cbs = [] → Open (d.conns c)) :
    Inv (s.record { d with pc := Connections.nextPc c cbs active } c o io) := by
  obtain ⟨hlt, hout⟩ := h.registered hreg
  have hafter := Connections.nextPc_only c cbs active
  have hqueued : (s.record { d with pc := Connections.nextPc c cbs active } c o io).queued = s.queued := by
    change Connections.LoopPc.running (Connections.nextPc c cbs active) ++ d.pendingFunctors = _
    rw [Connections.nextPc_running, hapart.pendingFunctors, Connections.queued, hrunning]
  refine h.on hloop ⟨hapart.conns, hapart.http, hapart.heap, hapart.pendingFunctors, hapart.nextConn⟩ hlt ?_ ?_ ?_
    (by rw [hqueued]) (by rw [hqueued]; exact hout) ⟨ctx, hself⟩ ?_ ?_
  · intro b hb
    exact ⟨Function.update_of_ne hb _ _, Function.update_of_ne hb _ _, Function.update_of_ne hb _ _⟩
  · exact fun b hb hc => hb (hpc b hc)
  · exact fun b hb hc => hb (hafter b hc)
  · intro fd _ hn
    apply hopen
    by_contra hne
    apply hn
    change Connections.LoopPc.handled (Connections.nextPc c cbs active) = some c
    rw [Connections.nextPc, if_neg hne]
    rfl
  · intro cbs' active' hc
    change Connections.nextPc c cbs active = _ at hc
    unfold Connections.nextPc at hc
    split_ifs at hc with hne
    cases hc
    exact hserving hne

theorem handleEvents_inv (h : Inv s) (hloop : Descriptors.Inv d) (hd : s.toDescriptors.step .handleEvents = some d) :
    Inv (s.note d .handleEvents) := by
  simp only [Descriptors.step] at hd
  split at hd
  · rename_i c active hpc
    obtain rfl := Option.some.inj hd
    have hreg := h.loop.active c (by rw [hpc]; exact List.mem_cons_self)
    have hself : (s.toConnections.setEvents c 0).conns c =
        { s.conns c with channel := (s.conns c).channel.setEvents 0 } := Connections.set_conns_self _ _ _
    have hfd : ((s.toConnections.setEvents c 0).conns c).fd = (s.conns c).fd := by rw [hself]
    have ho : Open ((s.toConnections.setEvents c 0).conns c) := by
      rw [hself]
      exact (h.opened _ c hreg (by rw [hpc]; simp [Connections.LoopPc.handled])).owned ⟨_, _, rfl⟩
    obtain ⟨ctx, hctx⟩ := h.told c (h.registered hreg).1
    have hnote : ∀ d, s.note d .handleEvents = s.record d c .handleEvents (world [] [] fun _ => .absent) := by
      intro d
      unfold note
      rw [hpc]
    rw [hnote]
    refine h.recorded (d := s.toDescriptors.setEvents c 0)
      { ctx with http := { ctx.http with channel := ctx.http.channel.setEvents 0 } } hloop hreg
      (Connections.only_of_none (by rw [hpc]; rfl) c) (by rw [hpc]; rfl) (s.toDescriptors.setEvents_owned c 0).toApart ?_
      (fun hne => dispatch_serving ho _ hne) fun _ => ho
    refine hctx.record rfl (List.append_nil _).symm (List.append_nil _).symm hfd ?_ ?_
    · change Alike ((s.toConnections.setEvents c 0).conns c) _
      rw [hself]
      exact (hctx.alike.owned ⟨_, _, rfl⟩).owned_right ⟨_, _, rfl⟩
    · exact congrArg (fun g => g.channel.events) hself
  · cases hd

/-- a callback that leaves the connection open -/
theorem Serving.rest {h : HttpData} {cbs : List Callback} (hcbs : cbs = [.conn] ∨ cbs = [.write, .conn])
    (hconn : h.connstate ≠ .disconnected) : Serving h cbs := by
  rcases hcbs with rfl | rfl
  · exact .conn hconn
  · exact .write hconn

/-- the last callback of `c`, which is not noted -/
theorem Inv.unrecorded {active : List ConnId} (h : Inv s) (ctx : Ctx)
    (hloop : Descriptors.Inv { d with pc := Connections.nextPc c [] active })
    (hreg : s.fd2http (s.conns c).fd = some c) (hpc : Connections.LoopPc.Only s.pc c)
    (hrunning : Connections.LoopPc.running s.pc = []) (hapart : Apart s.toConnections d.toConnections c)
    (hself : Told { s with toDescriptors := { d with pc := Connections.nextPc c [] active } } c ctx)
    (hopen : ∀ fd, d.fd2http fd = some c → Open (d.conns c)) :
    Inv { s with toDescriptors := { d with pc := Connections.nextPc c [] active } } := by
  obtain ⟨hlt, hout⟩ := h.registered hreg
  have hqueued : Connections.queued { d.toConnections with pc := Connections.nextPc c [] active } = s.queued := by
    rw [Connections.queued, Connections.queued, Connections.nextPc_running, hrunning, hapart.pendingFunctors]
  refine h.on hloop ⟨hapart.conns, hapart.http, hapart.heap, hapart.pendingFunctors, hapart.nextConn⟩ hlt
    (fun _ _ => ⟨rfl, rfl, rfl⟩) (fun b hb hc => hb (hpc b hc)) ?_ (by rw [hqueued]) (by rw [hqueued]; exact hout)
    ⟨ctx, hself⟩ (fun fd hfd _ => hopen fd hfd) ?_
  · intro b _ hc
    cases hc
  · intro cbs' active' hc
    cases hc

/-- **Callbacks** -/
theorem callback_inv {reads : List ReadResult} {writes : List WriteResult} {fs : FileSystem} {now : Timeval} {ok : Bool}
    (h : Inv s) (hloop : Descriptors.Inv d) (hd : s.toDescriptors.step (.callback reads writes fs now ok) = some d) :
    Inv (s.note d (.callback reads writes fs now ok)) := by
  simp only [Descriptors.step] at hd
  split at hd
  · rename_i c cb cbs active hpc
    obtain ⟨e, he, rfl⟩ := Option.map_eq_some_iff.1 hd
    have he : s.toDescriptors.callback c cb (world reads writes fs) now ok = some e := he
    have hreg := h.loop.active c (by rw [hpc]; exact List.mem_cons_self)
    have honly : Connections.LoopPc.Only s.pc c := Connections.only_callbacks hpc
    have hrunning : Connections.LoopPc.running s.pc = [] := by rw [hpc]; rfl
    obtain ⟨ctx, hctx⟩ := h.told c (h.registered hreg).1
    have hmask := hctx.mask (by rw [hpc]; rfl)
    obtain ⟨hready, hlive⟩ := Ctx.calls_ready hctx.run
    have hserving := h.serving c (cb :: cbs) active hpc
    unfold Descriptors.callback at he
    unfold note
    rw [hpc]
    cases hserving with
    | read ho hrest =>
      dsimp only at he
      split_ifs at he with hfault
      obtain rfl := Option.some.inj he
      obtain ⟨ctx', hcall, hsent, hrequests, halike, hmask'⟩ :=
        told_read hctx.alike hmask ho.connstate ho.error hready hlive (Bool.not_eq_true _ ▸ hfault)
      have hdetaches := Ctx.handleRead_detaches (s.enter c (world reads writes fs))
      have hself := s.toDescriptors.member_conns c (s.enter c (world reads writes fs)).handleRead
      have hconn := (Ctx.handleRead_interest (s.enter c (world reads writes fs)) ho.connstate).1.connstate ho.connstate
      refine h.recorded ctx' hloop hreg honly hrunning (s.toDescriptors.member_apart c hdetaches).1
        (hctx.record hcall hsent hrequests ?_ ?_ ?_) (fun _ => .rest hrest ?_) ?_
      · exact (congrArg HttpData.fd hself).trans hdetaches.1
      · exact hself ▸ halike
      · exact hself ▸ hmask'
      · rw [hself]; exact hconn
      · rintro rfl
        simp at hrest
    | write hconn =>
      obtain rfl := Option.some.inj he
      obtain ⟨ctx', hcall, hsent, hrequests, halike, hmask'⟩ := told_write s.heap reads writes fs hctx.alike
        hmask hconn hlive
      have hdetaches := (s.enter c (world reads writes fs)).handleWrite_frame.detaches
      have hself := s.toDescriptors.member_conns c (s.enter c (world reads writes fs)).handleWrite
      have hstays := (Ctx.handleWrite_interest (s.enter c (world reads writes fs)) hconn).1.connstate hconn
      refine h.recorded ctx' hloop hreg honly hrunning (s.toDescriptors.member_apart c hdetaches).1
        (hctx.record hcall hsent hrequests ?_ ?_ ?_) (fun _ => .conn ?_) (fun hne => absurd hne (List.cons_ne_nil _ _))
      · exact (congrArg HttpData.fd hself).trans hdetaches.1
      · exact hself ▸ halike
      · exact hself ▸ hmask'
      · rw [hself]; exact hstays
    | error ho =>
      obtain rfl := Option.some.inj he
      exact h.unrecorded ctx hloop hreg honly hrunning (.refl _ _) (hctx.owned (.refl _) rfl rfl rfl (by rintro ⟨⟩))
        fun _ _ => ho
    | conn hconn =>
      obtain rfl := Option.some.inj he
      rcases s.toDescriptors.handleConn_outcome c now ok with ⟨howned, herr⟩ | hcloses
      · exact h.unrecorded ctx hloop hreg honly hrunning howned.toApart
          (hctx.owned howned.self rfl rfl rfl (by rintro ⟨⟩)) fun _ _ => Open.owned ⟨herr, hconn⟩ howned.self
      · obtain ⟨g, hg, hclosed⟩ := hcloses.self
        have hfd : ((s.handleConn c now ok).conns c).fd = (s.conns c).fd := by rw [hclosed]; exact hg.fd
        refine h.unrecorded ctx hloop hreg honly hrunning hcloses.toApart ⟨?_, hctx.sent, hctx.requests, ?_, ?_⟩ ?_
        · exact hfd ▸ hctx.run
        · change Alike ((s.handleConn c now ok).conns c) ctx.http
          rw [hclosed]
          exact (hctx.alike.owned hg).closed
        · rintro ⟨⟩
        · intro fd hfd'
          have hentry := (hloop.counted.http fd c hfd').2
          have hentry : ((s.handleConn c now ok).conns c).fd = fd := hentry
          rw [← hentry, hfd, hcloses.gone] at hfd'
          cases hfd'
  · cases hd

/-! ### Functors and timers -/

theorem newEvent_inv {now : Timeval} {ok : Bool} (h : Inv s) (hloop : Descriptors.Inv d)
    (hd : s.toDescriptors.step (.newEvent now ok) = some d) : Inv { s with toDescriptors := d } := by
  simp only [Descriptors.step] at hd
  split at hd
  · rename_i c fs hpc
    obtain rfl := Option.some.inj hd
    have howned : Owned s.toConnections ((s.newEvent c now ok).endFunctors fs).toConnections c := by
      rw [Descriptors.endFunctors_plain]
      exact s.toDescriptors.newEvent_owned c now ok
    set e : Descriptors := { (s.newEvent c now ok).endFunctors fs with pc := .functors fs }
    have hapart : Apart s.toConnections e.toConnections c :=
      ⟨howned.conns, howned.http, howned.heap, howned.pendingFunctors, howned.nextConn⟩
    have hqueued : s.queued = c :: (fs ++ s.pendingFunctors) := by
      unfold Connections.queued
      rw [hpc]; rfl
    have hafter : e.queued = fs ++ s.pendingFunctors := by
      unfold Connections.queued
      rw [hapart.pendingFunctors]; rfl
    have hmem : c ∈ s.queued := hqueued ▸ List.mem_cons_self
    have hlt : c < s.nextConn := by
      refine (h.loop.counted.bound c (h.loop.counted.live_of_reference (Descriptors.mem_references.2 ?_))).1
      exact Or.inr (Or.inr (Or.inr (Or.inl (h.loop.running c (by rw [hpc]; exact List.mem_cons_self)))))
    have hnodup := h.queue_nodup
    rw [hqueued] at hnodup
    obtain ⟨ctx, hctx⟩ := h.told c hlt
    refine h.on (t := { s with toDescriptors := e }) hloop hapart hlt (fun _ _ => ⟨rfl, rfl, rfl⟩)
      (fun b _ => by rw [hpc]; rintro ⟨⟩) (fun b _ => by rintro ⟨⟩) ?_ ?_
      ⟨ctx, hctx.owned ?_ rfl rfl rfl (by rintro ⟨⟩)⟩ (fun fd _ _ => ?_) (fun cbs active => by rintro ⟨⟩)
    · change e.queued.Sublist _
      rw [hafter, hqueued]
      exact List.sublist_cons_self _ _
    · change c ∉ e.queued
      rw [hafter]
      exact (List.nodup_cons.1 hnodup).1
    · exact howned.self
    · exact (h.queue c hmem).1.owned howned.self
  · cases hd

/-- a timer is popped, which may close its connection -/
theorem pop_inv {timer : Timer} {ok : Bool} (h : Inv s) (hpc : s.pc = .functors []) (ht : timer ∈ s.heap)
    (hloop : Descriptors.Inv (s.toDescriptors.pop timer ok)) :
    Inv { s with toDescriptors := s.toDescriptors.pop timer ok } := by
  have herase : (held (s.heap.erase timer)).Sublist (held s.heap) := (List.erase_sublist (a := timer)).filterMap _
  have hpop := (h.loop.counted.pop ht ok).2.2
  unfold Descriptors.pop at hloop hpop ⊢
  dsimp only at hloop hpop ⊢
  cases hdata : timer.httpdata with
  | none =>
    rw [hdata] at hloop hpop
    exact h.quiet hloop (fun _ => .refl _) rfl herase rfl (by rw [hpc]; rfl) (by rw [hpop, hpc]; rfl) rfl
  | some c =>
    rw [hdata] at hloop hpop
    dsimp only at hloop hpop ⊢
    have hheld : c ∈ held s.heap := mem_held.2 ⟨timer, ht, hdata⟩
    have hcloses : Closes { s.toConnections with heap := s.heap.erase timer }
        (({ s.toDescriptors with heap := s.heap.erase timer }.handleClose c ok).release c).toConnections c := by
      rw [Descriptors.release_toConnections]
      exact Descriptors.handleClose_closes { s.toDescriptors with heap := s.heap.erase timer } c ok
    generalize ({ s.toDescriptors with heap := s.heap.erase timer }.handleClose c ok).release c = e at hloop hpop hcloses ⊢
    have hapart : Apart s.toConnections e.toConnections c := (Apart.setHeap s.toConnections c herase).trans hcloses.toApart
    obtain ⟨g, hg, hclosed⟩ := hcloses.self
    have hfd : (e.conns c).fd = (s.conns c).fd := by rw [hclosed]; exact hg.fd
    have hlt : c < s.nextConn :=
      (h.loop.counted.bound c (h.loop.counted.live_of_reference
        (Descriptors.mem_references.2 (Or.inr (Or.inl (mem_held.1 hheld)))))).1
    have hqueued : e.queued = s.queued := by
      unfold Connections.queued
      rw [hpop, hapart.pendingFunctors]
    have hidle : Connections.LoopPc.handled e.pc = none := by rw [hpop, hpc]; rfl
    obtain ⟨ctx, hctx⟩ := h.told c hlt
    have hgone : ∀ fd, e.fd2http fd ≠ some c := by
      intro fd hc
      have hentry := (hloop.counted.http fd c hc).2
      rw [← hentry, hfd] at hc
      exact absurd (hc.symm.trans hcloses.gone) (by simp)
    refine h.on (t := { s with toDescriptors := e }) hloop hapart hlt (fun _ _ => ⟨rfl, rfl, rfl⟩)
      (fun b _ => by rw [hpc]; rintro ⟨⟩) (fun b _ => ?_) ?_ ?_
      ⟨ctx, ⟨?_, hctx.sent, hctx.requests, ?_, ?_⟩⟩ (fun fd hc _ => absurd hc (hgone fd)) ?_
    · change Connections.LoopPc.handled e.pc ≠ _
      rw [hidle]; simp
    · change e.queued.Sublist _
      rw [hqueued]
    · change c ∉ e.queued
      rw [hqueued]
      exact fun hq => (h.queue c hq).2.2 hheld
    · exact hfd ▸ hctx.run
    · change Alike (e.conns c) ctx.http
      rw [hclosed]
      exact (hctx.alike.owned hg).closed
    · intro hc
      exact absurd (hidle.symm.trans hc) (by simp)
    · intro cbs active hc
      rw [show e.pc = _ from hc] at hidle
      cases hidle

theorem handleExpired_inv {top : Option Timer} {now : Timeval} {ok : Bool} (h : Inv s) (hloop : Descriptors.Inv d)
    (hd : s.toDescriptors.step (.handleExpired top now ok) = some d) : Inv { s with toDescriptors := d } := by
  simp only [Descriptors.step] at hd
  by_cases hpc : s.pc = .functors []
  · rw [if_pos hpc] at hd
    have hend : ∀ d : Descriptors, d = { s.toDescriptors with pc := .poll } → Descriptors.Inv d →
        Inv { s with toDescriptors := d } := by
      rintro d rfl hloop
      refine h.quiet hloop (fun _ => .refl _) rfl (.refl _) rfl (by rw [hpc]; rfl) rfl ?_
      unfold Connections.queued
      rw [hpc]; rfl
    cases top with
    | none =>
      dsimp only at hd
      split_ifs at hd
      exact hend d (Option.some.inj hd).symm hloop
    | some timer =>
      dsimp only at hd
      split_ifs at hd with htop hdone
      · obtain rfl := Option.some.inj hd
        exact pop_inv h hpc htop.1 hloop
      · exact hend d (Option.some.inj hd).symm hloop
  · rw [if_neg hpc] at hd
    cases hd

/-! ## Runs -/

theorem step_inv {o : Descriptors.Op} (h : Inv s) (hst : s.step o = some t) : Inv t := by
  obtain ⟨d, hd, rfl⟩ := Option.map_eq_some_iff.1 hst
  have hloop := Descriptors.step_inv h.loop hd
  cases o with
  | accept => exact accept_inv h hloop hd
  | endAccept => exact endAccept_inv h hloop hd
  | poll => exact poll_inv h hloop hd
  | handleEvents => exact handleEvents_inv h hloop hd
  | callback => exact callback_inv h hloop hd
  | doPendingFunctors => exact doPendingFunctors_inv h hloop hd
  | newEvent => exact newEvent_inv h hloop hd
  | handleExpired => exact handleExpired_inv h hloop hd

theorem run_inv {ops : List Descriptors.Op} (hrun : Machine.run step init ops = some s) : Inv s :=
  Machine.run_inv (fun _ _ _ h hst => step_inv h hst) inv_init hrun

/-- **Connections do not disturb each other.** In every run of a loop, whatever it does with its other connections, their
timers and their descriptors, what a connection has sent and accepted, and its record but for the channel, the timer and
its end, is what its own calls make of a new connection. -/
theorem connections_apart {ops : List Descriptors.Op} (hrun : Machine.run step init ops = some s) (c : ConnId)
    (hc : c < s.nextConn) :
    ∃ ctx, Machine.run Ctx.call (.fresh (s.conns c).fd) (s.calls c) = some ctx ∧ s.sent c = ctx.io.sent ∧
      s.requests c = ctx.io.requests ∧ Alike (s.conns c) ctx.http := by
  obtain ⟨ctx, hctx⟩ := (run_inv hrun).told c hc
  exact ⟨ctx, hctx.run, hctx.sent.symm, hctx.requests.symm, hctx.alike⟩

/-- the loop registers the connection that has been accepted last -/
def registers : List Descriptors.Op := [.endAccept, .poll [], .doPendingFunctors, .newEvent ⟨0, 0⟩ true]

/-- the request of one connection comes in two parts, and the second connection is handled between them -/
def betweenTwoReads : List Descriptors.Op :=
  let fs : FileSystem := fun _ => .regular (ascii "hi")
  let first : Option Timer := some (.new 0 0 2000 ⟨0, 0⟩)
  [.accept 5] ++ registers ++ [.handleExpired first ⟨0, 0⟩ true, .accept 6] ++ registers ++
    [.handleExpired first ⟨0, 0⟩ true, .poll [(5, EPOLLIN), (6, EPOLLIN)], .handleEvents,
      .callback [.data (ascii "GET /a HTTP/1.1\r\nHo"), .again] [] fs ⟨0, 0⟩ true, .callback [] [] fs ⟨0, 0⟩ true,
      .handleEvents, .callback [.data (ascii "BAD\r\n"), .again] [.wrote 1000] fs ⟨0, 0⟩ false,
      .callback [] [] fs ⟨0, 0⟩ true, .doPendingFunctors,
      .handleExpired (some (Timer.new 0 0 2000 ⟨0, 0⟩).reset) ⟨0, 0⟩ true]

theorem connections_apart_two : ∃ s, Machine.run step init betweenTwoReads = some s ∧ 0 < s.nextConn ∧
    ∃ ctx, Machine.run Ctx.call (.fresh (s.conns 0).fd) (s.calls 0) = some ctx ∧ s.sent 0 = ctx.io.sent ∧
      s.requests 0 = ctx.io.requests ∧ Alike (s.conns 0) ctx.http := by
  have hend : (Machine.run step init betweenTwoReads).map (fun s => s.nextConn) = some 2 := by decide +kernel
  obtain ⟨s, hrun, hnext⟩ := Option.map_eq_some_iff.1 hend
  have hpos : 0 < s.nextConn := by rw [hnext]; decide
  exact ⟨s, hrun, hpos, connections_apart hrun 0 hpos⟩

end Observed

end Glacier
