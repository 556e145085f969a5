/-
The invariant that connects use counts, table entries and the kernel's descriptors, and what it says of every run.

`Counted d extra` holds at every point inside a step: the counts are right for the references that the tables, the timers,
the queues and req_info hold, together with `extra`, those of guards, functors that run and vectors that are being destroyed.
A connection with a count owns its descriptor, and one without has closed it. `Counted.update` carries it over whatever
neither makes nor destroys an object, `Counted.release` over the drop of a reference; every operation of the poller and of
HttpData is made of these.
-/
import Glacier.Net.Descriptors
import Glacier.Net.NoLeak

namespace Glacier

open Cxx

/-! ## Timers that let go of connections -/

namespace Ctx

/-- a callback keeps the descriptor, and detaches timers at most -/
def Detaches (c d : Ctx) : Prop := d.http.fd = c.http.fd ∧ (held d.timers).Sublist (held c.timers)

theorem Detaches.trans {c d e : Ctx} (h1 : Detaches c d) (h2 : Detaches d e) : Detaches c e :=
  ⟨h2.1.trans h1.1, h2.2.trans h1.2⟩

theorem Watched.detaches {c d : Ctx} (h : Watched c d) : Detaches c d := by
  refine ⟨h.fd, ?_⟩
  rcases h.timer with ⟨ht, -⟩ | ⟨ht, -⟩
  · rw [ht]
  · rw [ht]; exact held_resetTimer _ _

theorem Wrote.detaches {c d : Ctx} (h : Wrote c d) : Detaches c d := by
  obtain ⟨ev, err, out, hhttp, htimers, -⟩ := h
  exact ⟨by rw [hhttp], by rw [htimers]⟩

theorem respond_detaches (c : Ctx) : Detaches c c.respond.1 :=
  c.respond_ends (P := Detaches c) ⟨rfl, .refl _⟩ c.flush_frame.detaches (fun _ h => h.trans (reset_watched _).detaches)
    (fun _ _ h => h.trans ⟨rfl, .refl _⟩)

theorem handleRead_detaches (c : Ctx) : Detaches c c.handleRead := by
  refine handleRead_rel (fun c => ⟨rfl, .refl _⟩) (fun c d e h1 h2 => h1.trans h2) ?_ c
  exact fun c => c.receive_watched.detaches.trans c.receive.respond_detaches

end Ctx

/-! ## The trace -/

theorem closed_append (trace : List Act) (a : Act) : closed (trace ++ [a]) = closed trace ++ closed [a] := by
  simp [closed]

/-- every act of the trace is what it must be after those before it -/
def Orderly (trace : List Act) : Prop := ∀ past a rest, trace = past ++ a :: rest → a.Proper past

theorem Orderly.append {trace : List Act} {a : Act} (h : Orderly trace) (ha : a.Proper trace) : Orderly (trace ++ [a]) := by
  intro past b rest heq
  rcases List.eq_nil_or_concat rest with rfl | ⟨rest, x, rfl⟩
  · obtain ⟨rfl, hb⟩ := List.append_inj' heq rfl
    cases hb
    exact ha
  · rw [List.concat_eq_append, ← List.cons_append, ← List.append_assoc] at heq
    exact h past b rest (List.append_inj' heq rfl).1

namespace Descriptors

/-! ## What the primitives leave alone -/

@[simp] theorem log_toConnections (d : Descriptors) (a : Act) : (d.log a).toConnections = d.toConnections := rfl
@[simp] theorem acquire_toConnections (d : Descriptors) (c : ConnId) : (d.acquire c).toConnections = d.toConnections := rfl

@[simp] theorem release_toConnections (d : Descriptors) (c : ConnId) : (d.release c).toConnections = d.toConnections := by
  unfold release
  dsimp only
  split_ifs <;> rfl

@[simp] theorem release_functors (d : Descriptors) (c : ConnId) : (d.release c).functors = d.functors := by
  unfold release
  dsimp only
  split_ifs <;> rfl

theorem releaseAll_cons (d : Descriptors) (c : ConnId) (cs : List ConnId) :
    d.releaseAll (c :: cs) = (d.release c).releaseAll cs := rfl

@[simp] theorem releaseAll_toConnections (d : Descriptors) (cs : List ConnId) :
    (d.releaseAll cs).toConnections = d.toConnections := by
  induction cs generalizing d with
  | nil => rfl
  | cons c cs ih => rw [releaseAll_cons, ih, release_toConnections]

@[simp] theorem releaseAll_functors (d : Descriptors) (cs : List ConnId) : (d.releaseAll cs).functors = d.functors := by
  induction cs generalizing d with
  | nil => rfl
  | cons c cs ih => rw [releaseAll_cons, ih, release_functors]

/-! ## The invariant -/

/-- the references that are kept between two steps -/
def references (d : Descriptors) : List ConnId :=
  (List.range MAXFDS).filterMap d.fd2http ++ (held d.heap ++ (d.pendingFunctors ++ (d.functors ++ d.reqInfo.toList)))

theorem mem_references {d : Descriptors} {c : ConnId} : c ∈ d.references ↔
    (∃ fd < MAXFDS, d.fd2http fd = some c) ∨ (∃ t ∈ d.heap, t.httpdata = some c) ∨ c ∈ d.pendingFunctors ∨
      c ∈ d.functors ∨ d.reqInfo = some c := by
  unfold references
  simp only [List.mem_append, UseCount.mem_slots, mem_held, Option.mem_toList]

structure Counted (d : Descriptors) (extra : List ConnId) : Prop where
  balanced : UseCount.Balanced d.refs (extra ++ d.references)
  http : ∀ fd c, d.fd2http fd = some c → fd < MAXFDS ∧ (d.conns c).fd = fd
  chan : ∀ fd c, d.fd2chan fd = some c → d.fd2http fd = some c
  owner : ∀ fd c, d.owner fd = some c ↔ 0 < d.refs c ∧ (d.conns c).fd = fd
  bound : ∀ c, 0 < d.refs c → c < d.nextConn ∧ (d.conns c).fd < MAXFDS
  closed : ∀ c, c ∈ closed d.trace ↔ c < d.nextConn ∧ d.refs c = 0
  orderly : Orderly d.trace

variable {d d' : Descriptors} {extra extra' : List ConnId} {c : ConnId}

theorem Counted.live_of_mem (h : Counted d extra) (hc : c ∈ extra ++ d.references) : 0 < d.refs c :=
  h.balanced.pos_iff.2 hc

theorem Counted.live_of_reference (h : Counted d extra) (hc : c ∈ d.references) : 0 < d.refs c :=
  h.live_of_mem (List.mem_append_right _ hc)

theorem Counted.live_of_http (h : Counted d extra) {fd : ℕ} (hc : d.fd2http fd = some c) : 0 < d.refs c :=
  h.live_of_reference (mem_references.2 (Or.inl ⟨fd, (h.http fd c hc).1, hc⟩))

/-- two connections that are not destroyed have different descriptors -/
theorem Counted.eq_of_fd (h : Counted d extra) {c' : ConnId} (hc : 0 < d.refs c) (hc' : 0 < d.refs c')
    (hfd : (d.conns c).fd = (d.conns c').fd) : c = c' := by
  have howner := (h.owner _ c).2 ⟨hc, rfl⟩
  have howner' := (h.owner _ c').2 ⟨hc', rfl⟩
  rw [hfd, howner'] at howner
  exact (Option.some.inj howner).symm

theorem Counted.sound (h : Counted d extra) : d.tables.Sound := by
  intro fd c hc
  have hhttp : d.fd2http fd = some c := by
    rcases hc with hc | hc
    · exact h.chan fd c hc
    · exact hc
  exact (h.owner fd c).2 ⟨h.live_of_http hhttp, (h.http fd c hhttp).2⟩

theorem Counted.referred_iff (h : Counted d extra) : d.tables.Referred c ↔ c ∈ d.references := by
  unfold Tables.Referred Tables.Held
  rw [mem_references, or_assoc, or_assoc, or_assoc]
  apply or_congr_left
  constructor
  · rintro ⟨fd, hfd⟩
    exact ⟨fd, (h.http fd c hfd).1, hfd⟩
  · rintro ⟨fd, -, hfd⟩
    exact ⟨fd, hfd⟩

/-- whatever neither makes nor destroys an object -/
theorem Counted.update (h : Counted d extra) (hbalanced : UseCount.Balanced d'.refs (extra' ++ d'.references))
    (hlive : ∀ c, 0 < d'.refs c ↔ 0 < d.refs c) (hfd : ∀ c, (d'.conns c).fd = (d.conns c).fd)
    (hhttp : ∀ fd c, d'.fd2http fd = some c → fd < MAXFDS ∧ (d.conns c).fd = fd)
    (hchan : ∀ fd c, d'.fd2chan fd = some c → d'.fd2http fd = some c) (howner : d'.owner = d.owner)
    (hnext : d'.nextConn = d.nextConn) (htrace : d'.trace = d.trace) : Counted d' extra' where
  balanced := hbalanced
  http := by
    intro fd c hc
    rw [hfd]; exact hhttp fd c hc
  chan := hchan
  owner := by
    intro fd c
    rw [howner, hlive, hfd]; exact h.owner fd c
  bound := by
    intro c hc
    rw [hnext, hfd]; exact h.bound c ((hlive c).1 hc)
  closed := by
    intro c
    have hzero : d'.refs c = 0 ↔ d.refs c = 0 := by
      have := hlive c
      omega
    rw [htrace, hnext, h.closed, hzero]
  orderly := by rw [htrace]; exact h.orderly

/-! ## Shared pointers -/

theorem Counted.acquire (h : Counted d extra) (hc : 0 < d.refs c) : Counted (d.acquire c) (c :: extra) := by
  refine h.update (h.balanced.acquire c) ?_ (fun _ => rfl) h.http h.chan rfl rfl rfl
  intro b
  change 0 < UseCount.acquire d.refs c b ↔ 0 < d.refs b
  unfold UseCount.acquire
  by_cases hb : b = c
  · subst hb
    rw [Function.update_self]; omega
  · rw [Function.update_of_ne hb]

/-- the last reference to `c` is dropped -/
theorem Counted.destroy (h : Counted d (c :: extra)) (hlast : UseCount.release d.refs c c = 0) :
    Counted ({ d with refs := UseCount.release d.refs c }.destroy c) extra := by
  have hbalanced := h.balanced.release
  have hgone : c ∉ extra ++ d.references := hbalanced.eq_zero_iff.1 hlast
  have hlive : 0 < d.refs c := h.live_of_mem List.mem_cons_self
  have hrest : ∀ b, b ≠ c → UseCount.release d.refs c b = d.refs b := fun b hb => Function.update_of_ne hb _ _
  have hentry : ∀ fd, d.fd2http fd ≠ some c := by
    intro fd hfd
    apply hgone
    apply List.mem_append_right
    exact mem_references.2 (Or.inl ⟨fd, (h.http fd c hfd).1, hfd⟩)
  constructor
  · exact hbalanced
  · exact h.http
  · exact h.chan
  · -- owner
    intro fd b
    change Function.update d.owner (d.conns c).fd none fd = some b ↔
      0 < UseCount.release d.refs c b ∧ (d.conns b).fd = fd
    by_cases hb : b = c
    · subst hb
      rw [hlast]
      by_cases hfd : fd = (d.conns b).fd
      · rw [hfd, Function.update_self]; simp
      · rw [Function.update_of_ne hfd, h.owner]
        simp [Ne.symm hfd]
    · rw [hrest b hb]
      by_cases hfd : fd = (d.conns c).fd
      · rw [hfd, Function.update_self]
        constructor
        · intro hnone; cases hnone
        · intro ⟨hb', hfd'⟩
          exact absurd (h.eq_of_fd hb' hlive hfd') hb
      · rw [Function.update_of_ne hfd]; exact h.owner fd b
  · -- bound
    intro b hb
    by_cases hbc : b = c
    · subst hbc
      exact h.bound b hlive
    · exact h.bound b (hrest b hbc ▸ hb)
  · -- closed
    intro b
    change b ∈ Glacier.closed (d.trace ++ [.close c (d.conns c).fd d.tables]) ↔
      b < d.nextConn ∧ UseCount.release d.refs c b = 0
    rw [closed_append, List.mem_append, h.closed]
    by_cases hb : b = c
    · subst hb
      simp [Glacier.closed, hlast, (h.bound b hlive).1]
    · rw [hrest b hb]
      simp [Glacier.closed, hb]
  · -- orderly
    apply h.orderly.append
    refine ⟨?_, h.sound, (h.owner _ c).2 ⟨hlive, rfl⟩, ?_, ?_⟩
    · rw [h.closed]
      intro ⟨_, hzero⟩
      exact hlive.ne' hzero
    · intro fd
      exact ⟨fun hfd => hentry fd (h.chan fd c hfd), hentry fd⟩
    · intro hreferred
      exact hgone (List.mem_append_right _ (h.referred_iff.1 hreferred))

theorem Counted.release (h : Counted d (c :: extra)) : Counted (d.release c) extra := by
  unfold Descriptors.release
  dsimp only
  split_ifs with hlast
  · exact h.destroy hlast
  · refine h.update h.balanced.release ?_ (fun _ => rfl) h.http h.chan rfl rfl rfl
    intro b
    change 0 < UseCount.release d.refs c b ↔ 0 < d.refs b
    by_cases hb : b = c
    · subst hb
      have hlive : 0 < d.refs b := h.live_of_mem List.mem_cons_self
      exact ⟨fun _ => hlive, fun _ => Nat.pos_of_ne_zero hlast⟩
    · unfold UseCount.release
      rw [Function.update_of_ne hb]

theorem Counted.releaseAll {cs : List ConnId} (h : Counted d (cs ++ extra)) : Counted (d.releaseAll cs) extra := by
  induction cs generalizing d with
  | nil => exact h
  | cons c cs ih =>
    rw [releaseAll_cons]
    exact ih h.release

theorem Counted.log (h : Counted d extra) {a : Act} (ha : a.Proper d.trace) (hclosed : Glacier.closed [a] = []) :
    Counted (d.log a) extra where
  balanced := h.balanced
  http := h.http
  chan := h.chan
  owner := h.owner
  bound := h.bound
  closed := by
    intro b
    change b ∈ Glacier.closed (d.trace ++ [a]) ↔ _
    rw [closed_append, hclosed, List.append_nil]; exact h.closed b
  orderly := h.orderly.append ha

/-- a member function of an object that is not destroyed -/
theorem Counted.runs (h : Counted d extra) (hc : 0 < d.refs c) : Counted (d.log (.runs c)) extra := by
  refine h.log ?_ rfl
  change c ∉ Glacier.closed d.trace
  rw [h.closed]
  intro ⟨_, hzero⟩
  exact hc.ne' hzero

/-- fd2http_[fd] = p, where `p` owns the descriptor and the entry of fd2chan_ is for it -/
theorem Counted.setHttp (h : Counted d extra) {fd : ℕ} (hfd : fd < MAXFDS) {p : Option ConnId}
    (hp : ∀ c, p = some c → 0 < d.refs c ∧ (d.conns c).fd = fd) (hchan : ∀ c, d.fd2chan fd = some c → p = some c) :
    Counted (d.setHttp fd p) extra := by
  have hacquired : Counted (p.toList.foldl Descriptors.acquire d) (p.toList ++ extra) ∧
      (p.toList.foldl Descriptors.acquire d).toConnections = d.toConnections ∧
      (p.toList.foldl Descriptors.acquire d).functors = d.functors ∧
      (p.toList.foldl Descriptors.acquire d).reqInfo = d.reqInfo := by
    cases p with
    | none => exact ⟨h, rfl, rfl, rfl⟩
    | some c => exact ⟨h.acquire (hp c rfl).1, rfl, rfl, rfl⟩
  unfold Descriptors.setHttp
  generalize p.toList.foldl Descriptors.acquire d = e at hacquired ⊢
  obtain ⟨he, hconns, hfunctors, hreqInfo⟩ := hacquired
  apply Counted.releaseAll
  have hhttp : e.fd2http = d.fd2http := congrArg Connections.fd2http hconns
  refine he.update ?_ (fun _ => Iff.rfl) (fun _ => rfl) ?_ ?_ rfl rfl rfl
  · -- balanced
    apply he.balanced.perm
    have hslots := UseCount.slots_update (f := d.fd2http) hfd p
    have hreferences : e.references = (List.range MAXFDS).filterMap d.fd2http ++
        (held e.heap ++ (e.pendingFunctors ++ (e.functors ++ e.reqInfo.toList))) := by
      rw [references, hhttp]
    rw [hreferences]
    change (p.toList ++ extra ++ ((List.range MAXFDS).filterMap d.fd2http ++ _)).Perm
      ((d.fd2http fd).toList ++ extra ++ ((List.range MAXFDS).filterMap (Function.update d.fd2http fd p) ++ _))
    rw [List.perm_iff_count] at hslots ⊢
    intro b
    have hb := hslots b
    simp only [List.count_append] at hb ⊢
    omega
  · -- http
    intro fd' b hb
    change Function.update d.fd2http fd p fd' = some b at hb
    by_cases hne : fd' = fd
    · subst hne
      rw [Function.update_self] at hb
      rw [hconns]
      exact ⟨hfd, (hp b hb).2⟩
    · rw [Function.update_of_ne hne] at hb
      exact he.http fd' b (hhttp ▸ hb)
  · -- chan
    intro fd' b hb
    change Function.update d.fd2http fd p fd' = some b
    have hentry : d.fd2chan fd' = some b := (congrArg (fun l => Connections.fd2chan l fd') hconns).symm.trans hb
    by_cases hne : fd' = fd
    · subst hne
      rw [Function.update_self]; exact hchan b hentry
    · rw [Function.update_of_ne hne]; exact h.chan fd' b hentry

/-- timers that are detached or dropped -/
theorem Counted.setHeap (h : Counted d extra) {heap : List Timer} (hheap : (held heap).Sublist (held d.heap)) :
    Counted (d.setHeap heap) extra := by
  unfold Descriptors.setHeap
  apply Counted.releaseAll
  refine h.update ?_ (fun _ => Iff.rfl) (fun _ => rfl) h.http h.chan rfl rfl rfl
  apply h.balanced.perm
  have hdiff : (held heap ++ (held d.heap).diff (held heap)).Perm (held d.heap) :=
    List.subperm_append_diff_self_of_count_le fun b _ => hheap.count_le b
  unfold references
  dsimp only
  rw [List.perm_iff_count] at hdiff ⊢
  intro b
  have hb := hdiff b
  simp only [List.count_append] at hb ⊢
  omega

/-! ## What an operation on `c` leaves to the others -/

structure Frame (d d' : Descriptors) (c : ConnId) : Prop where
  fd : ∀ b, (d'.conns b).fd = (d.conns b).fd
  http : ∀ fd, fd ≠ (d.conns c).fd → d'.fd2http fd = d.fd2http fd
  functors : d'.functors = d.functors
  pc : d'.pc = d.pc

theorem Frame.trans {d'' : Descriptors} (h1 : Frame d d' c) (h2 : Frame d' d'' c) : Frame d d'' c where
  fd := fun b => (h2.fd b).trans (h1.fd b)
  http := fun fd hfd => (h2.http fd (by rw [h1.fd]; exact hfd)).trans (h1.http fd hfd)
  functors := h2.functors.trans h1.functors
  pc := h2.pc.trans h1.pc

/-- shared pointers and the trace -/
theorem Frame.of_toConnections (h : d'.toConnections = d.toConnections) (hf : d'.functors = d.functors) : Frame d d' c where
  fd := by
    intro b
    rw [h]
  http := by
    intro fd _
    rw [h]
  functors := hf
  pc := by rw [h]

theorem log_frame (d : Descriptors) (a : Act) (c : ConnId) : Frame d (d.log a) c := .of_toConnections rfl rfl

theorem setHttp_toConnections (d : Descriptors) (fd : ℕ) (p : Option ConnId) :
    (d.setHttp fd p).toConnections = { d.toConnections with fd2http := Function.update d.fd2http fd p } := by
  unfold setHttp
  rw [releaseAll_toConnections]
  cases p <;> rfl

theorem setHttp_functors (d : Descriptors) (fd : ℕ) (p : Option ConnId) : (d.setHttp fd p).functors = d.functors := by
  unfold setHttp
  rw [releaseAll_functors]
  cases p <;> rfl

theorem setHttp_frame (d : Descriptors) (c : ConnId) (p : Option ConnId) : Frame d (d.setHttp (d.conns c).fd p) c where
  fd := by
    intro b
    rw [setHttp_toConnections]
  http := by
    intro fd hfd
    rw [setHttp_toConnections]; exact Function.update_of_ne hfd _ _
  functors := setHttp_functors _ _ _
  pc := by rw [setHttp_toConnections]

theorem setHeap_toConnections (d : Descriptors) (heap : List Timer) :
    (d.setHeap heap).toConnections = { d.toConnections with heap := heap } := by
  unfold setHeap
  rw [releaseAll_toConnections]

theorem setHeap_frame (d : Descriptors) (heap : List Timer) : Frame d (d.setHeap heap) c where
  fd := by
    intro b
    rw [setHeap_toConnections]
  http := by
    intro fd _
    rw [setHeap_toConnections]
  functors := by unfold setHeap; rw [releaseAll_functors]
  pc := by rw [setHeap_toConnections]

theorem set_fd (l : Connections) {c : ConnId} {h : HttpData} (hfd : h.fd = (l.conns c).fd) (b : ConnId) :
    ((l.set c h).conns b).fd = (l.conns b).fd := by
  by_cases hb : b = c
  · subst hb
    rw [Connections.set_conns_self]; exact hfd
  · rw [Connections.set_conns_of_ne l h hb]

theorem setConn_frame {h : HttpData} (hfd : h.fd = (d.conns c).fd) : Frame d (d.setConn c h) c where
  fd := set_fd d.toConnections hfd
  http := fun _ _ => rfl
  functors := rfl
  pc := rfl

theorem Counted.setConn (h : Counted d extra) {g : HttpData} (hfd : g.fd = (d.conns c).fd) :
    Counted (d.setConn c g) extra :=
  h.update h.balanced (fun _ => Iff.rfl) (set_fd d.toConnections hfd) h.http h.chan rfl rfl rfl

theorem setEvents_frame (d : Descriptors) (c : ConnId) (ev : Events) : Frame d (d.setEvents c ev) c := setConn_frame rfl

theorem Counted.setEvents (h : Counted d extra) (ev : Events) : Counted (d.setEvents c ev) extra := h.setConn rfl

/-! ## The poller -/

theorem getHolder_of_live (hc : 0 < d.refs c) : d.getHolder c = some c := if_pos hc

theorem Counted.addTimer (h : Counted d extra) (hc : 0 < d.refs c) (timeout : ℕ) (now : Timeval) :
    Counted (d.addTimer c timeout now) extra ∧ Frame d (d.addTimer c timeout now) c ∧
      0 < (d.addTimer c timeout now).refs c ∧ (d.addTimer c timeout now).fd2chan = d.fd2chan := by
  have hacquired := h.acquire hc
  have hfd : ∀ b, ((d.toConnections.addTimer c timeout now).conns b).fd = (d.conns b).fd :=
    set_fd d.toConnections rfl
  unfold Descriptors.addTimer
  rw [getHolder_of_live hc]
  dsimp only
  refine ⟨?_, ⟨hfd, fun _ _ => rfl, rfl, rfl⟩, ?_, rfl⟩
  · refine hacquired.update ?_ (fun _ => Iff.rfl) hfd h.http h.chan rfl rfl rfl
    apply hacquired.balanced.perm
    have hheld : held (d.toConnections.addTimer c timeout now).heap = c :: held d.heap := rfl
    unfold references
    rw [hheld, List.perm_iff_count]
    intro b
    change List.count b ((c :: extra) ++ ((List.range MAXFDS).filterMap d.fd2http ++ (held d.heap ++
      (d.pendingFunctors ++ (d.functors ++ d.reqInfo.toList))))) = List.count b (extra ++
        ((List.range MAXFDS).filterMap d.fd2http ++ (c :: held d.heap ++
          (d.pendingFunctors ++ (d.functors ++ d.reqInfo.toList)))))
    simp only [List.count_append, List.count_cons]
    omega
  · change 0 < UseCount.acquire d.refs c c
    rw [UseCount.acquire, Function.update_self]
    exact Nat.succ_pos _

/-- fd2chan_[fd] is set to the channel of the connection in fd2http_[fd], or reset -/
theorem Counted.setChan (h : Counted d extra) {fd : ℕ} {p : Option ConnId} (hp : ∀ b, p = some b → d.fd2http fd = some b)
    (ints : ℕ → Option Events) :
    Counted { d with fd2chan := Function.update d.fd2chan fd p, interest := ints } extra := by
  refine h.update h.balanced (fun _ => Iff.rfl) (fun _ => rfl) h.http ?_ rfl rfl rfl
  intro fd' b hb
  change Function.update d.fd2chan fd p fd' = some b at hb
  by_cases hne : fd' = fd
  · subst hne
    rw [Function.update_self] at hb
    exact hp b hb
  · rw [Function.update_of_ne hne] at hb
    exact h.chan fd' b hb

/-- **epoll_add**, whatever epoll_ctl returns. -/
theorem Counted.epollAdd (h : Counted d extra) (hc : 0 < d.refs c) {timeout : ℕ} (ht : 0 < timeout) (now : Timeval)
    (ok : Bool) : Counted (d.epollAdd c timeout now ok) extra ∧ Frame d (d.epollAdd c timeout now ok) c := by
  obtain ⟨htimed, hframe, hlive, hchan⟩ := h.addTimer hc timeout now
  unfold Descriptors.epollAdd
  dsimp only
  rw [if_pos ht, getHolder_of_live hlive]
  set e := d.addTimer c timeout now
  have hown : e.fd2chan (d.conns c).fd = some c ∨ e.fd2chan (d.conns c).fd = none := by
    cases he : e.fd2chan (d.conns c).fd with
    | none => exact Or.inr rfl
    | some b =>
      have hentry := htimed.chan _ b he
      have hb := htimed.eq_of_fd (htimed.live_of_http hentry) hlive
        ((htimed.http _ b hentry).2.trans (hframe.fd c).symm)
      rw [hb]; exact Or.inl rfl
  have hset : Counted (e.setHttp (d.conns c).fd (some c)) extra := by
    apply htimed.setHttp (h.bound c hc).2
    · intro b hb
      cases hb
      exact ⟨hlive, hframe.fd c⟩
    · intro b hb
      rcases hown with hown | hown
      · exact hown.symm.trans hb
      · rw [hown] at hb; cases hb
  have hsetFrame : Frame e (e.setHttp (d.conns c).fd (some c)) c := by
    rw [← hframe.fd c]; exact setHttp_frame e c _
  have hentry : (e.setHttp (d.conns c).fd (some c)).fd2http (d.conns c).fd = some c := by
    rw [setHttp_toConnections]; exact Function.update_self _ _ _
  set f := e.setHttp (d.conns c).fd (some c)
  constructor
  · apply Counted.setChan
    · exact hset.setConn rfl
    · intro b hb
      cases ok with
      | false => cases hb
      | true => cases hb; exact hentry
  · have hconn : Frame f (f.setConn c { f.conns c with
        channel := (f.conns c).channel.equalAndUpdateLastEvents.2 }) c := setConn_frame rfl
    exact (hframe.trans (hsetFrame.trans hconn)).trans ⟨fun _ => rfl, fun _ _ => rfl, rfl, rfl⟩

/-- **epoll_mod**, whatever epoll_ctl returns. -/
theorem Counted.epollMod (h : Counted d extra) (hc : 0 < d.refs c) {timeout : ℕ} (ht : 0 < timeout) (now : Timeval)
    (ok : Bool) : Counted (d.epollMod c timeout now ok) extra ∧ Frame d (d.epollMod c timeout now ok) c := by
  obtain ⟨htimed, hframe, -, -⟩ := h.addTimer hc timeout now
  unfold Descriptors.epollMod
  dsimp only
  rw [if_pos ht]
  set e := d.addTimer c timeout now
  have hconn : Frame e (e.setConn c { e.conns c with
      channel := (e.conns c).channel.equalAndUpdateLastEvents.2 }) c := setConn_frame rfl
  have hset : Counted (e.setConn c { e.conns c with
      channel := (e.conns c).channel.equalAndUpdateLastEvents.2 }) extra := htimed.setConn rfl
  split_ifs
  · exact ⟨hset, hframe.trans hconn⟩
  · exact ⟨hset.update hset.balanced (fun _ => Iff.rfl) (fun _ => rfl) hset.http hset.chan rfl rfl rfl,
      (hframe.trans hconn).trans ⟨fun _ => rfl, fun _ _ => rfl, rfl, rfl⟩⟩
  · exact ⟨hset.setChan (fun b hb => by cases hb) _,
      (hframe.trans hconn).trans ⟨fun _ => rfl, fun _ _ => rfl, rfl, rfl⟩⟩

/-- **epoll_del** clears no entry of another connection. -/
theorem Counted.epollDel (h : Counted d extra) (hc : 0 < d.refs c) (ok : Bool) :
    Counted (d.epollDel c ok) extra ∧ Frame d (d.epollDel c ok) c ∧ (d.epollDel c ok).fd2http (d.conns c).fd = none := by
  have hown : ∀ b, d.fd2http (d.conns c).fd = some b → b = c := fun b hb =>
    h.eq_of_fd (h.live_of_http hb) hc (h.http _ b hb).2
  unfold Descriptors.epollDel
  dsimp only
  set ints := if ok then Function.update d.interest (d.conns c).fd none else d.interest
  have hstart : (if ok = true then { d with interest := Function.update d.interest (d.conns c).fd none } else d) =
      { d with interest := ints } := by
    cases ok <;> rfl
  rw [hstart]
  set e : Descriptors := { d with fd2chan := Function.update d.fd2chan (d.conns c).fd none, interest := ints }
  have he : Counted e extra := h.setChan (fun b hb => by cases hb) ints
  have hchan : e.fd2chan (d.conns c).fd = none := Function.update_self _ _ _
  have hset : Counted (e.setHttp (d.conns c).fd none) extra := by
    apply he.setHttp (h.bound c hc).2
    · intro b hb
      cases hb
    · intro b hb
      rw [hchan] at hb; cases hb
  have hframe : Frame e (e.setHttp (d.conns c).fd none) c := setHttp_frame e c none
  have hconns := setHttp_toConnections e (d.conns c).fd none
  set f := e.setHttp (d.conns c).fd none
  have hhttp : f.fd2http = Function.update d.fd2http (d.conns c).fd none := congrArg Connections.fd2http hconns
  have hfchan : f.fd2chan = Function.update d.fd2chan (d.conns c).fd none := congrArg Connections.fd2chan hconns
  refine ⟨?_, ?_, ?_⟩
  · refine hset.log ⟨h.sound, hset.sound, ?_⟩ rfl
    intro fd b hb
    -- an entry of another connection is under another descriptor
    change (d.fd2chan fd = some b → f.fd2chan fd = some b) ∧ (d.fd2http fd = some b → f.fd2http fd = some b)
    rw [hfchan, hhttp]
    constructor
    · intro hentry
      have hne : fd ≠ (d.conns c).fd := by
        rintro rfl
        exact hb (hown b (h.chan _ b hentry))
      rw [Function.update_of_ne hne]; exact hentry
    · intro hentry
      have hne : fd ≠ (d.conns c).fd := by
        rintro rfl
        exact hb (hown b hentry)
      rw [Function.update_of_ne hne]; exact hentry
  · have hstart : Frame d e c := ⟨fun _ => rfl, fun _ _ => rfl, rfl, rfl⟩
    exact (hstart.trans hframe).trans (.of_toConnections rfl rfl)
  · change f.fd2http (d.conns c).fd = none
    rw [hhttp, Function.update_self]

/-! ## HttpData's members -/

theorem Counted.newEvent (h : Counted d extra) (hc : 0 < d.refs c) (now : Timeval) (ok : Bool) :
    Counted (d.newEvent c now ok) extra ∧ Frame d (d.newEvent c now ok) c := by
  have hruns := h.runs hc
  obtain ⟨hadd, hframe⟩ :=
    (hruns.setEvents (c := c) DEFAULT_EVENT).epollAdd hc (by decide : 0 < DEFAULT_EXPIRED_TIME) now ok
  exact ⟨hadd, ((log_frame d _ c).trans (setEvents_frame _ c DEFAULT_EVENT)).trans hframe⟩

/-- **handleClose** of an object that is not destroyed; its guard keeps the object until the end. -/
theorem Counted.handleClose (h : Counted d extra) (hc : 0 < d.refs c) (ok : Bool) :
    Counted (d.handleClose c ok) extra ∧ Frame d (d.handleClose c ok) c ∧
      (d.handleClose c ok).fd2http (d.conns c).fd = none := by
  unfold Descriptors.handleClose
  dsimp only
  set e := (d.log (.runs c)).setConn c { (d.log (.runs c)).conns c with connstate := .disconnected }
  have he : Counted e extra := (h.runs hc).setConn rfl
  have hstart : Frame d e c := (log_frame d _ c).trans (setConn_frame (d := d.log (.runs c)) rfl)
  have hguard : Counted (e.acquire c) (c :: extra) := he.acquire hc
  have hlive : 0 < (e.acquire c).refs c := hguard.live_of_mem List.mem_cons_self
  obtain ⟨hdel, hframe, hgone⟩ := hguard.epollDel hlive ok
  have hacquired : Frame e (e.acquire c) c := .of_toConnections rfl rfl
  have hreleased : Frame ((e.acquire c).epollDel c ok) (((e.acquire c).epollDel c ok).release c) c :=
    .of_toConnections (release_toConnections _ _) (release_functors _ _)
  refine ⟨hdel.release, ((hstart.trans hacquired).trans hframe).trans hreleased, ?_⟩
  rw [release_toConnections, ← hstart.fd c]
  exact hgone

theorem Counted.seperateTimer (h : Counted d extra) :
    Counted (d.seperateTimer c) extra ∧ Frame d (d.seperateTimer c) c ∧ (d.seperateTimer c).fd2http = d.fd2http := by
  unfold Descriptors.seperateTimer
  set e := d.setConn c { d.conns c with timer := none }
  have he : Counted e extra := h.setConn rfl
  have hstart : Frame d e c := setConn_frame rfl
  refine ⟨he.setHeap (held_resetTimer _ _), hstart.trans (setHeap_frame _ _), ?_⟩
  rw [setHeap_toConnections]
  rfl

/-- handleConn after seperateTimer -/
theorem Counted.rearm (h : Counted d extra) (hc : 0 < d.refs c) (now : Timeval) (ok : Bool) :
    Counted (d.rearm c now ok) extra ∧ Frame d (d.rearm c now ok) c := by
  have hmod : ∀ (ev : Events) {t : ℕ}, 0 < t → Counted ((d.setEvents c ev).epollMod c t now ok) extra ∧
      Frame d ((d.setEvents c ev).epollMod c t now ok) c := by
    intro ev t ht
    obtain ⟨hcounted, hframe⟩ := (h.setEvents (c := c) ev).epollMod hc ht now ok
    exact ⟨hcounted, (setEvents_frame d c ev).trans hframe⟩
  unfold Descriptors.rearm
  dsimp only
  by_cases hopen : (d.conns c).error = false ∧ (d.conns c).connstate = .connected
  · rw [if_pos hopen]
    by_cases hev : (d.conns c).channel.events ≠ 0
    · rw [if_pos hev]
      apply hmod
      split_ifs <;> decide
    · rw [if_neg hev]
      split_ifs
      · exact hmod _ (by decide)
      · exact hmod _ (by decide)
  · rw [if_neg hopen]
    split_ifs
    · exact ⟨h.setEvents _, setEvents_frame d c _⟩
    · -- the functor holds a reference while handleClose runs
      have hbound : Counted (d.acquire c) (c :: extra) := h.acquire hc
      obtain ⟨hclosed, hframe, -⟩ := hbound.handleClose (hbound.live_of_mem List.mem_cons_self) ok
      have hacquired : Frame d (d.acquire c) c := .of_toConnections rfl rfl
      exact ⟨hclosed.release, (hacquired.trans hframe).trans
        (.of_toConnections (release_toConnections _ _) (release_functors _ _))⟩

/-- **handleConn** of a connection in fd2http_. -/
theorem Counted.handleConn (h : Counted d extra) (hc : d.fd2http (d.conns c).fd = some c) (now : Timeval) (ok : Bool) :
    Counted (d.handleConn c now ok) extra ∧ Frame d (d.handleConn c now ok) c := by
  have hruns := h.runs (h.live_of_http hc)
  obtain ⟨hdetached, hframe, hhttp⟩ := hruns.seperateTimer (c := c)
  have hlive : 0 < ((d.log (.runs c)).seperateTimer c).refs c := hdetached.live_of_http (hhttp ▸ hc)
  obtain ⟨hdone, hrest⟩ := (hdetached.runs hlive).rearm hlive now ok
  exact ⟨hdone, (((log_frame d _ c).trans hframe).trans (log_frame _ _ c)).trans hrest⟩

/-- **handleRead and handleWrite** of a connection in fd2http_. -/
theorem Counted.member (h : Counted d extra) (hc : d.fd2http (d.conns c).fd = some c) {io : Io} {ctx : Ctx}
    (hctx : Ctx.Detaches (d.enter c io) ctx) :
    Counted (d.member c ctx) extra ∧ Frame d (d.member c ctx) c ∧ (d.member c ctx).fd2http = d.fd2http := by
  have hset : Counted ((d.log (.runs c)).setConn c ctx.http) extra := (h.runs (h.live_of_http hc)).setConn hctx.1
  have hheap : Counted (((d.log (.runs c)).setConn c ctx.http).setHeap ctx.timers) extra := hset.setHeap hctx.2
  have hhttp : (((d.log (.runs c)).setConn c ctx.http).setHeap ctx.timers).fd2http = d.fd2http := by
    rw [setHeap_toConnections]; rfl
  have hstart : Frame d ((d.log (.runs c)).setConn c ctx.http) c :=
    (log_frame d _ c).trans (setConn_frame (d := d.log (.runs c)) hctx.1)
  have hlive := hheap.live_of_http (hhttp ▸ hc)
  exact ⟨hheap.runs hlive, (hstart.trans (setHeap_frame _ _)).trans (log_frame _ _ c), hhttp⟩

/-- a timer is popped from the heap -/
theorem Counted.pop (h : Counted d extra) {t : Timer} (ht : t ∈ d.heap) (ok : Bool) :
    Counted (d.pop t ok) extra ∧ (d.pop t ok).functors = d.functors ∧ (d.pop t ok).pc = d.pc := by
  have hheap : (t.httpdata.toList ++ held (d.heap.erase t)).Perm (held d.heap) := by
    have hperm := (List.perm_cons_erase ht).filterMap Timer.httpdata
    have hcons : (t :: d.heap.erase t).filterMap Timer.httpdata = t.httpdata.toList ++ held (d.heap.erase t) := by
      cases hdata : t.httpdata <;> simp [held, hdata]
    rw [hcons] at hperm
    exact hperm.symm
  have herased : Counted { d with heap := d.heap.erase t } (t.httpdata.toList ++ extra) := by
    refine h.update ?_ (fun _ => Iff.rfl) (fun _ => rfl) h.http h.chan rfl rfl rfl
    apply h.balanced.perm
    unfold references
    dsimp only
    rw [List.perm_iff_count] at hheap ⊢
    intro b
    have hb := hheap b
    simp only [List.count_append] at hb ⊢
    omega
  unfold Descriptors.pop
  dsimp only
  cases hdata : t.httpdata with
  | none =>
    rw [hdata] at herased
    exact ⟨herased, rfl, rfl⟩
  | some c =>
    rw [hdata] at herased
    change Counted _ (c :: extra) at herased
    obtain ⟨hclosed, hframe, -⟩ := herased.handleClose (herased.live_of_mem List.mem_cons_self) ok
    refine ⟨hclosed.release, ?_, ?_⟩
    · rw [release_functors]; exact hframe.functors
    · rw [release_toConnections]; exact hframe.pc

end Descriptors

end Glacier
