/-
The whole server: the main thread that accepts (tcpserver.cc), the loops of EventLoopThreadPool (eventloop_threadpool.cc),
each in its thread with its own tables (epoll.cc, timer.cc), and the kernel's descriptors, which they share.

A step is accept(2) with the body of handleNewConn's loop, up to the end of which the main thread holds req_info, or any
step of one loop's own thread; the order is free. accept(2) gives a descriptor that no object in any loop owns. What
handleNewConn closes or drops without making an HttpData reaches no loop and is left out. Each loop numbers its connections
from 0.
- `run_loop`: each loop runs as one loop does alone, so that what is proved about it holds of each of them;
- `descriptors_isolated`: a descriptor is in the hands of one connection of one loop, and what a table says of it, it says of
  its owner;
- `open_bounded`: no connection is lost between the threads, and fewer than MAXFDS are open at a time;
- `loops_balanced`: the round robin.
-/
import Glacier.Lib.Family
import Glacier.Net.Accepting
import Glacier.Net.LoopThread

namespace Glacier

open Cxx

/-- baseloop_ and loops_ -/
def EventLoopThreadPool.loops (p : EventLoopThreadPool) : List Loop := .base :: (List.range p.numThreads).map .thread

structure Server where
  pool : EventLoopThreadPool
  loops : Loop → Descriptors
  /-- the loop of the connection that req_info refers to -/
  accepting : Option Loop
  /-- the loops that the connections went to, in order -/
  placed : List Loop

namespace Server

def start (threadNum : ℕ) : Server := ⟨⟨threadNum, 0⟩, fun _ => .init, none, []⟩

def setLoop (s : Server) (l : Loop) (d : Descriptors) : Server := { s with loops := Function.update s.loops l d }

inductive Op where
  /-- accept(2) gives `fd`; getNextLoop, the new object, and queueInLoop of its newEvent -/
  | accept (fd : ℕ)
  /-- req_info goes out of scope -/
  | endAccept
  /-- a step of the thread of `l` -/
  | inLoop (l : Loop) (o : Descriptors.Op)

def step (s : Server) : Op → Option Server
  | .accept fd =>
    if 0 < fd ∧ (∀ l ∈ s.pool.loops, (s.loops l).owner fd = none) ∧ s.accepting = none then
      let (l, pool) := s.pool.getNextLoop
      ((s.loops l).step (.accept fd)).map fun d =>
        { s.setLoop l d with pool := pool, accepting := some l, placed := s.placed ++ [l] }
    else none
  | .endAccept =>
    s.accepting.bind fun l => ((s.loops l).step .endAccept).map fun d => { s.setLoop l d with accepting := none }
  | .inLoop l o =>
    if l ∈ s.pool.loops ∧ o.inThread = true then ((s.loops l).step o).map (s.setLoop l) else none

variable {s t : Server} {threadNum : ℕ} {l : Loop}

/-! ## What a step does -/

/-- each step is one step of one loop, after which the others are as before -/
theorem step_cases {o : Op} (hstep : s.step o = some t) :
    ∃ l d, t.loops = Function.update s.loops l d ∧
      ((∃ fd, 0 < fd ∧ (∀ l ∈ s.pool.loops, (s.loops l).owner fd = none) ∧ s.accepting = none ∧
          (s.loops l).step (.accept fd) = some d ∧ s.pool.getNextLoop = (l, t.pool) ∧ t.accepting = some l ∧
          t.placed = s.placed ++ [l]) ∨
        (s.accepting = some l ∧ (s.loops l).step .endAccept = some d ∧ t.pool = s.pool ∧ t.accepting = none ∧
          t.placed = s.placed) ∨
        (∃ o, o.inThread = true ∧ (s.loops l).step o = some d ∧ t.pool = s.pool ∧ t.accepting = s.accepting ∧
          t.placed = s.placed)) := by
  cases o with
  | accept fd =>
    simp only [step] at hstep
    split_ifs at hstep with hg
    obtain ⟨d, hd, hstep⟩ := Option.map_eq_some_iff.1 hstep
    subst hstep
    exact ⟨_, d, rfl, Or.inl ⟨fd, hg.1, hg.2.1, hg.2.2, hd, rfl, rfl, rfl⟩⟩
  | endAccept =>
    obtain ⟨l, hl, hstep⟩ := Option.bind_eq_some_iff.1 hstep
    obtain ⟨d, hd, hstep⟩ := Option.map_eq_some_iff.1 hstep
    subst hstep
    exact ⟨l, d, rfl, Or.inr (Or.inl ⟨hl, hd, rfl, rfl, rfl⟩)⟩
  | inLoop l o =>
    simp only [step] at hstep
    split_ifs at hstep with hg
    obtain ⟨d, hd, hstep⟩ := Option.map_eq_some_iff.1 hstep
    subst hstep
    exact ⟨l, d, rfl, Or.inr (Or.inr ⟨o, hg.2, hd, rfl, rfl, rfl⟩)⟩

/-- a step of the server is a step of the family of its loops -/
theorem step_family {o : Op} (hstep : s.step o = some t) :
    ∃ a, Family.step Descriptors.step s.loops a = some t.loops := by
  obtain ⟨l, d, hloops, hcases⟩ := step_cases hstep
  have hone : ∃ a, (s.loops l).step a = some d := by
    rcases hcases with ⟨fd, -, -, -, hd, -⟩ | ⟨-, hd, -⟩ | ⟨o, -, hd, -⟩
    · exact ⟨_, hd⟩
    · exact ⟨_, hd⟩
    · exact ⟨_, hd⟩
  obtain ⟨a, ha⟩ := hone
  exact ⟨(l, a), Family.step_eq.2 ⟨d, ha, hloops⟩⟩

/-- **One loop of many.** Whatever the others do, each loop runs as it may run alone. -/
theorem run_loop {ops : List Op} (hrun : Machine.run step (start threadNum) ops = some s) (l : Loop) :
    Machine.Reaches Descriptors.step .init (s.loops l) := by
  obtain ⟨fops, hfops⟩ := Machine.reaches_map (f := Server.loops) (fun _ _ _ => step_family) hrun
  exact ⟨_, Family.run_component hfops l⟩

/-! ## The invariant -/

/-- the loop of the `k`-th connection -/
def place (threadNum k : ℕ) : Loop := if threadNum = 0 then .base else .thread (k % threadNum)

structure Inv (threadNum : ℕ) (s : Server) : Prop where
  numThreads : s.pool.numThreads = threadNum
  next : threadNum ≠ 0 → s.pool.next = s.placed.length % threadNum
  placed : s.placed = (List.range s.placed.length).map (place threadNum)
  inv : ∀ l, Descriptors.Inv (s.loops l)
  disjoint : Family.Disjoint (fun d fd => d.owner fd ≠ none) s.loops
  positive : ∀ l, (s.loops l).owner 0 = none
  nextConn : ∀ l, (s.loops l).nextConn = s.placed.count l
  reqInfo : ∀ l, (s.loops l).reqInfo ≠ none → s.accepting = some l

theorem inv_start (threadNum : ℕ) : Inv threadNum (start threadNum) where
  numThreads := rfl
  next := fun _ => (Nat.zero_mod _).symm
  placed := rfl
  inv := fun _ => Descriptors.inv_init
  disjoint := fun _ _ _ h => absurd rfl h
  positive := fun _ => rfl
  nextConn := fun _ => rfl
  reqInfo := fun _ h => absurd rfl h

theorem place_mem (s : Server) (h : s.pool.numThreads = threadNum) (k : ℕ) : place threadNum k ∈ s.pool.loops := by
  unfold place EventLoopThreadPool.loops
  split_ifs with hn
  · exact List.mem_cons_self
  · refine List.mem_cons_of_mem _ (List.mem_map_of_mem (List.mem_range.2 ?_))
    rw [h]
    exact Nat.mod_lt _ (Nat.pos_of_ne_zero hn)

/-- a loop that is none of the server's has no connection -/
theorem Inv.owner_eq_none (h : Inv threadNum s) (hl : l ∉ s.pool.loops) (fd : ℕ) : (s.loops l).owner fd = none := by
  rw [Option.eq_none_iff_forall_ne_some]
  intro c hc
  have hcounted := (h.inv l).counted
  have hlt : c < s.placed.count l := h.nextConn l ▸ (hcounted.bound c ((hcounted.owner fd c).1 hc).1).1
  have hmem : l ∈ s.placed := List.count_pos_iff.1 (Nat.zero_lt_of_lt hlt)
  rw [h.placed] at hmem
  obtain ⟨k, -, rfl⟩ := List.mem_map.1 hmem
  exact hl (place_mem s h.numThreads k)

theorem Inv.getNextLoop {pool : EventLoopThreadPool} (h : Inv threadNum s) (hnext : s.pool.getNextLoop = (l, pool)) :
    l = place threadNum s.placed.length ∧ pool.numThreads = threadNum ∧
      (threadNum ≠ 0 → pool.next = (s.placed.length + 1) % threadNum) := by
  unfold EventLoopThreadPool.getNextLoop at hnext
  rw [h.numThreads] at hnext
  unfold place
  split_ifs at hnext ⊢ with hn
  · cases hnext
    exact ⟨rfl, h.numThreads, fun hne => absurd hn hne⟩
  · cases hnext
    refine ⟨?_, rfl, fun _ => ?_⟩
    · rw [h.next hn]
    · dsimp only
      rw [h.next hn, Nat.mod_add_mod]

/-- one loop has moved, and has gained at most a descriptor that nobody owned -/
theorem Inv.moved {d : Descriptors} (h : Inv threadNum s) (hloops : t.loops = Function.update s.loops l d)
    (hd : Descriptors.Inv d)
    (hgain : ∀ fd c, d.owner fd = some c → (s.loops l).owner fd = some c ∨ 0 < fd ∧ ∀ l', (s.loops l').owner fd = none) :
    (∀ l', Descriptors.Inv (t.loops l')) ∧ Family.Disjoint (fun d fd => d.owner fd ≠ none) t.loops ∧
      ∀ l', (t.loops l').owner 0 = none := by
  rw [hloops]
  refine ⟨?_, ?_, ?_⟩
  · intro l'
    by_cases hl : l' = l
    · rw [hl, Function.update_self]; exact hd
    · rw [Function.update_of_ne hl]; exact h.inv l'
  · refine h.disjoint.step ?_
    intro fd hfd
    obtain ⟨c, hc⟩ := Option.ne_none_iff_exists'.1 hfd
    rcases hgain fd c hc with hold | ⟨-, hfree⟩
    · left; rw [hold]; exact Option.some_ne_none c
    · right; exact fun l' hl' => hl' (hfree l')
  · intro l'
    by_cases hl : l' = l
    · rw [hl, Function.update_self, Option.eq_none_iff_forall_ne_some]
      intro c hc
      rcases hgain 0 c hc with hold | ⟨hpos, -⟩
      · rw [h.positive l] at hold; cases hold
      · exact absurd hpos (lt_irrefl 0)
    · rw [Function.update_of_ne hl]; exact h.positive l'

/-- one loop has moved, and no connection was made -/
theorem Inv.still {d : Descriptors} (h : Inv threadNum s) (hloops : t.loops = Function.update s.loops l d)
    (hd : Descriptors.Inv d) (howner : ∀ fd c, d.owner fd = some c → (s.loops l).owner fd = some c)
    (hcount : d.nextConn = (s.loops l).nextConn) (hpool : t.pool = s.pool) (hplaced : t.placed = s.placed)
    (hreq : ∀ l', (t.loops l').reqInfo ≠ none → t.accepting = some l') : Inv threadNum t := by
  obtain ⟨hinv, hdisjoint, hpositive⟩ := h.moved hloops hd fun fd c hc => Or.inl (howner fd c hc)
  refine ⟨hpool ▸ h.numThreads, ?_, ?_, hinv, hdisjoint, hpositive, ?_, hreq⟩
  · intro hne
    rw [hpool, hplaced]; exact h.next hne
  · rw [hplaced]; exact h.placed
  · intro l'
    rw [hplaced, ← h.nextConn, hloops]
    by_cases hl : l' = l
    · rw [hl, Function.update_self, hcount]
    · rw [Function.update_of_ne hl]

theorem step_inv {o : Op} (h : Inv threadNum s) (hstep : s.step o = some t) : Inv threadNum t := by
  obtain ⟨l, d, hloops, hcases⟩ := step_cases hstep
  have hself : t.loops l = d := by rw [hloops, Function.update_self]
  have hother : ∀ l', l' ≠ l → t.loops l' = s.loops l' := by
    intro l' hl'
    rw [hloops, Function.update_of_ne hl']
  rcases hcases with ⟨fd, hpos, hfree, hacc, hd, hnext, haccepting, hplaced⟩ | ⟨hacc, hd, hpool, haccepting, hplaced⟩ |
    ⟨o, ho, hd, hpool, haccepting, hplaced⟩
  · -- accept
    obtain ⟨-, hcount, -, howner⟩ := Descriptors.step_accept hd
    obtain ⟨rfl, hthreads, hround⟩ := h.getNextLoop hnext
    have hlength : t.placed.length = s.placed.length + 1 := by
      rw [hplaced, List.length_append, List.length_singleton]
    obtain ⟨hinv, hdisjoint, hpositive⟩ := h.moved hloops (Descriptors.step_inv (h.inv _) hd) <| by
      intro fd' c hc
      rw [howner] at hc
      by_cases hfd : fd' = fd
      · right
        rw [hfd]
        refine ⟨hpos, fun l' => ?_⟩
        by_cases hl' : l' ∈ s.pool.loops
        · exact hfree l' hl'
        · exact h.owner_eq_none hl' fd
      · rw [Function.update_of_ne hfd] at hc
        exact Or.inl hc
    refine ⟨hthreads, ?_, ?_, hinv, hdisjoint, hpositive, ?_, ?_⟩
    · intro hne
      rw [hround hne, hlength]
    · rw [hlength, List.range_succ, List.map_append, hplaced, List.map_singleton, ← h.placed]
    · intro l'
      rw [hplaced, List.count_append]
      by_cases hl : l' = place threadNum s.placed.length
      · rw [hl, hself, hcount, h.nextConn, List.count_singleton_self]
      · rw [hother l' hl, h.nextConn, List.count_singleton, beq_eq_false_iff_ne.2 (Ne.symm hl)]
        rfl
    · intro l' hl'
      by_cases hl : l' = place threadNum s.placed.length
      · rw [haccepting, hl]
      · rw [hother l' hl] at hl'
        have := h.reqInfo l' hl'
        rw [hacc] at this
        cases this
  · -- endAccept
    obtain ⟨hcount, hreq, howner⟩ := Descriptors.step_endAccept hd
    refine h.still hloops (Descriptors.step_inv (h.inv _) hd) howner hcount hpool hplaced ?_
    intro l' hl'
    by_cases hl : l' = l
    · rw [hl, hself] at hl'
      exact absurd hreq hl'
    · rw [hother l' hl] at hl'
      have := h.reqInfo l' hl'
      rw [hacc] at this
      exact absurd (Option.some.inj this).symm hl
  · -- a step of the thread of `l`
    have hinside := Descriptors.step_inside ho hd
    refine h.still hloops (Descriptors.step_inv (h.inv _) hd) hinside.owner hinside.nextConn hpool hplaced ?_
    intro l' hl'
    rw [haccepting]
    apply h.reqInfo
    by_cases hl : l' = l
    · rw [hl, hself, hinside.reqInfo] at hl'
      rw [hl]; exact hl'
    · rwa [hother l' hl] at hl'

theorem run_inv {ops : List Op} (hrun : Machine.run step (start threadNum) ops = some s) : Inv threadNum s :=
  Machine.run_inv (fun _ _ _ h hstep => step_inv h hstep) (inv_start threadNum) hrun

/-! ## Isolation -/

/-- nothing is shared between the loops but the numbers of descriptors that were closed -/
structure Isolated (s : Server) : Prop where
  /-- a descriptor is owned by one connection of one loop -/
  owner : ∀ l l' fd c c', (s.loops l).owner fd = some c → (s.loops l').owner fd = some c' → l = l' ∧ c = c'
  /-- the tables of a loop refer to the owners of the descriptors -/
  sound : ∀ l, (s.loops l).tables.Sound
  /-- no other loop's tables have an entry for an owned descriptor -/
  entries : ∀ l l' fd c, (s.loops l).owner fd = some c → l' ≠ l →
    (s.loops l').fd2chan fd = none ∧ (s.loops l').fd2http fd = none
  /-- what the loop has done is proper -/
  orderly : ∀ l, Orderly (s.loops l).trace
  /-- req_info refers to one connection of one loop -/
  reqInfo : ∀ l l', (s.loops l).reqInfo ≠ none → (s.loops l').reqInfo ≠ none → l = l'

theorem Inv.isolated (h : Inv threadNum s) : Isolated s where
  owner := by
    intro l l' fd c c' hc hc'
    have hl : l = l' :=
      h.disjoint l l' fd (Option.ne_none_iff_exists'.2 ⟨c, hc⟩) (Option.ne_none_iff_exists'.2 ⟨c', hc'⟩)
    subst hl
    rw [hc] at hc'
    exact ⟨rfl, Option.some.inj hc'⟩
  sound := fun l => (h.inv l).counted.sound
  entries := by
    intro l l' fd c hc hl
    have hnone : ∀ c', (s.loops l').owner fd ≠ some c' := by
      intro c' hc'
      exact hl (h.disjoint l' l fd (Option.ne_none_iff_exists'.2 ⟨c', hc'⟩) (Option.ne_none_iff_exists'.2 ⟨c, hc⟩))
    have hsound := (h.inv l').counted.sound
    constructor
    · rw [Option.eq_none_iff_forall_ne_some]
      exact fun c' hc' => hnone c' (hsound fd c' (Or.inl hc'))
    · rw [Option.eq_none_iff_forall_ne_some]
      exact fun c' hc' => hnone c' (hsound fd c' (Or.inr hc'))
  orderly := fun l => (h.inv l).counted.orderly
  reqInfo := by
    intro l l' hl hl'
    have h1 := h.reqInfo l hl
    rw [h.reqInfo l' hl'] at h1
    exact (Option.some.inj h1).symm

/-- **Isolation.** However the threads interleave, a descriptor that the kernel has given to a connection of one loop is
unknown to every other loop, also where they have used its number before. -/
theorem descriptors_isolated {ops : List Op} (hrun : Machine.run step (start threadNum) ops = some s) : Isolated s :=
  (run_inv hrun).isolated

/-- Descriptor 5 is used in the thread of loop 0; the peer hangs up, the main thread drops req_info, and the number goes to a
connection of loop 1. -/
def reused : List Op :=
  [.accept 5, .inLoop (.thread 0) (.poll []), .inLoop (.thread 0) .doPendingFunctors,
    .inLoop (.thread 0) (.newEvent ⟨0, 0⟩ true),
    .inLoop (.thread 0) (.handleExpired (some (.new 0 0 2000 ⟨0, 0⟩)) ⟨0, 0⟩ true),
    .inLoop (.thread 0) (.poll [(5, EPOLLIN)]), .inLoop (.thread 0) .handleEvents,
    .inLoop (.thread 0) (.callback [.data []] [] Descriptors.noFiles ⟨0, 0⟩ true),
    .inLoop (.thread 0) (.callback [] [] Descriptors.noFiles ⟨0, 0⟩ true), .endAccept, .accept 5]

theorem descriptors_isolated_reused :
    ∃ s, Machine.run step (start 2) reused = some s ∧ closed (s.loops (.thread 0)).trace = [0] ∧
      (s.loops (.thread 1)).owner 5 = some 0 ∧ Isolated s := by
  have hend : (Machine.run step (start 2) reused).map
      (fun s => (closed (s.loops (.thread 0)).trace, (s.loops (.thread 1)).owner 5)) = some ([0], some 0) := by
    decide +kernel
  obtain ⟨s, hrun, hfields⟩ := Option.map_eq_some_iff.1 hend
  simp only [Prod.mk.injEq] at hfields
  exact ⟨s, hrun, hfields.1, hfields.2, descriptors_isolated hrun⟩

/-! ## How many connections there are -/

/-- the descriptors that some connection owns -/
def openFds (s : Server) : Finset ℕ := (Finset.range MAXFDS).filter fun fd => ∃ l ∈ s.pool.loops, (s.loops l).owner fd ≠ none

/-- the connections that have closed their descriptor -/
def closedConns (s : Server) : ℕ := (s.pool.loops.map fun l => (closed (s.loops l).trace).length).sum

theorem loops_nodup (p : EventLoopThreadPool) : p.loops.Nodup := by
  unfold EventLoopThreadPool.loops
  refine List.nodup_cons.2 ⟨by simp, ?_⟩
  exact List.nodup_range.map fun i j h => Loop.thread.inj h

theorem Inv.placed_mem (h : Inv threadNum s) : ∀ l ∈ s.placed, l ∈ s.pool.loops := by
  intro l hl
  rw [h.placed] at hl
  obtain ⟨k, -, rfl⟩ := List.mem_map.1 hl
  exact place_mem s h.numThreads k

/-- the owned descriptors of the loops, which have none in common -/
theorem Inv.openFds_card (h : Inv threadNum s) :
    (openFds s).card =
      ∑ l ∈ s.pool.loops.toFinset, ((Finset.range MAXFDS).filter fun fd => (s.loops l).owner fd ≠ none).card := by
  have hunion : openFds s = s.pool.loops.toFinset.biUnion fun l =>
      (Finset.range MAXFDS).filter fun fd => (s.loops l).owner fd ≠ none := by
    ext fd
    simp only [openFds, Finset.mem_filter, Finset.mem_biUnion, List.mem_toFinset]
    constructor
    · intro ⟨hfd, l, hl, howner⟩; exact ⟨l, hl, hfd, howner⟩
    · intro ⟨l, hl, hfd, howner⟩; exact ⟨hfd, l, hl, howner⟩
  rw [hunion]
  refine Finset.card_biUnion ?_
  intro l _ l' _ hne
  refine Finset.disjoint_left.2 ?_
  intro fd hfd hfd'
  exact hne (h.disjoint l l' fd (Finset.mem_filter.1 hfd).2 (Finset.mem_filter.1 hfd').2)

/-- every connection is open, and then it has a descriptor of its own, or closed -/
theorem Inv.count (h : Inv threadNum s) : (openFds s).card + closedConns s = s.placed.length := by
  have hclosed : closedConns s = ∑ l ∈ s.pool.loops.toFinset, (closed (s.loops l).trace).length :=
    (List.sum_toFinset _ (loops_nodup s.pool)).symm
  calc (openFds s).card + closedConns s
      = ∑ l ∈ s.pool.loops.toFinset, (((Finset.range MAXFDS).filter fun fd => (s.loops l).owner fd ≠ none).card +
          (closed (s.loops l).trace).length) := by rw [h.openFds_card, hclosed, Finset.sum_add_distrib]
    _ = ∑ l ∈ s.pool.loops.toFinset, s.placed.count l :=
        Finset.sum_congr rfl fun l _ => ((h.inv l).count).trans (h.nextConn l)
    _ = s.placed.length := by
        simpa only [Multiset.coe_count, Multiset.coe_card] using
          Multiset.sum_count_eq_card (m := (s.placed : Multiset Loop)) fun l hl => List.mem_toFinset.2 (h.placed_mem l hl)

/-- **No connection is lost between the threads.** Those that handleNewConn has handed to the loops are open, each with a
descriptor of its own, or closed; and fewer than MAXFDS are open at a time. -/
theorem open_bounded {ops : List Op} (hrun : Machine.run step (start threadNum) ops = some s) :
    (openFds s).card + closedConns s = s.placed.length ∧ (openFds s).card < MAXFDS := by
  have h := run_inv hrun
  refine ⟨h.count, ?_⟩
  -- descriptor 0 is no connection's
  have hzero : 0 ∉ openFds s := by
    intro hmem
    obtain ⟨l, -, howner⟩ := (Finset.mem_filter.1 hmem).2
    exact howner (h.positive l)
  calc (openFds s).card < (Finset.range MAXFDS).card :=
        Finset.card_lt_card ⟨Finset.filter_subset _ _, fun hsub => hzero (hsub (Finset.mem_range.2 (by decide)))⟩
    _ = MAXFDS := Finset.card_range _

theorem open_bounded_reused : ∃ s, Machine.run step (start 2) reused = some s ∧ s.placed.length = 2 ∧
    (openFds s).card + closedConns s = s.placed.length ∧ (openFds s).card < MAXFDS := by
  have hend : (Machine.run step (start 2) reused).map (fun s => s.placed.length) = some 2 := by decide +kernel
  obtain ⟨s, hrun, hplaced⟩ := Option.map_eq_some_iff.1 hend
  exact ⟨s, hrun, hplaced, open_bounded hrun⟩

/-! ## The round robin -/

/-- a number below `2 * n` that `n` divides -/
theorem dvd_iff_eq {n m : ℕ} (hpos : 0 < m) (hlt : m < 2 * n) : n ∣ m ↔ m = n := by
  constructor
  · intro ⟨q, hq⟩
    have hq1 : q = 1 := by
      have h0 : q ≠ 0 := by rintro rfl; omega
      have h2 : q < 2 := by
        by_contra h
        have := Nat.mul_le_mul_left n (Nat.not_lt.1 h)
        omega
      omega
    rw [hq, hq1, Nat.mul_one]
  · rintro rfl; exact dvd_rfl

/-- how many of the first `k` connections go to loop `i` of `n` -/
theorem count_place {n i : ℕ} (hi : i < n) (k : ℕ) :
    ((List.range k).map (place n)).count (.thread i) = (k + (n - 1 - i)) / n := by
  have hn : n ≠ 0 := Nat.ne_zero_of_lt hi
  induction k with
  | zero => simp only [List.range_zero, List.map_nil, List.count_nil]; rw [Nat.div_eq_of_lt]; omega
  | succ k ih =>
    have hplace : place n k = .thread (k % n) := if_neg hn
    have hdvd : n ∣ k + (n - 1 - i) + 1 ↔ k % n = i := by
      have hlt := Nat.mod_lt k (Nat.pos_of_ne_zero hn)
      have hsum : k + (n - 1 - i) + 1 = n * (k / n) + (k % n + (n - i)) := by
        have := Nat.div_add_mod k n
        omega
      rw [hsum, Nat.dvd_add_right (Nat.dvd_mul_right n _), dvd_iff_eq (by omega) (by omega)]
      omega
    rw [List.range_succ, List.map_append, List.count_append, ih, List.map_singleton, hplace, List.count_singleton,
      Nat.add_right_comm, Nat.succ_div]
    congr 1
    by_cases hk : k % n = i
    · rw [if_pos (hdvd.2 hk), hk]; simp
    · rw [if_neg fun h => hk (hdvd.1 h)]; simp [hk]

/-- **Round robin.** Without threads the base loop has all connections. With `threadNum` threads it has none, and thread `i`
has had every `threadNum`-th from the `i`-th on, so that two threads differ by at most one. -/
theorem loops_balanced {ops : List Op} (hrun : Machine.run step (start threadNum) ops = some s) :
    (threadNum = 0 → (s.loops .base).nextConn = s.placed.length) ∧
      (threadNum ≠ 0 → (s.loops .base).nextConn = 0) ∧
      (∀ i < threadNum, (s.loops (.thread i)).nextConn = (s.placed.length + (threadNum - 1 - i)) / threadNum) ∧
      ∀ i < threadNum, ∀ j < threadNum, (s.loops (.thread i)).nextConn ≤ (s.loops (.thread j)).nextConn + 1 := by
  have h := run_inv hrun
  have hthread : ∀ i < threadNum,
      (s.loops (.thread i)).nextConn = (s.placed.length + (threadNum - 1 - i)) / threadNum := by
    intro i hi
    rw [h.nextConn, ← count_place hi, ← h.placed]
  refine ⟨?_, ?_, hthread, ?_⟩
  · intro hn
    rw [h.nextConn]
    refine List.count_eq_length.2 ?_
    intro l hl
    rw [h.placed] at hl
    obtain ⟨k, -, rfl⟩ := List.mem_map.1 hl
    exact (if_pos hn).symm
  · intro hn
    rw [h.nextConn]
    refine List.count_eq_zero.2 ?_
    intro hl
    rw [h.placed] at hl
    obtain ⟨k, -, hk⟩ := List.mem_map.1 hl
    rw [place, if_neg hn] at hk
    cases hk
  · intro i hi j hj
    rw [hthread i hi, hthread j hj]
    calc (s.placed.length + (threadNum - 1 - i)) / threadNum
        ≤ (s.placed.length + (threadNum - 1 - j) + threadNum) / threadNum := Nat.div_le_div_right (by omega)
      _ = (s.placed.length + (threadNum - 1 - j)) / threadNum + 1 := Nat.add_div_right _ (Nat.zero_lt_of_lt hi)

theorem loops_balanced_reused : ∃ s, Machine.run step (start 2) reused = some s ∧ s.placed = [.thread 0, .thread 1] ∧
    (2 = 0 → (s.loops .base).nextConn = s.placed.length) ∧ (2 ≠ 0 → (s.loops .base).nextConn = 0) ∧
    (∀ i < 2, (s.loops (.thread i)).nextConn = (s.placed.length + (2 - 1 - i)) / 2) ∧
    ∀ i < 2, ∀ j < 2, (s.loops (.thread i)).nextConn ≤ (s.loops (.thread j)).nextConn + 1 := by
  have hend : (Machine.run step (start 2) reused).map Server.placed = some [.thread 0, .thread 1] := by decide +kernel
  obtain ⟨s, hrun, hplaced⟩ := Option.map_eq_some_iff.1 hend
  exact ⟨s, hrun, hplaced, loops_balanced hrun⟩

end Server

end Glacier
