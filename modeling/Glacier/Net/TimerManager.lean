/-
Expiry (timer.cc): when a timer is valid, and what handleExpiredEvent closes.

The clock is reduced modulo 10000 seconds before the timeout is added, and again when a timer is looked at. The manager pops
its top while it is deleted or expired; a timer that is popped is destroyed, and its destructor closes the connection that it
still holds. `resets` and `closed` are history: the timers that were reset, and the timers that have closed a connection.
- `valid_iff`: a timer is valid before its timeout and only then, exactly when the clock has not been reduced by another
  multiple in between, or the timeout is not over, or has been over for as long as the clock lost;
- `never_expires`: a timer set one second before the clock starts again;
- `handleExpiredEvent_spec`: one call, whatever the queue gives as its tops;
- `expired_exact`: a call in any reachable state.
-/
import Glacier.Lib.Machine
import Glacier.Net.Timer

namespace Glacier

/-! ## Validity -/

/-- milliseconds since the epoch -/
def Timeval.ms (now : Timeval) : ℤ := now.tvSec * 1000 + now.tvUsec / 1000

/-- how often the clock has started again -/
def Timeval.turns (now : Timeval) : ℤ := now.tvSec / 10000

theorem Timeval.reading_eq (now : Timeval) : now.reading = now.ms - 10000000 * now.turns := by
  unfold reading ms turns
  omega

/-- **A timer expires when its timeout has elapsed, exactly when** its timeout has not elapsed, or has been over for 10000
seconds for each time that the clock has started again since the timer was set. -/
theorem valid_iff (timer : Timer) (t₀ t : Timeval) (m : ℕ)
    (hset : (∃ id req, timer = .new id req m t₀) ∨ ∃ old : Timer, timer = old.update m t₀) (hlater : t₀.tvSec ≤ t.tvSec) :
    ((timer.isValid t).1 = true ↔ t.ms < t₀.ms + m) ↔
      t.ms < t₀.ms + m ∨ t₀.ms + m + 10000000 * (t.turns - t₀.turns) ≤ t.ms := by
  have hexpired : timer.expiredtime = t₀.reading + m := by
    rcases hset with ⟨id, req, rfl⟩ | ⟨old, rfl⟩ <;> rfl
  have hvalid : (timer.isValid t).1 = true ↔ t.reading < t₀.reading + m := by
    rw [Timer.isValid, hexpired]
    split_ifs with h <;> simp [h]
  have hturns : t₀.turns ≤ t.turns := by
    unfold Timeval.turns
    omega
  rw [hvalid, Timeval.reading_eq, Timeval.reading_eq]
  omega

theorem valid_iff_elapsed : ((Timer.new 0 7 150000 ⟨100, 0⟩).isValid ⟨249, 999999⟩).1 = true ∧
    ((Timer.new 0 7 150000 ⟨100, 0⟩).isValid ⟨250, 0⟩).1 = false := by
  have hbefore := (valid_iff (.new 0 7 150000 ⟨100, 0⟩) ⟨100, 0⟩ ⟨249, 999999⟩ 150000 (Or.inl ⟨0, 7, rfl⟩) (by decide)).2
    (by decide)
  have hafter := (valid_iff (.new 0 7 150000 ⟨100, 0⟩) ⟨100, 0⟩ ⟨250, 0⟩ 150000 (Or.inl ⟨0, 7, rfl⟩) (by decide)).2
    (by decide)
  exact ⟨hbefore.2 (by decide), Bool.eq_false_iff.2 fun h => absurd (hafter.1 h) (by decide)⟩

/-- a timer set in the last second before the clock starts again is valid at every later time -/
theorem valid_for_ever (id : ℕ) (req : ConnId) (t : Timeval) (husec : t.tvUsec < 1000000) :
    ((Timer.new id req 150000 ⟨9999, 0⟩).isValid t).1 = true := by
  have hreading : t.reading < 10000000 := by
    unfold Timeval.reading
    omega
  have hlt : t.reading < (Timeval.reading ⟨9999, 0⟩) + 150000 := by
    have hset : Timeval.reading ⟨9999, 0⟩ = 9999000 := by decide
    omega
  simp [Timer.isValid, Timer.new, hlt]

theorem never_expires : ¬ (((Timer.new 0 7 150000 ⟨9999, 0⟩).isValid ⟨10149, 0⟩).1 = true ↔
    Timeval.ms ⟨10149, 0⟩ < Timeval.ms ⟨9999, 0⟩ + 150000) := by decide

/-! ## TimerManager -/

/-- the manager's heap, the weak pointers timer_ of the connections, and history -/
structure TimerManager where
  heap : List Timer
  next : ℕ
  timer : ConnId → Option ℕ
  resets : List ℕ
  closed : List (ℕ × ConnId)

namespace TimerManager

def init : TimerManager := ⟨[], 0, fun _ => none, [], []⟩

def addTimer (m : TimerManager) (req : ConnId) (timeout : ℤ) (now : Timeval) : TimerManager :=
  { m with
    heap := .new m.next req timeout now :: m.heap
    next := m.next + 1
    timer := Function.update m.timer req (some m.next) }

/-- HttpData::seperateTimer, and the same in HttpData::reset -/
def seperateTimer (m : TimerManager) (c : ConnId) : TimerManager :=
  match m.timer c with
  | some id =>
    if id ∈ m.heap.map Timer.id then
      { m with
        heap := resetTimer m.heap (some id)
        timer := Function.update m.timer c none
        resets := m.resets ++ [id] }
    else m
  | none => m

/-- what Timer::~Timer closes -/
def destroy (t : Timer) : List (ℕ × ConnId) :=
  match t.httpdata with
  | some c => [(t.id, c)]
  | none => []

/-- the loop of handleExpiredEvent, where `tops` is what heap_.top() gives in turn: what is left of the heap, and what has
been closed; none if the queue cannot give these -/
def expireLoop (now : Timeval) : List Timer → List Timer → Option (List Timer × List (ℕ × ConnId))
  | [], heap => if heap = [] then some (heap, []) else none
  | t :: tops, heap =>
    if IsTop heap t then
      if t.deleted ∨ (t.isValid now).1 = false then
        (expireLoop now tops (heap.erase t)).map fun r => (r.1, destroy t ++ r.2)
      else if tops = [] then some (heap, []) else none
    else none

def handleExpiredEvent (m : TimerManager) (now : Timeval) (tops : List Timer) : Option TimerManager :=
  (expireLoop now tops m.heap).map fun r => { m with heap := r.1, closed := m.closed ++ r.2 }

inductive Op where
  | addTimer (req : ConnId) (timeout : ℤ) (now : Timeval)
  | seperateTimer (c : ConnId)
  | handleExpiredEvent (now : Timeval) (tops : List Timer)

/-- a connection gets a timer when it has none -/
def step (m : TimerManager) : Op → Option TimerManager
  | .addTimer req timeout now => if holders m.heap req = [] then some (m.addTimer req timeout now) else none
  | .seperateTimer c => some (m.seperateTimer c)
  | .handleExpiredEvent now tops => m.handleExpiredEvent now tops

/-! ## One call -/

/-- the connections that timers hold whose time has come, with the timers -/
def due (heap : List Timer) (now : Timeval) : List (ℕ × ConnId) :=
  (heap.filter fun t => t.deleted = false ∧ t.expiredtime ≤ now.reading).flatMap destroy

theorem exists_top {heap : List Timer} (hne : heap ≠ []) : ∃ t, IsTop heap t := by
  induction heap with
  | nil => exact absurd rfl hne
  | cons u heap ih =>
    by_cases hnil : heap = []
    · exact ⟨u, by simp [IsTop, hnil]⟩
    · obtain ⟨t, hmem, hle⟩ := ih hnil
      by_cases hlt : u.expiredtime ≤ t.expiredtime
      · exact ⟨u, List.mem_cons_self, List.forall_mem_cons.2 ⟨le_rfl, fun w hw => hlt.trans (hle w hw)⟩⟩
      · exact ⟨t, List.mem_cons_of_mem u hmem, List.forall_mem_cons.2 ⟨(not_le.1 hlt).le, hle⟩⟩

/-- **The loop ends**: the queue has a top as long as there is a timer, and each turn but the last pops it. -/
theorem expireLoop_ends (now : Timeval) (heap : List Timer) : ∃ tops r, expireLoop now tops heap = some r := by
  induction hlen : heap.length generalizing heap with
  | zero => exact ⟨[], ([], []), by simp [expireLoop, List.length_eq_zero_iff.1 hlen]⟩
  | succ n ih =>
    have hne : heap ≠ [] := by rintro rfl; simp at hlen
    obtain ⟨t, ht⟩ := exists_top hne
    by_cases hpop : t.deleted ∨ (t.isValid now).1 = false
    · have hless : (heap.erase t).length = n := by rw [List.length_erase_of_mem ht.1, hlen]; rfl
      obtain ⟨tops, r, hr⟩ := ih (heap.erase t) hless
      exact ⟨t :: tops, (r.1, destroy t ++ r.2), by rw [expireLoop, if_pos ht, if_pos hpop, hr]; rfl⟩
    · exact ⟨[t], (heap, []), by rw [expireLoop, if_pos ht, if_neg hpop]; simp⟩

theorem isValid_false_iff {t : Timer} {now : Timeval} : (t.isValid now).1 = false ↔ t.expiredtime ≤ now.reading := by
  unfold Timer.isValid
  split_ifs with h <;> simp <;> omega

theorem due_perm {a b : List Timer} (h : a.Perm b) (now : Timeval) : (due a now).Perm (due b now) :=
  (h.filter _).flatMap_right destroy

/-- a timer that is popped closes its connection if that is due, and is deleted otherwise -/
theorem due_cons_of_pop {t : Timer} {now : Timeval} (hlive : t.httpdata ≠ none → t.deleted = false)
    (hpop : t.deleted ∨ (t.isValid now).1 = false) (heap : List Timer) :
    due (t :: heap) now = destroy t ++ due heap now := by
  cases hdel : t.deleted with
  | true =>
    have hdata : t.httpdata = none := by
      by_contra hne
      rw [hlive hne] at hdel
      cases hdel
    simp [due, hdel, destroy, hdata]
  | false =>
    have hexpired : t.expiredtime ≤ now.reading := by simpa [hdel, isValid_false_iff] using hpop
    simp [due, hdel, hexpired]

/-- **One call of handleExpiredEvent.** Whatever the queue gives as its tops: what is due is closed, each once, everything
left is still to come, and no timer is removed that is. -/
theorem expireLoop_spec {now : Timeval} {tops heap left : List Timer} {closed : List (ℕ × ConnId)}
    (hlive : ∀ t ∈ heap, t.httpdata ≠ none → t.deleted = false) (h : expireLoop now tops heap = some (left, closed)) :
    closed.Perm (due heap now) ∧ (∀ t ∈ left, now.reading < t.expiredtime) ∧ left.Sublist heap ∧
      ∀ t ∈ heap, t.deleted = false → now.reading < t.expiredtime → t ∈ left := by
  induction tops generalizing heap closed with
  | nil =>
    unfold expireLoop at h
    split_ifs at h with hnil
    cases h
    subst hnil
    simp [due]
  | cons t tops ih =>
    unfold expireLoop at h
    split_ifs at h with htop hpop hlast
    · -- the top is popped
      obtain ⟨r, hr, heq⟩ := Option.map_eq_some_iff.1 h
      cases heq
      obtain ⟨hclosed, hleft, hsub, hkept⟩ := ih (fun u hu => hlive u (List.mem_of_mem_erase hu)) hr
      have hdue : (destroy t ++ due (heap.erase t) now).Perm (due heap now) := by
        rw [← due_cons_of_pop (hlive t htop.1) hpop (heap.erase t)]
        exact (due_perm (List.perm_cons_erase htop.1) now).symm
      refine ⟨(hclosed.append_left _).trans hdue, hleft, hsub.trans List.erase_sublist, ?_⟩
      intro u hu hdel hlt
      refine hkept u ((List.mem_erase_of_ne ?_).2 hu) hdel hlt
      rintro rfl
      rw [hdel, isValid_false_iff] at hpop
      simp at hpop
      omega
    · -- the top is still to come, and everything else with it
      cases h
      rw [isValid_false_iff] at hpop
      push Not at hpop
      have hall : ∀ u ∈ left, now.reading < u.expiredtime := fun u hu => hpop.2.trans_le (htop.2 u hu)
      refine ⟨?_, hall, List.Sublist.refl left, fun u hu _ _ => hu⟩
      have hnone : left.filter (fun u => u.deleted = false ∧ u.expiredtime ≤ now.reading) = [] := by
        apply List.filter_eq_nil_iff.2
        intro u hu
        have := hall u hu
        simp
        omega
      rw [due, hnone]
      exact List.Perm.refl _

/-! ## Runs -/

theorem mem_due {heap : List Timer} {now : Timeval} {p : ℕ × ConnId} :
    p ∈ due heap now ↔
      ∃ t ∈ heap, t.deleted = false ∧ t.expiredtime ≤ now.reading ∧ t.id = p.1 ∧ t.httpdata = some p.2 := by
  simp only [due, List.mem_flatMap, List.mem_filter, decide_eq_true_eq]
  refine exists_congr fun t => ?_
  cases hdata : t.httpdata with
  | none => simp [destroy, hdata]
  | some c =>
    rw [destroy, hdata, List.mem_singleton, Prod.ext_iff, Option.some.injEq]
    tauto

theorem due_conns (heap : List Timer) (now : Timeval) : ((due heap now).map Prod.snd).Sublist (held heap) := by
  have hsnd : (due heap now).map Prod.snd =
      held (heap.filter fun t => t.deleted = false ∧ t.expiredtime ≤ now.reading) := by
    rw [due]
    induction heap.filter fun t => t.deleted = false ∧ t.expiredtime ≤ now.reading with
    | nil => rfl
    | cons t heap ih =>
      rw [List.flatMap_cons, List.map_append, ih]
      cases hdata : t.httpdata <;> simp [destroy, hdata, held]
  rw [hsnd]
  exact List.filter_sublist.filterMap _

structure Inv (m : TimerManager) : Prop where
  heapOk : HeapOk m.heap m.next
  held : (held m.heap).Nodup
  linked : ∀ t ∈ m.heap, ∀ c, t.httpdata = some c → m.timer c = some t.id
  resets_lt : ∀ id ∈ m.resets, id < m.next
  detached : ∀ t ∈ m.heap, t.id ∈ m.resets → t.httpdata = none
  closed_lt : ∀ p ∈ m.closed, p.1 < m.next
  gone : ∀ p ∈ m.closed, p.1 ∉ m.heap.map Timer.id
  apart : ∀ p ∈ m.closed, p.1 ∉ m.resets

theorem inv_init : Inv init where
  heapOk := ⟨List.nodup_nil, by simp [init], by simp [init]⟩
  held := List.nodup_nil
  linked := by simp [init]
  resets_lt := by simp [init]
  detached := by simp [init]
  closed_lt := by simp [init]
  gone := by simp [init]
  apart := by simp [init]

variable {m : TimerManager}

theorem Inv.addTimer (h : Inv m) {req : ConnId} (hfree : holders m.heap req = []) (timeout : ℤ) (now : Timeval) :
    Inv (m.addTimer req timeout now) where
  heapOk := h.heapOk.addTimer req timeout now
  held := by
    refine List.nodup_cons.2 ⟨?_, h.held⟩
    intro hmem
    obtain ⟨t, ht, hd⟩ := mem_held.1 hmem
    have hholds : t ∈ holders m.heap req := mem_holders.2 ⟨ht, hd⟩
    rw [hfree] at hholds
    cases hholds
  linked := by
    intro t ht c hc
    rcases List.mem_cons.1 ht with rfl | hold
    · obtain rfl : req = c := Option.some.inj hc
      simp [TimerManager.addTimer, Timer.new]
    · have hne : c ≠ req := by
        rintro rfl
        have hmem : t ∈ holders m.heap c := mem_holders.2 ⟨hold, hc⟩
        rw [hfree] at hmem
        cases hmem
      simp [TimerManager.addTimer, hne, h.linked t hold c hc]
  resets_lt := fun id hid => (h.resets_lt id hid).trans (Nat.lt_succ_self _)
  detached := by
    intro t ht hid
    rcases List.mem_cons.1 ht with rfl | ht
    · exact absurd (h.resets_lt _ hid) (lt_irrefl _)
    · exact h.detached t ht hid
  closed_lt := fun p hp => (h.closed_lt p hp).trans (Nat.lt_succ_self _)
  gone := by
    intro p hp hmem
    rcases List.mem_cons.1 hmem with heq | hmem
    · exact absurd (h.closed_lt p hp) (by rw [heq]; exact lt_irrefl _)
    · exact h.gone p hp hmem
  apart := h.apart

theorem Inv.seperateTimer (h : Inv m) (c : ConnId) : Inv (m.seperateTimer c) := by
  unfold TimerManager.seperateTimer
  cases htimer : m.timer c with
  | none => exact h
  | some id =>
    dsimp only
    split_ifs with hmem
    · have hback : ∀ t ∈ resetTimer m.heap (some id), t.httpdata ≠ none → t ∈ m.heap ∧ t.id ≠ id := by
        intro t ht hdata
        obtain ⟨u, hu, rfl⟩ := List.mem_map.1 ht
        by_cases hid : some id = some u.id
        · rw [if_pos hid] at hdata
          exact absurd rfl hdata
        · rw [if_neg hid]
          exact ⟨hu, fun heq => hid (congrArg some heq.symm)⟩
      refine ⟨h.heapOk.resetTimer _, h.held.sublist (held_resetTimer _ _), ?_, ?_, ?_, h.closed_lt, ?_, ?_⟩
      · intro t ht c' hc'
        obtain ⟨hu, hid⟩ := hback t ht (by rw [hc']; exact Option.some_ne_none c')
        have hlink := h.linked t hu c' hc'
        have hne : c' ≠ c := by
          rintro rfl
          exact hid (Option.some.inj (hlink.symm.trans htimer))
        exact (Function.update_of_ne hne _ _).trans hlink
      · intro i hi
        rcases List.mem_append.1 hi with hi | hi
        · exact h.resets_lt i hi
        · obtain ⟨t, ht, hid⟩ := List.mem_map.1 hmem
          rw [List.mem_singleton.1 hi, ← hid]
          exact h.heapOk.ids_lt t ht
      · intro t ht hid
        by_contra hdata
        obtain ⟨hu, hne⟩ := hback t ht hdata
        rcases List.mem_append.1 hid with hid | hid
        · exact hdata (h.detached t hu hid)
        · exact hne (List.mem_singleton.1 hid)
      · intro p hp
        rw [resetTimer_ids]
        exact h.gone p hp
      · intro p hp hid
        rcases List.mem_append.1 hid with hid | hid
        · exact h.apart p hp hid
        · exact h.gone p hp (by rw [List.mem_singleton.1 hid]; exact hmem)
    · exact h

/-- a connection that separates from its timer has none, so that it may be given one -/
theorem Inv.holders_seperateTimer (h : Inv m) (c : ConnId) : holders (m.seperateTimer c).heap c = [] := by
  apply List.filter_eq_nil_iff.2
  intro t ht hc
  have hc : t.httpdata = some c := by simpa using hc
  have hlink := (h.seperateTimer c).linked t ht c hc
  unfold TimerManager.seperateTimer at ht hlink
  cases htimer : m.timer c with
  | none =>
    simp only [htimer] at ht hlink
    cases hlink
  | some id =>
    simp only [htimer] at ht hlink
    split_ifs at ht hlink with hmem
    · simp at hlink
    · rw [htimer, Option.some.injEq] at hlink
      exact hmem (hlink ▸ List.mem_map_of_mem ht)

/-- what a call of handleExpiredEvent does in a state that meets the invariant -/
theorem Inv.handleExpiredEvent (h : Inv m) {m' : TimerManager} {now : Timeval} {tops : List Timer}
    (hm' : m.handleExpiredEvent now tops = some m') :
    Inv m' ∧ ∃ closed, m'.closed = m.closed ++ closed ∧ closed.Perm (due m.heap now) ∧
      (∀ t ∈ m'.heap, now.reading < t.expiredtime) ∧
      ∀ t ∈ m.heap, t.deleted = false → now.reading < t.expiredtime → t ∈ m'.heap := by
  obtain ⟨⟨left, closed⟩, hloop, rfl⟩ := Option.map_eq_some_iff.1 hm'
  obtain ⟨hclosed, hleft, hsub, hkept⟩ := expireLoop_spec h.heapOk.live hloop
  have hdue : ∀ p ∈ closed, ∃ t ∈ m.heap, t.deleted = false ∧ t.expiredtime ≤ now.reading ∧ t.id = p.1 ∧
      t.httpdata = some p.2 := fun p hp => mem_due.1 (hclosed.mem_iff.1 hp)
  refine ⟨⟨h.heapOk.sublist hsub, h.held.sublist (hsub.filterMap _), fun t ht => h.linked t (hsub.subset ht), h.resets_lt,
    fun t ht => h.detached t (hsub.subset ht), ?_, ?_, ?_⟩, closed, rfl, hclosed, hleft, hkept⟩
  · intro p hp
    rcases List.mem_append.1 hp with hp | hp
    · exact h.closed_lt p hp
    · obtain ⟨t, ht, -, -, hid, -⟩ := hdue p hp
      exact hid ▸ h.heapOk.ids_lt t ht
  · intro p hp hmem
    rcases List.mem_append.1 hp with hp | hp
    · exact h.gone p hp ((hsub.map Timer.id).subset hmem)
    · -- the timer that closed is not left, and no other timer is known by its id
      obtain ⟨t, ht, -, hexpired, hid, -⟩ := hdue p hp
      obtain ⟨u, hu, hid'⟩ := List.mem_map.1 hmem
      obtain rfl : u = t := List.inj_on_of_nodup_map h.heapOk.ids (hsub.subset hu) ht (hid'.trans hid.symm)
      have := hleft u hu
      omega
  · intro p hp hreset
    rcases List.mem_append.1 hp with hp | hp
    · exact h.apart p hp hreset
    · obtain ⟨t, ht, -, -, hid, hdata⟩ := hdue p hp
      have hnone := h.detached t ht (by rw [hid]; exact hreset)
      rw [hnone] at hdata
      cases hdata

theorem step_inv (m : TimerManager) (o : Op) (m' : TimerManager) (h : Inv m) (hstep : step m o = some m') : Inv m' := by
  cases o with
  | addTimer req timeout now =>
    simp only [step] at hstep
    split_ifs at hstep with hfree
    cases hstep
    exact h.addTimer hfree timeout now
  | seperateTimer c =>
    cases hstep
    exact h.seperateTimer c
  | handleExpiredEvent now tops => exact (h.handleExpiredEvent hstep).1

/-- **handleExpiredEvent closes exactly the due connections.** In every reachable state, at every reading of the clock, and
whatever the queue gives as its tops: the call ends; it closes the connections of the timers that are not deleted and whose
time has come, each once; what it leaves is still to come, and no such timer is removed; and no timer that was ever reset
has closed a connection. -/
theorem expired_exact (ops : List Op) (m : TimerManager) (hm : Machine.run step init ops = some m) (now : Timeval) :
    (∃ tops m', m.handleExpiredEvent now tops = some m') ∧
      ∀ tops m', m.handleExpiredEvent now tops = some m' →
        ∃ closed, m'.closed = m.closed ++ closed ∧
          (∀ c, c ∈ closed.map Prod.snd ↔
            ∃ t ∈ m.heap, t.deleted = false ∧ t.expiredtime ≤ now.reading ∧ t.httpdata = some c) ∧
          (closed.map Prod.snd).Nodup ∧ (∀ t ∈ m'.heap, now.reading < t.expiredtime) ∧
          (∀ t ∈ m.heap, t.deleted = false → now.reading < t.expiredtime → t ∈ m'.heap) ∧
          ∀ p ∈ m'.closed, p.1 ∉ m'.resets := by
  have hinv : Inv m := Machine.run_inv step_inv inv_init hm
  constructor
  · obtain ⟨tops, r, hr⟩ := expireLoop_ends now m.heap
    exact ⟨tops, _, by rw [handleExpiredEvent, hr]; rfl⟩
  · intro tops m' hm'
    obtain ⟨hinv', closed, hhist, hclosed, hleft, hkept⟩ := hinv.handleExpiredEvent hm'
    refine ⟨closed, hhist, ?_, ?_, hleft, hkept, hinv'.apart⟩
    · intro c
      simp only [List.mem_map, hclosed.mem_iff, mem_due]
      constructor
      · rintro ⟨p, ⟨t, ht, hdel, hexpired, -, hdata⟩, rfl⟩
        exact ⟨t, ht, hdel, hexpired, hdata⟩
      · rintro ⟨t, ht, hdel, hexpired, hdata⟩
        exact ⟨(t.id, c), ⟨t, ht, hdel, hexpired, rfl, hdata⟩, rfl⟩
    · have hperm := hclosed.map Prod.snd
      exact hperm.nodup_iff.2 (hinv.held.sublist (due_conns m.heap now))

/-- a timer that was reset, one that is due, and one that is not -/
def mixed : List Op :=
  [.addTimer 1 100 ⟨5, 0⟩, .addTimer 2 150 ⟨5, 0⟩, .seperateTimer 1, .addTimer 1 500 ⟨5, 0⟩]

theorem expired_exact_mixed : ∃ m m' tops, Machine.run step init mixed = some m ∧
    m.handleExpiredEvent ⟨5, 200000⟩ tops = some m' ∧ 2 ∈ m'.closed.map Prod.snd ∧ 1 ∉ m'.closed.map Prod.snd := by
  obtain ⟨m, hm⟩ : ∃ m, Machine.run step init mixed = some m := ⟨_, rfl⟩
  obtain ⟨⟨tops, m', hm'⟩, hall⟩ := expired_exact mixed m hm ⟨5, 200000⟩
  obtain ⟨closed, hhist, hclosed, -⟩ := hall tops m' hm'
  cases hm
  refine ⟨_, m', tops, rfl, hm', ?_, ?_⟩
  · rw [hhist]
    exact (hclosed 2).2 (by decide)
  · rw [hhist]
    exact fun hmem => absurd ((hclosed 1).1 hmem) (by decide)

end TimerManager

end Glacier
