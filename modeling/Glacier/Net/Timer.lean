/-
Timer and TimerManager (timer.h, timer.cc).

A Timer object is known by its `id`; the heap holds the only lasting reference to it, so a weak pointer to a timer can be
locked exactly while the timer is in the heap. The heap is a list: `IsTop` says which of its timers a priority_queue
may give as its top.
-/
import Mathlib.Tactic

namespace Glacier

/-- the identity of an HttpData object -/
abbrev ConnId := ℕ

structure Timeval where
  tvSec : ℕ
  tvUsec : ℕ
deriving DecidableEq, Repr

/-- the reading that timer.cc computes from gettimeofday, in milliseconds -/
def Timeval.reading (now : Timeval) : ℤ := (now.tvSec % 10000) * 1000 + now.tvUsec / 1000

structure Timer where
  id : ℕ
  deleted : Bool
  expiredtime : ℤ
  httpdata : Option ConnId
deriving DecidableEq, Repr

namespace Timer

def new (id : ℕ) (req : ConnId) (timeout : ℤ) (now : Timeval) : Timer where
  id := id
  deleted := false
  expiredtime := now.reading + timeout
  httpdata := some req

def update (t : Timer) (timeout : ℤ) (now : Timeval) : Timer := { t with expiredtime := now.reading + timeout }

def reset (t : Timer) : Timer := { t with httpdata := none, deleted := true }

/-- isValid(), which marks an expired timer deleted -/
def isValid (t : Timer) (now : Timeval) : Bool × Timer :=
  if now.reading < t.expiredtime then (true, t) else (false, { t with deleted := true })

end Timer

/-- `heap_.top()` may be `t` -/
def IsTop (heap : List Timer) (t : Timer) : Prop := t ∈ heap ∧ ∀ u ∈ heap, t.expiredtime ≤ u.expiredtime

instance (heap : List Timer) (t : Timer) : Decidable (IsTop heap t) := inferInstanceAs (Decidable (_ ∧ _))

/-- `if (timer_.lock()) { t->reset(); timer_.reset(); }` seen from the heap -/
def resetTimer (heap : List Timer) (timer : Option ℕ) : List Timer :=
  heap.map fun t => if timer = some t.id then t.reset else t

/-! ## Who holds a connection -/

/-- the timers that hold `c` -/
def holders (heap : List Timer) (c : ConnId) : List Timer := heap.filter fun t => t.httpdata = some c

/-- the connections that the timers hold -/
def held (heap : List Timer) : List ConnId := heap.filterMap Timer.httpdata

/-- the heap of a manager that has made `next` timers: every one is known by its id, and has let go of its connection
when it is deleted -/
structure HeapOk (heap : List Timer) (next : ℕ) : Prop where
  ids : (heap.map Timer.id).Nodup
  ids_lt : ∀ t ∈ heap, t.id < next
  live : ∀ t ∈ heap, t.httpdata ≠ none → t.deleted = false

/-- the weak pointer `timer` and the heap agree on `c`: one timer holds it, or it is detached -/
def Linked (heap : List Timer) (c : ConnId) (timer : Option ℕ) : Prop :=
  (∃ t, holders heap c = [t] ∧ timer = some t.id) ∨ (holders heap c = [] ∧ timer = none)

theorem mem_holders {heap : List Timer} {c : ConnId} {t : Timer} : t ∈ holders heap c ↔ t ∈ heap ∧ t.httpdata = some c := by
  simp [holders]

/-- a timer that is detached twice is detached once -/
@[simp] theorem resetTimer_none (heap : List Timer) : resetTimer heap none = heap := by
  simp [resetTimer]

@[simp] theorem reset_id (t : Timer) : t.reset.id = t.id := rfl

theorem resetTimer_ids (heap : List Timer) (timer : Option ℕ) :
    (resetTimer heap timer).map Timer.id = heap.map Timer.id := by
  rw [resetTimer, List.map_map]
  apply List.map_congr_left
  intro t _
  simp only [Function.comp_apply]
  split_ifs <;> rfl

/-- a timer of the heap after resetTimer is one from before, or holds nothing -/
theorem mem_resetTimer {heap : List Timer} {timer : Option ℕ} {t : Timer} (h : t ∈ resetTimer heap timer) :
    t ∈ heap ∨ t.httpdata = none := by
  obtain ⟨u, hu, rfl⟩ := List.mem_map.1 h
  split_ifs
  · exact Or.inr rfl
  · exact Or.inl hu

theorem held_resetTimer (heap : List Timer) (timer : Option ℕ) :
    (held (resetTimer heap timer)).Sublist (held heap) := by
  induction heap with
  | nil => exact .slnil
  | cons t heap ih =>
    have hcons : ∀ (u : Timer) (us : List Timer), held (u :: us) = u.httpdata.toList ++ held us := by
      intro u us
      cases hu : u.httpdata <;> simp [held, hu]
    change (held ((if timer = some t.id then t.reset else t) :: resetTimer heap timer)).Sublist _
    rw [hcons, hcons]
    split_ifs
    · exact ih.trans (List.sublist_append_right _ _)
    · exact ih.append_left _

theorem mem_held {heap : List Timer} {c : ConnId} : c ∈ held heap ↔ ∃ t ∈ heap, t.httpdata = some c := by
  simp [held, List.mem_filterMap]

theorem HeapOk.resetTimer {heap : List Timer} {next : ℕ} (h : HeapOk heap next) (timer : Option ℕ) :
    HeapOk (resetTimer heap timer) next where
  ids := by rw [resetTimer_ids]; exact h.ids
  ids_lt := by
    intro t ht
    have hid : t.id ∈ (Glacier.resetTimer heap timer).map Timer.id := List.mem_map_of_mem ht
    rw [resetTimer_ids] at hid
    obtain ⟨u, hu, hut⟩ := List.mem_map.1 hid
    exact hut ▸ h.ids_lt u hu
  live := by
    intro t ht hdata
    rcases mem_resetTimer ht with hmem | hnone
    · exact h.live t hmem hdata
    · exact absurd hnone hdata

/-- detaching a connection leaves no timer for it, and the timers of all others -/
theorem Linked.holders_resetTimer {heap : List Timer} {next : ℕ} {c : ConnId} {timer : Option ℕ} (h : Linked heap c timer)
    (hok : HeapOk heap next) :
    holders (resetTimer heap timer) c = [] ∧ ∀ c', c' ≠ c → holders (resetTimer heap timer) c' = holders heap c' := by
  rcases h with ⟨t, ht, rfl⟩ | ⟨hnone, rfl⟩
  · have htmem : t ∈ heap ∧ t.httpdata = some c := mem_holders.1 (by rw [ht]; exact List.mem_singleton_self t)
    have honly : ∀ u ∈ heap, t.id = u.id → u = t := fun u hu hid => List.inj_on_of_nodup_map hok.ids hu htmem.1 hid.symm
    constructor
    · apply List.filter_eq_nil_iff.2
      intro u hu
      obtain ⟨v, hv, rfl⟩ := List.mem_map.1 hu
      by_cases hid : t.id = v.id
      · simp [hid, Timer.reset]
      · have hv' : v ∉ holders heap c := by
          rw [ht, List.mem_singleton]; rintro rfl; exact hid rfl
        rw [mem_holders] at hv'
        simpa [hid] using fun hd => hv' ⟨hv, hd⟩
    · intro c' hc'
      rw [holders, Glacier.resetTimer, List.filter_map]
      have hsame : heap.filter ((fun u : Timer => decide (u.httpdata = some c')) ∘
          fun u => if some t.id = some u.id then u.reset else u) = holders heap c' := by
        apply List.filter_congr
        intro u hu
        by_cases hid : t.id = u.id
        · obtain rfl := honly u hu hid
          simp [Timer.reset, htmem.2, Ne.symm hc']
        · simp [hid]
      rw [hsame]
      conv_rhs => rw [← List.map_id (holders heap c')]
      apply List.map_congr_left
      intro u hu
      have hu := mem_holders.1 hu
      have hid : ¬ t.id = u.id := fun hid => by
        obtain rfl := honly u hu.1 hid
        exact hc' (Option.some.inj (hu.2.symm.trans htmem.2))
      simp [hid]
  · rw [resetTimer_none]
    exact ⟨hnone, fun _ _ => rfl⟩

/-- addTimer -/
theorem HeapOk.addTimer {heap : List Timer} {next : ℕ} (h : HeapOk heap next) (c : ConnId) (timeout : ℤ) (now : Timeval) :
    HeapOk (.new next c timeout now :: heap) (next + 1) where
  ids := by
    rw [List.map_cons, List.nodup_cons]
    refine ⟨?_, h.ids⟩
    intro hmem
    obtain ⟨t, ht, hid⟩ := List.mem_map.1 hmem
    have hlt := h.ids_lt t ht
    rw [hid] at hlt
    exact absurd hlt (lt_irrefl _)
  ids_lt := List.forall_mem_cons.2 ⟨Nat.lt_succ_self next, fun t ht => (h.ids_lt t ht).trans (Nat.lt_succ_self next)⟩
  live := List.forall_mem_cons.2 ⟨fun _ => rfl, h.live⟩

theorem holders_addTimer (heap : List Timer) (next : ℕ) (c : ConnId) (timeout : ℤ) (now : Timeval) :
    holders (.new next c timeout now :: heap) c = .new next c timeout now :: holders heap c ∧
      ∀ c', c' ≠ c → holders (.new next c timeout now :: heap) c' = holders heap c' :=
  ⟨by simp [holders, Timer.new], fun c' hc' => by simp [holders, Timer.new, Ne.symm hc']⟩

/-- taking timers out -/
theorem HeapOk.sublist {heap left : List Timer} {next : ℕ} (h : HeapOk heap next) (hsub : left.Sublist heap) :
    HeapOk left next where
  ids := h.ids.sublist (hsub.map Timer.id)
  ids_lt := fun t ht => h.ids_lt t (hsub.subset ht)
  live := fun t ht => h.live t (hsub.subset ht)

theorem HeapOk.erase {heap : List Timer} {next : ℕ} (h : HeapOk heap next) (t : Timer) : HeapOk (heap.erase t) next :=
  h.sublist List.erase_sublist

/-- a timer that is popped leaves the connections that it does not hold to theirs -/
theorem holders_erase_of_ne {heap : List Timer} {t : Timer} {c : ConnId} (h : t.httpdata ≠ some c) :
    holders (heap.erase t) c = holders heap c := by
  rw [holders, ← List.erase_filter]
  exact List.erase_of_not_mem fun hmem => h (mem_holders.1 hmem).2

theorem holders_erase_self {heap : List Timer} {t : Timer} {c : ConnId} (h : holders heap c = [t]) :
    holders (heap.erase t) c = [] := by
  rw [holders, ← List.erase_filter]
  show (holders heap c).erase t = []
  rw [h]; simp

end Glacier
