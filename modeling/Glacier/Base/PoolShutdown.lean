/-
A worker left behind by the shutdown of the thread pool.

The destructor stores stoped_ and calls notify_all without the mutex under which a worker evaluates the predicate of
its wait. A worker that has found the predicate false, and has not blocked yet, misses the notification and then blocks
for good.
- `never_stranded_iff`: a run in which notify_all never falls between a worker's false predicate and its blocking
  strands no worker, and a notify_all that does fall there strands one in some continuation.
- `stranded_by_notify_all`: the order in which the only worker of a pool is stranded.
-/
import Glacier.Base.ThreadPool

namespace Glacier.ThreadPool

variable {n : ℕ} {κ τ : Type}

/-- notify_all has been issued, the destructor waits in a join, and a worker is blocked with no notification pending -/
def Stranded (s : St n κ τ) : Prop := (∃ k < n, s.dtor = .joining k) ∧ ∃ w, s.workers w = .blocked

/-- a point from which the worker can only block -/
def Pc.isSleep : Pc τ → Bool
  | .sleep => true
  | _ => false

@[simp] theorem isSleep_iff (p : Pc τ) : p.isSleep = true ↔ p = .sleep := by cases p <;> simp [Pc.isSleep]

/-- notify_all comes when no worker stands between its false predicate and its blocking -/
def NoneDozing (s : St n κ τ) : Op n κ τ → Prop
  | .notifyAll => ∀ w, (s.workers w).isSleep = false
  | _ => True

instance (s : St n κ τ) (o : Op n κ τ) : Decidable (NoneDozing s o) := by
  cases o <;> unfold NoneDozing <;> infer_instance

/-- neither blocked nor about to block -/
def Pc.awake (p : Pc τ) : Prop := p ≠ .sleep ∧ p ≠ .blocked

/-- what notify_all leaves when no worker misses it -/
def Awake (s : St n κ τ) : Prop := s.stoped = true ∧ ∀ w, (s.workers w).awake

theorem awake_setWorker {s : St n κ τ} (w : Fin n) {p : Pc τ} (h : ∀ v, (s.workers v).awake) (hp : p.awake) :
    ∀ v, ((setWorker s w p).workers v).awake := by
  intro v
  simp only [setWorker, Function.update_apply]
  split_ifs
  · exact hp
  · exact h v

theorem awake_notified {s x : St n κ τ} (h : ∀ v, (s.workers v).awake) (hx : Notified s x) :
    x.stoped = s.stoped ∧ ∀ v, (x.workers v).awake := by
  cases hx with
  | none => exact ⟨rfl, h⟩
  | woke w hpc => exact ⟨rfl, awake_setWorker w h (by simp [Pc.awake])⟩

variable [DecidableEq κ]

/-- on a stopped pool the predicate is true, so that no worker blocks again -/
theorem step_awake (s : St n κ τ) (o : Op n κ τ) (t : St n κ τ) (h : Awake s) (hst : step s o = some t) : Awake t := by
  obtain ⟨hs, hw⟩ := h
  cases stepped hst with
  | fails w hpc hf ht => rw [hs] at hf; cases hf
  | block w hpc => exact absurd hpc (hw w).1
  | wake w hpc => exact absurd hpc (hw w).2
  | stop w | enter w | acquire w | holds w | leave w | take w | finish w =>
    exact ⟨hs, awake_setWorker w hw (by simp [Pc.awake])⟩
  | notify q i target x hx hc | unlock q i target x hx hc =>
    obtain ⟨hstop, hawake⟩ := awake_notified hw hx
    exact ⟨hstop.trans hs, hawake⟩
  | store hd => exact ⟨rfl, hw⟩
  | notifyAll hd =>
    refine ⟨hs, ?_⟩
    intro w
    dsimp only
    split_ifs
    · simp [Pc.awake]
    · exact hw w
  | _ => exact ⟨hs, hw⟩

/-- notify_all has been issued -/
def Dtor.notified : Dtor → Bool
  | .idle | .stored => false
  | .joining _ | .returned => true

/-- the flag stands from the store on -/
def Flag (s : St n κ τ) : Prop := s.dtor ≠ .idle → s.stoped = true

theorem step_flag (s : St n κ τ) (o : Op n κ τ) (t : St n κ τ) (h : Flag s) (hst : step s o = some t) : Flag t := by
  cases stepped hst with
  | store hd => exact fun _ => rfl
  | notify q i target x hx | unlock q i target x hx => cases hx <;> exact h
  | notifyAll hd | joined k hk hd | returned k hk hd => exact fun _ => h (by simp [hd])
  | _ => exact h

/-- before notify_all, or after one that no worker missed -/
def Kept (s : St n κ τ) : Prop := Flag s ∧ (s.dtor.notified = true → Awake s)

/-- notify_all wakes every worker, if none is about to block -/
theorem notifyAll_awake {s t : St n κ τ} (hs : s.stoped = true) (hok : ∀ w, (s.workers w).isSleep = false)
    (hst : step s .notifyAll = some t) : Awake t := by
  cases stepped hst with
  | notifyAll hd =>
    refine ⟨hs, ?_⟩
    intro w
    have hsleep := hok w
    cases hpc : s.workers w <;> simp_all [Pc.isBlocked, Pc.isSleep, Pc.awake]

theorem step_kept (s : St n κ τ) (o : Op n κ τ) (t : St n κ τ) (h : Kept s) (hok : NoneDozing s o)
    (hst : step s o = some t) : Kept t := by
  obtain ⟨hflag, hawake⟩ := h
  refine ⟨step_flag s o t hflag hst, ?_⟩
  intro hnotified
  by_cases hbefore : s.dtor.notified = true
  · exact step_awake s o t (hawake hbefore) hst
  · cases stepped hst with
    | notifyAll hd => exact notifyAll_awake (hflag (by simp [hd])) hok hst
    | store hd => cases hnotified
    | joined k hk hd | returned k hk hd => simp [hd, Dtor.notified] at hbefore
    | notify q i target x hx | unlock q i target x hx => cases hx <;> exact absurd hnotified hbefore
    | _ => exact absurd hnotified hbefore

omit [DecidableEq κ] in
theorem awake_not_stranded {s : St n κ τ} (h : Awake s) : ¬ Stranded s := by
  intro hst
  obtain ⟨w, hw⟩ := hst.2
  exact (h.2 w).2 hw

/-- a worker that misses notify_all is stranded as soon as it blocks -/
theorem dozing_stranded {s t : St n κ τ} {w : Fin n} (hw : s.workers w = .sleep)
    (hst : step s .notifyAll = some t) : ∃ u, Machine.run step t [.worker w] = some u ∧ Stranded u := by
  cases stepped hst with
  | notifyAll hd =>
    set t : St n κ τ :=
      { s with workers := fun w => if (s.workers w).isBlocked then .woken else s.workers w, dtor := .joining 0 }
    have hpc : t.workers w = .sleep := by simp [t, hw, Pc.isBlocked]
    refine ⟨{ setWorker t w .blocked with mtx := none }, Machine.run_cons.2 ⟨_, ?_, rfl⟩, ⟨0, w.pos, rfl⟩, w, ?_⟩
    · simp only [step, worker, hpc]
    · simp [setWorker]

/-- **A worker is stranded exactly when notify_all falls between its false predicate and its blocking.** A run in which
it never does reaches no state with a stranded worker. And at the notify_all of any run: no continuation strands a
worker if and only if none stands there. -/
theorem never_stranded_iff (ops : List (Op n κ τ)) (s : St n κ τ) (hs : Machine.run step init ops = some s) :
    (Machine.Meets step NoneDozing init ops → ¬ Stranded s) ∧
      ∀ t, step s .notifyAll = some t →
        ((∀ more u, Machine.run step t more = some u → ¬ Stranded u) ↔ ∀ w, s.workers w ≠ .sleep) := by
  refine ⟨?_, fun t ht => ⟨?_, ?_⟩⟩
  · intro hok hstranded
    have hkept : Kept s := Machine.run_inv_of_meets step_kept ⟨fun hc => absurd rfl hc, fun hc => by cases hc⟩ hok hs
    obtain ⟨k, -, hk⟩ := hstranded.1
    exact awake_not_stranded (hkept.2 (by rw [hk]; rfl)) hstranded
  · intro hall w hw
    obtain ⟨u, hu, hstranded⟩ := dozing_stranded hw ht
    exact hall _ u hu hstranded
  · intro hnone more u hu
    have hflag : Flag s := Machine.run_inv step_flag (fun hc => absurd rfl hc) hs
    have hstoped : s.stoped = true := by
      cases stepped ht with
      | notifyAll hd => exact hflag (by simp [hd])
    have hawake := notifyAll_awake hstoped (fun w => by simpa [Bool.eq_false_iff] using hnone w) ht
    exact awake_not_stranded (Machine.run_inv step_awake hawake hu)

/-- the only worker blocks before the destructor starts -/
def blockThenStop : List (Op 1 Unit Unit) := List.replicate 4 (.worker ⟨0, Nat.one_pos⟩) ++ [.store, .notifyAll]

theorem never_stranded_iff_blocked : ∃ s, Machine.run step init blockThenStop = some s ∧ ¬ Stranded s := by
  obtain ⟨s, hs⟩ := Option.isSome_iff_exists.1
    (show (Machine.run step init blockThenStop).isSome = true by decide +kernel)
  exact ⟨s, hs, (never_stranded_iff blockThenStop s hs).1 (by decide +kernel)⟩

/-- the store and notify_all both come between the predicate and the blocking -/
def stopThenBlock : List (Op 1 Unit Unit) :=
  List.replicate 3 (.worker ⟨0, Nat.one_pos⟩) ++ [.store, .notifyAll, .worker ⟨0, Nat.one_pos⟩]

theorem stranded_by_notify_all : ∃ s, Machine.run step init stopThenBlock = some s ∧ Stranded s := by
  obtain ⟨s, hs, hstranded⟩ := Option.map_eq_some_iff.1
    (show (Machine.run step init stopThenBlock).map (fun s => (s.dtor, (s.workers 0).isBlocked)) =
      some (.joining 0, true) by decide +kernel)
  simp only [Prod.mk.injEq] at hstranded
  exact ⟨s, hs, ⟨0, by decide, hstranded.1⟩, 0, (isBlocked_iff _).1 hstranded.2⟩

end Glacier.ThreadPool
