/-
Runs of a machine given by a partial step function, over any state and operation types. An operation that is not
enabled in a state has no next state.
- `run_inv`: what every enabled step preserves, every run preserves.
- `run_inv_of_meets`: the same where the steps are only known to preserve it under a condition `ok` on the state
  before the step and the operation, for the runs whose steps all meet the condition.
- `run_iff_meets`: the same where the condition is also necessary.
- `run_rank`, `run_stops`: where each step lowers a rank, runs are bounded, and the machine stops; `run_countP` where only
  some steps lower it.
- `run_map`: the run of a machine that does more than another, seen by the other.
- `Reaches`: some run leads from one state to the other; `reaches_map` for the states of another machine.
-/
import Mathlib.Tactic

namespace Machine

variable {σ α : Type*}

/-- a whole run; an operation that is not enabled ends it without a state -/
def run (step : σ → α → Option σ) : σ → List α → Option σ
  | s, [] => some s
  | s, o :: ops => (step s o).bind fun t => run step t ops

/-- every step of the run is taken in a state that meets `ok` for its operation -/
def Meets (step : σ → α → Option σ) (ok : σ → α → Prop) : σ → List α → Prop
  | _, [] => True
  | s, o :: ops => ok s o ∧ ∀ t, step s o = some t → Meets step ok t ops

variable {step : σ → α → Option σ} {ok : σ → α → Prop}

instance decMeets [∀ s o, Decidable (ok s o)] (s : σ) : (ops : List α) → Decidable (Meets step ok s ops)
  | [] => isTrue trivial
  | o :: ops =>
    match h : step s o with
    | none => decidable_of_iff (ok s o) (by simp [Meets, h])
    | some t =>
      have := decMeets t ops
      decidable_of_iff (ok s o ∧ Meets step ok t ops) (by simp [Meets, h])

@[simp] theorem run_nil (s : σ) : run step s [] = some s := rfl

theorem run_cons {s u : σ} {o : α} {ops : List α} :
    run step s (o :: ops) = some u ↔ ∃ t, step s o = some t ∧ run step t ops = some u := by
  simp [run, Option.bind_eq_some_iff]

theorem run_append {s u : σ} {a b : List α} :
    run step s (a ++ b) = some u ↔ ∃ t, run step s a = some t ∧ run step t b = some u := by
  induction a generalizing s with
  | nil => simp
  | cons o a ih =>
    rw [List.cons_append, run_cons]
    simp only [ih, run_cons]
    constructor
    · intro ⟨t, ht, v, hv, hu⟩; exact ⟨v, ⟨t, ht, hv⟩, hu⟩
    · intro ⟨v, ⟨t, ht, hv⟩, hu⟩; exact ⟨t, ht, v, hv, hu⟩

/-- **Projection rule.** Where `f` takes each step to a step of the other machine, it takes each run to a run of it. -/
theorem run_map {τ : Type*} {step' : τ → α → Option τ} {f : τ → σ} (hstep : ∀ t o, (step' t o).map f = step (f t) o)
    (t : τ) (ops : List α) : (run step' t ops).map f = run step (f t) ops := by
  induction ops generalizing t with
  | nil => rfl
  | cons o ops ih =>
    have hone := hstep t o
    unfold run
    cases hu : step' t o with
    | none =>
      rw [hu] at hone
      rw [← hone]; rfl
    | some u =>
      rw [hu] at hone
      rw [← hone]; exact ih u

/-- some run leads from one state to the other -/
def Reaches (step : σ → α → Option σ) (s t : σ) : Prop := ∃ ops, run step s ops = some t

theorem Reaches.refl (s : σ) : Reaches step s s := ⟨[], rfl⟩

theorem Reaches.trans {s t u : σ} (h1 : Reaches step s t) (h2 : Reaches step t u) : Reaches step s u := by
  obtain ⟨a, ha⟩ := h1
  obtain ⟨b, hb⟩ := h2
  exact ⟨a ++ b, run_append.2 ⟨t, ha, hb⟩⟩

theorem Reaches.head {s t u : σ} (o : α) (h1 : step s o = some t) (h2 : Reaches step t u) : Reaches step s u := by
  obtain ⟨b, hb⟩ := h2
  exact ⟨o :: b, run_cons.2 ⟨t, h1, hb⟩⟩

/-- **Image rule.** Where `f` takes each step to some step of the other machine, which may depend on the state, it takes
runs to runs. -/
theorem reaches_map {τ β : Type*} {step' : τ → β → Option τ} {f : τ → σ}
    (hstep : ∀ t b u, step' t b = some u → ∃ o, step (f t) o = some (f u)) {t u : τ} {ops : List β}
    (hrun : run step' t ops = some u) : Reaches step (f t) (f u) := by
  induction ops generalizing t with
  | nil => cases hrun; exact .refl _
  | cons b ops ih =>
    obtain ⟨v, hv, hrun⟩ := run_cons.1 hrun
    obtain ⟨o, ho⟩ := hstep t b v hv
    exact (ih hrun).head o ho

/-- **Invariant rule.** What every enabled step preserves, every run preserves. -/
theorem run_inv {I : σ → Prop} (hstep : ∀ s o t, I s → step s o = some t → I t) {s t : σ} {ops : List α}
    (hs : I s) (hrun : run step s ops = some t) : I t := by
  induction ops generalizing s with
  | nil => cases hrun; exact hs
  | cons o ops ih =>
    obtain ⟨u, hu, hrun⟩ := run_cons.1 hrun
    exact ih (hstep s o u hs hu) hrun

/-- **Ranking rule.** Where each step keeps `I` and lowers the rank, a run keeps `I` and is no longer than the rank
allows. -/
theorem run_rank {I : σ → Prop} {rank : σ → ℕ} (hstep : ∀ s o t, I s → step s o = some t → I t ∧ rank t < rank s) {s t : σ}
    {ops : List α} (hs : I s) (hrun : run step s ops = some t) : I t ∧ ops.length + rank t ≤ rank s := by
  induction ops generalizing s with
  | nil => cases hrun; exact ⟨hs, (Nat.zero_add _).le⟩
  | cons o ops ih =>
    obtain ⟨u, hu, hrun⟩ := run_cons.1 hrun
    obtain ⟨hIu, hlt⟩ := hstep s o u hs hu
    obtain ⟨ht, hle⟩ := ih hIu hrun
    refine ⟨ht, ?_⟩
    rw [List.length_cons]; omega

/-- Such a machine stops, whatever operations it is given. -/
theorem run_stops {I : σ → Prop} {rank : σ → ℕ} (hstep : ∀ s o t, I s → step s o = some t → I t ∧ rank t < rank s) {s : σ}
    (hs : I s) (next : ℕ → α) : ∃ n t, run step s ((List.range n).map next) = some t ∧ step t (next n) = none := by
  induction hr : rank s using Nat.strong_induction_on generalizing s next with
  | _ r ih =>
    cases hu : step s (next 0) with
    | none => exact ⟨0, s, rfl, hu⟩
    | some u =>
      obtain ⟨hIu, hlt⟩ := hstep s (next 0) u hs hu
      obtain ⟨n, t, hrun, ht⟩ := ih (rank u) (hr ▸ hlt) hIu (fun n => next (n + 1)) rfl
      refine ⟨n + 1, t, ?_, ht⟩
      rw [List.range_succ_eq_map, List.map_cons, List.map_map]
      exact run_cons.2 ⟨u, hu, hrun⟩

/-- **Progress rule.** Where each step keeps `I`, no step raises the rank and those in `p` lower it, a run has no more
steps in `p` than the rank allows. -/
theorem run_countP {I : σ → Prop} {rank : σ → ℕ} {p : α → Bool}
    (hstep : ∀ s o t, I s → step s o = some t → I t ∧ (if p o then rank t < rank s else rank t ≤ rank s)) {s t : σ}
    {ops : List α} (hs : I s) (hrun : run step s ops = some t) : ops.countP p + rank t ≤ rank s := by
  induction ops generalizing s with
  | nil => cases hrun; exact (Nat.zero_add _).le
  | cons o ops ih =>
    obtain ⟨u, hu, hrun⟩ := run_cons.1 hrun
    obtain ⟨hIu, hle⟩ := hstep s o u hs hu
    have hrest := ih hIu hrun
    rw [List.countP_cons]
    split_ifs at hle ⊢ <;> omega

/-- **Conditional invariant rule.** In a run whose steps all meet `ok`, what the steps preserve under `ok` holds in
the state reached. -/
theorem run_inv_of_meets {I : σ → Prop} (hstep : ∀ s o t, I s → ok s o → step s o = some t → I t) {s t : σ}
    {ops : List α} (hs : I s) (hok : Meets step ok s ops) (hrun : run step s ops = some t) : I t := by
  induction ops generalizing s with
  | nil => cases hrun; exact hs
  | cons o ops ih =>
    obtain ⟨u, hu, hrun⟩ := run_cons.1 hrun
    exact ih (hstep s o u hs hok.1 hu) (hok.2 u hu) hrun

/-- **Exact condition rule.** Where each step keeps `P` exactly when it meets `ok`, a run keeps `P` exactly when all its
steps do. -/
theorem run_iff_meets {I P : σ → Prop} (hstep : ∀ s o t, I s → step s o = some t → I t ∧ (P t ↔ P s ∧ ok s o)) {s t : σ}
    {ops : List α} (hs : I s) (hrun : run step s ops = some t) : P t ↔ P s ∧ Meets step ok s ops := by
  induction ops generalizing s with
  | nil => cases hrun; simp [Meets]
  | cons o ops ih =>
    obtain ⟨u, hu, hrun⟩ := run_cons.1 hrun
    obtain ⟨hIu, hPu⟩ := hstep s o u hs hu
    rw [ih hIu hrun, hPu]
    simp only [Meets, hu, Option.some.injEq, forall_eq']
    tauto

/-- a condition on the operations alone is met by every run over operations that satisfy it -/
theorem meets_of_forall {p : α → Prop} {s : σ} {ops : List α} (h : ∀ o ∈ ops, p o) :
    Meets step (fun _ o => p o) s ops := by
  induction ops generalizing s with
  | nil => trivial
  | cons o ops ih =>
    exact ⟨h o List.mem_cons_self, fun t _ => ih fun o' ho' => h o' (List.mem_cons_of_mem o ho')⟩

end Machine
