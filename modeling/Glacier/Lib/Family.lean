/-
A family of machines of one kind that take their steps one at a time, in any order. An operation names its component.
- `run_component`: what a run of the family does to one component is a run of that component, over the operations that
  name it, so that an invariant of the one machine holds of all of them;
- `Disjoint.step`: resources that a component takes only while no other holds them are held by one component at most.
-/
import Glacier.Lib.Machine

namespace Family

variable {ι σ α κ : Type*} [DecidableEq ι]

/-- one step of the component that the operation names -/
def step (one : σ → α → Option σ) (f : ι → σ) (o : ι × α) : Option (ι → σ) :=
  (one (f o.1) o.2).map (Function.update f o.1)

/-- the operations that name `i` -/
def at' (i : ι) (ops : List (ι × α)) : List α := ops.filterMap fun o => if o.1 = i then some o.2 else none

variable {one : σ → α → Option σ} {f g : ι → σ}

theorem step_eq {i : ι} {o : α} : step one f (i, o) = some g ↔ ∃ t, one (f i) o = some t ∧ g = Function.update f i t := by
  unfold step
  rw [Option.map_eq_some_iff]
  exact exists_congr fun t => and_congr_right fun _ => eq_comm

/-- **Component rule.** -/
theorem run_component {ops : List (ι × α)} (hrun : Machine.run (step one) f ops = some g) (i : ι) :
    Machine.run one (f i) (at' i ops) = some (g i) := by
  induction ops generalizing f with
  | nil => cases hrun; rfl
  | cons o ops ih =>
    obtain ⟨u, hu, hrun⟩ := Machine.run_cons.1 hrun
    obtain ⟨t, ht, rfl⟩ := step_eq.1 hu
    have hrest := ih hrun
    by_cases hi : o.1 = i
    · subst hi
      rw [Function.update_self] at hrest
      have hat : at' o.1 (o :: ops) = o.2 :: at' o.1 ops := by simp [at']
      rw [hat]
      exact Machine.run_cons.2 ⟨t, ht, hrest⟩
    · rw [Function.update_of_ne (Ne.symm hi)] at hrest
      have hat : at' i (o :: ops) = at' i ops := by simp [at', hi]
      rw [hat]
      exact hrest

/-- no resource is held by two components -/
def Disjoint (owns : σ → κ → Prop) (f : ι → σ) : Prop := ∀ i j k, owns (f i) k → owns (f j) k → i = j

/-- **Ownership rule.** One component moves and gains only what nobody held. -/
theorem Disjoint.step {owns : σ → κ → Prop} {i : ι} {t : σ} (h : Disjoint owns f)
    (hgain : ∀ k, owns t k → owns (f i) k ∨ ∀ j, ¬ owns (f j) k) : Disjoint owns (Function.update f i t) := by
  -- what a component that has not moved shares with the one that has
  have hshare : ∀ j k, j ≠ i → owns t k → ¬ owns (f j) k := by
    intro j k hj ht hk
    rcases hgain k ht with hold | hfree
    · exact hj (h j i k hk hold)
    · exact hfree j hk
  intro a b k ha hb
  by_cases hai : a = i <;> by_cases hbi : b = i
  · rw [hai, hbi]
  · rw [hai, Function.update_self] at ha
    rw [Function.update_of_ne hbi] at hb
    exact absurd hb (hshare b k hbi ha)
  · rw [Function.update_of_ne hai] at ha
    rw [hbi, Function.update_self] at hb
    exact absurd ha (hshare a k hai hb)
  · rw [Function.update_of_ne hai] at ha
    rw [Function.update_of_ne hbi] at hb
    exact h a b k ha hb

end Family
