/-
Walking along a path name by name: a name leads up, leaves one where one is, or leads down. `walk` counts how deep below its
starting directory a walk is, and fails where it would leave it.
- `walk_isSome_iff`: a walk stays inside exactly when it never has more names that lead up than names that lead down.
-/
import Mathlib.Tactic

namespace Path

inductive Move where
  | up
  | stay
  | down
deriving DecidableEq, Repr

/-- the depth at the end of a walk that begins at depth `n`; none if it leaves the directory of depth 0 -/
def walk : ℕ → List Move → Option ℕ
  | n, [] => some n
  | 0, .up :: _ => none
  | n + 1, .up :: ms => walk n ms
  | n, .stay :: ms => walk n ms
  | n, .down :: ms => walk (n + 1) ms

/-- no part of the walk from its beginning has more names that lead up than names that lead down -/
def NeverClimbs (ms : List Move) : Prop := ∀ k, (ms.take k).count .up ≤ (ms.take k).count .down

/-- a walk that begins at depth `n` may lead up n times more often -/
theorem walk_isSome_iff_count (n : ℕ) (ms : List Move) :
    (walk n ms).isSome ↔ ∀ k, (ms.take k).count .up ≤ n + (ms.take k).count .down := by
  induction ms generalizing n with
  | nil => simp [walk]
  | cons m ms ih =>
    -- the first name, and then the rest of the walk from where it leads
    have hsplit : (∀ k, ((m :: ms).take k).count .up ≤ n + ((m :: ms).take k).count .down) ↔
        ∀ k, (m :: ms.take k).count .up ≤ n + (m :: ms.take k).count .down := by
      constructor
      · intro h k
        exact h (k + 1)
      · intro h k
        cases k with
        | zero => simp
        | succ k => exact h k
    rw [hsplit]
    cases m with
    | stay => simpa [walk] using ih n
    | down =>
      rw [walk, ih (n + 1)]
      simp only [List.count_cons, beq_iff_eq, reduceCtorEq, if_false, if_true]
      constructor
      · intro h k
        have := h k
        omega
      · intro h k
        have := h k
        omega
    | up =>
      cases n with
      | zero =>
        simp only [walk, Option.isSome_none, Bool.false_eq_true, false_iff, not_forall]
        exact ⟨0, by simp⟩
      | succ n =>
        rw [walk, ih n]
        simp only [List.count_cons, beq_iff_eq, reduceCtorEq, if_false, if_true]
        constructor
        · intro h k
          have := h k
          omega
        · intro h k
          have := h k
          omega

theorem walk_isSome_iff (ms : List Move) : (walk 0 ms).isSome ↔ NeverClimbs ms := by
  rw [walk_isSome_iff_count]
  simp only [Nat.zero_add]
  rfl

instance (ms : List Move) : Decidable (NeverClimbs ms) := decidable_of_iff _ (walk_isSome_iff ms)

end Path
