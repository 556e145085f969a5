/-
A finite family of threads, each at a point of its program: sums over the points.

`sum_update` is the bookkeeping of one step of one thread: what its old point counted leaves the sum, what its new
point counts enters it. With values in ℕ it counts the threads of a kind, with values in a multiset it collects what
the threads hold.
-/
import Mathlib.Tactic
import Mathlib.Algebra.BigOperators.Fin

namespace Threads

variable {ι π M : Type*} [Fintype ι] [DecidableEq ι] [AddCommMonoid M]

/-- what the points of all threads count together -/
def total (g : π → M) (f : ι → π) : M := ∑ i, g (f i)

/-- one thread moves to another point -/
theorem sum_update (g : π → M) (f : ι → π) (i : ι) (p : π) :
    total g (Function.update f i p) + g (f i) = total g f + g p := by
  have hrest : ∑ j ∈ Finset.univ.erase i, g (Function.update f i p j) = ∑ j ∈ Finset.univ.erase i, g (f j) := by
    refine Finset.sum_congr rfl ?_
    intro j hj
    rw [Function.update_of_ne (Finset.ne_of_mem_erase hj)]
  have hold := Finset.add_sum_erase Finset.univ (fun j => g (f j)) (Finset.mem_univ i)
  have hnew := Finset.add_sum_erase Finset.univ (fun j => g (Function.update f i p j)) (Finset.mem_univ i)
  simp only [Function.update_self, hrest] at hnew
  rw [total, total, ← hnew, ← hold]
  abel

/-- a thread that moves between points of the same weight leaves the sum -/
theorem total_update_of_eq {g : π → M} {f : ι → π} {i : ι} {p : π} (h : g p = g (f i)) :
    total g (Function.update f i p) = total g f := by
  refine Finset.sum_congr rfl ?_
  intro j _
  by_cases hj : j = i
  · subst hj; rw [Function.update_self, h]
  · rw [Function.update_of_ne hj]

omit [DecidableEq ι] in
theorem total_congr {g : π → M} {f f' : ι → π} (h : ∀ i, g (f i) = g (f' i)) : total g f = total g f' :=
  Finset.sum_congr rfl fun i _ => h i

omit [DecidableEq ι] in
/-- a sum over points that all count nothing -/
theorem total_eq_zero {g : π → M} {f : ι → π} (h : ∀ i, g (f i) = 0) : total g f = 0 :=
  Finset.sum_eq_zero fun i _ => h i

end Threads
