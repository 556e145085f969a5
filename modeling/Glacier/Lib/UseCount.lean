/-
Objects that are destroyed when their use count falls to 0, counted against a list of all the references to them.
- `Balanced`: every count is the number of references in the list, in whatever places they are held;
- `Balanced.acquire`, `Balanced.release`: one more reference, one fewer;
- `slots_update`: what a store into one slot of an array does to the references held there.
-/
import Mathlib.Tactic

namespace UseCount

variable {α : Type*}

/-- the references held in an array of `k` slots -/
theorem mem_slots {f : ℕ → Option α} {k : ℕ} {a : α} :
    a ∈ (List.range k).filterMap f ↔ ∃ i < k, f i = some a := by
  simp [List.mem_filterMap]

variable [DecidableEq α]

def acquire (n : α → ℕ) (a : α) : α → ℕ := Function.update n a (n a + 1)

def release (n : α → ℕ) (a : α) : α → ℕ := Function.update n a (n a - 1)

/-- the counts are right for the references `refs` -/
def Balanced (n : α → ℕ) (refs : List α) : Prop := ∀ a, n a = refs.count a

theorem Balanced.perm {n : α → ℕ} {refs refs' : List α} (h : Balanced n refs) (hp : refs.Perm refs') :
    Balanced n refs' := by
  intro a
  rw [h a]
  exact hp.count_eq a

theorem Balanced.acquire {n : α → ℕ} {refs : List α} (h : Balanced n refs) (a : α) :
    Balanced (acquire n a) (a :: refs) := by
  intro b
  by_cases hb : b = a
  · subst hb
    rw [UseCount.acquire, Function.update_self, List.count_cons_self, h b]
  · rw [UseCount.acquire, Function.update_of_ne hb, List.count_cons_of_ne (Ne.symm hb), h b]

theorem Balanced.release {n : α → ℕ} {refs : List α} {a : α} (h : Balanced n (a :: refs)) :
    Balanced (release n a) refs := by
  intro b
  by_cases hb : b = a
  · subst hb
    rw [UseCount.release, Function.update_self, h b, List.count_cons_self, Nat.add_sub_cancel]
  · rw [UseCount.release, Function.update_of_ne hb, h b, List.count_cons_of_ne (Ne.symm hb)]

theorem Balanced.pos_iff {n : α → ℕ} {refs : List α} (h : Balanced n refs) {a : α} : 0 < n a ↔ a ∈ refs := by
  rw [h a]; exact List.count_pos_iff

theorem Balanced.eq_zero_iff {n : α → ℕ} {refs : List α} (h : Balanced n refs) {a : α} : n a = 0 ↔ a ∉ refs := by
  rw [h a]; exact List.count_eq_zero

/-- A store into slot `i` trades the reference that was held there for the new one. -/
theorem slots_update {f : ℕ → Option α} {i k : ℕ} (hi : i < k) (v : Option α) :
    ((f i).toList ++ (List.range k).filterMap (Function.update f i v)).Perm
      (v.toList ++ (List.range k).filterMap f) := by
  induction k with
  | zero => exact absurd hi (Nat.not_lt_zero i)
  | succ k ih =>
    rw [List.range_succ, List.filterMap_append, List.filterMap_append]
    by_cases hik : i = k
    · -- the last slot: all others are as before
      subst hik
      have hsame : (List.range i).filterMap (Function.update f i v) = (List.range i).filterMap f := by
        apply List.filterMap_congr
        intro j hj
        exact Function.update_of_ne (Nat.ne_of_lt (List.mem_range.1 hj)) _ _
      have hlast : ∀ o : Option α, [i].filterMap (fun _ => o) = o.toList := by
        intro o
        cases o <;> rfl
      have hnew : [i].filterMap (Function.update f i v) = v.toList := by
        rw [← hlast v]; simp [List.filterMap_cons]
      have hold : [i].filterMap f = (f i).toList := by
        rw [← hlast (f i)]; simp [List.filterMap_cons]
      rw [hsame, hnew, hold]
      rw [List.perm_iff_count]
      intro a
      simp only [List.count_append]
      omega
    · have hperm := ih (Nat.lt_of_le_of_ne (Nat.lt_succ_iff.1 hi) hik)
      have hlast : [k].filterMap (Function.update f i v) = [k].filterMap f := by
        simp [List.filterMap_cons, Function.update_of_ne (Ne.symm hik)]
      rw [hlast, ← List.append_assoc, ← List.append_assoc]
      exact hperm.append_right _

end UseCount
