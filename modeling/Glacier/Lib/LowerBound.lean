/-
Halving search for the end of the initial segment of positions that satisfy `p`, as std::lower_bound performs it:
`p i` says that element `i` is less than the key.
- `lowerBound_le`, `lowerBound_before`, `lowerBound_at`: for any `p` at all, the result is a position where `p` changes:
  `p` holds just before it and fails at it, or it is an end of the range.
- `probes_lt`: it asks for elements of the range only.
-/
import Mathlib.Tactic

namespace LowerBound

/-- the loop of the search: `len` positions from `first` on are still open; `len` rounds always suffice -/
def search (p : ℕ → Bool) : ℕ → ℕ → ℕ → ℕ
  | 0, first, _ => first
  | fuel + 1, first, len =>
    if len = 0 then first
    else
      let half := len / 2
      if p (first + half) then search p fuel (first + half + 1) (len - half - 1) else search p fuel first half

def lowerBound (p : ℕ → Bool) (n : ℕ) : ℕ := search p n 0 n

/-- The open range always lies between a position that satisfies `p` (or the start) and one that does not (or the
end). -/
theorem search_spec (p : ℕ → Bool) (n fuel first len : ℕ) (hfuel : len ≤ fuel) (hn : first + len ≤ n)
    (hlo : ∀ i, i + 1 = first → p i = true) (hhi : first + len < n → p (first + len) = false) :
    search p fuel first len ≤ n ∧ (∀ i, i + 1 = search p fuel first len → p i = true) ∧
      (search p fuel first len < n → p (search p fuel first len) = false) := by
  induction fuel generalizing first len with
  | zero =>
    have h0 : len = 0 := Nat.le_zero.1 hfuel
    subst h0
    exact ⟨hn, hlo, hhi⟩
  | succ fuel ih =>
    unfold search
    by_cases h0 : len = 0
    · subst h0
      exact ⟨hn, hlo, hhi⟩
    · rw [if_neg h0]
      by_cases hp : p (first + len / 2) = true
      · simp only [hp, if_true]
        have hend : first + len / 2 + 1 + (len - len / 2 - 1) = first + len := by omega
        apply ih _ _ (by omega) (by omega)
        · intro i hi
          rw [show i = first + len / 2 by omega]; exact hp
        · intro hlt
          rw [hend] at hlt ⊢; exact hhi hlt
      · simp only [hp]
        exact ih _ _ (by omega) (by omega) hlo fun _ => by simpa using hp

theorem lowerBound_spec (p : ℕ → Bool) (n : ℕ) :
    lowerBound p n ≤ n ∧ (∀ i, i + 1 = lowerBound p n → p i = true) ∧
      (lowerBound p n < n → p (lowerBound p n) = false) :=
  search_spec p n n 0 n le_rfl (by omega) (by omega) (by omega)

theorem lowerBound_le (p : ℕ → Bool) (n : ℕ) : lowerBound p n ≤ n := (lowerBound_spec p n).1

theorem lowerBound_before (p : ℕ → Bool) {n i : ℕ} (h : i + 1 = lowerBound p n) : p i = true :=
  (lowerBound_spec p n).2.1 i h

theorem lowerBound_at (p : ℕ → Bool) {n : ℕ} (h : lowerBound p n < n) : p (lowerBound p n) = false :=
  (lowerBound_spec p n).2.2 h

/-- the positions whose elements the loop compares -/
def probes (p : ℕ → Bool) : ℕ → ℕ → ℕ → List ℕ
  | 0, _, _ => []
  | fuel + 1, first, len =>
    if len = 0 then []
    else
      let half := len / 2
      (first + half) ::
        if p (first + half) then probes p fuel (first + half + 1) (len - half - 1) else probes p fuel first half

theorem probes_lt (p : ℕ → Bool) {n fuel first len : ℕ} (hn : first + len ≤ n) : ∀ i ∈ probes p fuel first len, i < n := by
  induction fuel generalizing first len with
  | zero => simp [probes]
  | succ fuel ih =>
    intro i hi
    unfold probes at hi
    by_cases h0 : len = 0
    · simp [h0] at hi
    · rw [if_neg h0, List.mem_cons] at hi
      rcases hi with rfl | hi
      · omega
      · split_ifs at hi
        · exact ih (by omega) i hi
        · exact ih (by omega) i hi

end LowerBound
