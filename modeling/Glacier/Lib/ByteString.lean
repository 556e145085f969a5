/-
Byte strings as C++ programs use them: std::string and char arrays as lists of bytes, the search functions of
std::string, and the conversions to and differences in a 64-bit size_t.
- `find_append_byte`, `find_byte_none`, `find_byte_lt`: searching one byte in a string split at its first occurrence,
  or without it; what is found is in the string.
- `takeWhile_ne_append`, `dropWhile_ne_append`: a string divided at the first occurrence of a byte.
- `split_afterLast`: and at the last one.
- `sizeDiff_of_le`: an unsigned difference taken in order is the difference.
-/
import Mathlib.Data.List.TakeWhile
import Mathlib.Tactic

namespace Cxx

/-- the bytes of a std::string or of a char array -/
abbrev Bytes := List UInt8

/-- the bytes of an ASCII literal -/
def ascii (s : String) : Bytes := s.toList.map fun c => UInt8.ofNat c.toNat

/-- the decimal numeral that %d, %zd and std::to_string print for a non-negative value -/
def decimal (n : ℕ) : Bytes := (Nat.toDigits 10 n).map fun c => UInt8.ofNat c.toNat

def CR : UInt8 := 13
def LF : UInt8 := 10
def COLON : UInt8 := 58
def SPACE : UInt8 := 32

/-! ## size_t -/

/-- conversion of a signed integer to a 64-bit size_t -/
def toSizeT (n : ℤ) : ℕ := (n % 2 ^ 64).toNat

theorem toSizeT_of_nonneg {n : ℤ} (h0 : 0 ≤ n) (h : n < 2 ^ 64) : toSizeT n = n.toNat := by
  unfold toSizeT; rw [Int.emod_eq_of_lt h0 h]

/-- conversion of an integer to a 32-bit int -/
def toInt (n : ℤ) : ℤ := if n % 2 ^ 32 < 2 ^ 31 then n % 2 ^ 32 else n % 2 ^ 32 - 2 ^ 32

theorem toInt_of_mem {n : ℤ} (h0 : -2 ^ 31 ≤ n) (h : n < 2 ^ 31) : toInt n = n := by
  unfold toInt; split_ifs <;> omega

/-- the difference of two size_t values, modulo 2^64 -/
def sizeDiff (a b : ℕ) : ℕ := if b ≤ a then a - b else 2 ^ 64 - (b - a)

@[simp] theorem sizeDiff_of_le {a b : ℕ} (h : b ≤ a) : sizeDiff a b = a - b := by simp [sizeDiff, h]

/-! ## std::string::find -/

/-- the first position at or after `i` where `pat` starts; `s` is the text from position `i` on -/
def findFrom (pat : Bytes) : Bytes → ℕ → Option ℕ
  | [], i => if pat = [] then some i else none
  | c :: s, i => if pat.isPrefixOf (c :: s) then some i else findFrom pat s (i + 1)

/-- `s.find(pat, pos)`; `none` is npos -/
def find (s pat : Bytes) (pos : ℕ) : Option ℕ := findFrom pat (s.drop pos) pos

/-- `s.substr(pos, n)` for `pos ≤ s.size()` -/
def substr (s : Bytes) (pos n : ℕ) : Bytes := (s.drop pos).take n

theorem findFrom_append_byte (c : UInt8) (a b : Bytes) (i : ℕ) (ha : c ∉ a) :
    findFrom [c] (a ++ c :: b) i = some (i + a.length) := by
  induction a generalizing i with
  | nil => simp [findFrom, List.isPrefixOf]
  | cons d a ih =>
    have hd : c ≠ d := fun h => ha (h ▸ List.mem_cons_self)
    have ha' : c ∉ a := fun h => ha (List.mem_cons_of_mem d h)
    simp only [List.cons_append, findFrom, List.isPrefixOf, beq_iff_eq, hd, Bool.and_true, ite_false]
    rw [ih (i + 1) ha', List.length_cons]
    congr 1; omega

theorem findFrom_byte_none (c : UInt8) (a : Bytes) (i : ℕ) (ha : c ∉ a) : findFrom [c] a i = none := by
  induction a generalizing i with
  | nil => rfl
  | cons d a ih =>
    have hd : c ≠ d := fun h => ha (h ▸ List.mem_cons_self)
    simp only [findFrom, List.isPrefixOf, beq_iff_eq, hd, Bool.and_true, ite_false]
    exact ih (i + 1) fun h => ha (List.mem_cons_of_mem d h)

theorem findFrom_byte_lt (c : UInt8) (a : Bytes) (i k : ℕ) (h : findFrom [c] a i = some k) : k < i + a.length := by
  induction a generalizing i with
  | nil => cases h
  | cons d a ih =>
    unfold findFrom at h
    split_ifs at h
    · cases h; simp
    · have := ih (i + 1) h
      rw [List.length_cons]; omega

/-- a byte that is found is in the string -/
theorem find_byte_lt {s : Bytes} {c : UInt8} {k : ℕ} {pos : ℕ} (h : find s [c] pos = some k) : k < s.length := by
  have hk := findFrom_byte_lt c (s.drop pos) pos k h
  rw [List.length_drop] at hk
  rcases Nat.le_total pos s.length with hle | hle
  · omega
  · rw [find, List.drop_eq_nil_of_le hle] at h
    cases h

/-- where a byte is found, the string is split at its first occurrence from `pos` on -/
theorem find_byte_some {s : Bytes} {c : UInt8} {k pos : ℕ} (h : find s [c] pos = some k) :
    ∃ a b, c ∉ a ∧ s.drop pos = a ++ c :: b ∧ k = pos + a.length := by
  by_cases hmem : c ∈ s.drop pos
  · obtain ⟨a, b, hs, ha⟩ := List.eq_append_cons_of_mem hmem
    refine ⟨a, b, ha, hs, ?_⟩
    rw [find, hs, findFrom_append_byte c a b pos ha] at h
    exact (Option.some.inj h).symm
  · rw [find, findFrom_byte_none c _ pos hmem] at h
    cases h

theorem find_byte_none_iff {s : Bytes} {c : UInt8} {pos : ℕ} : find s [c] pos = none ↔ c ∉ s.drop pos := by
  constructor
  · intro h hmem
    obtain ⟨a, b, hs, ha⟩ := List.eq_append_cons_of_mem hmem
    rw [find, hs, findFrom_append_byte c a b pos ha] at h
    cases h
  · exact findFrom_byte_none c _ pos

theorem findFrom_le {pat s : Bytes} {i k : ℕ} (h : findFrom pat s i = some k) : k ≤ i + s.length := by
  induction s generalizing i with
  | nil =>
    unfold findFrom at h
    split_ifs at h
    cases h; exact le_rfl
  | cons c s ih =>
    unfold findFrom at h
    split_ifs at h
    · cases h; omega
    · have := ih h
      rw [List.length_cons]; omega

/-- a text that is found from the beginning is found in the string -/
theorem find_le {s pat : Bytes} {k : ℕ} (h : find s pat 0 = some k) : k ≤ s.length := by
  have := findFrom_le h
  simpa using this

theorem findFrom_none_iff {pat s : Bytes} {i : ℕ} (hne : pat ≠ []) : findFrom pat s i = none ↔ ¬ pat <:+: s := by
  induction s generalizing i with
  | nil => simp [findFrom, hne]
  | cons c s ih =>
    rw [findFrom, List.infix_cons_iff]
    by_cases hpre : pat <+: c :: s
    · rw [if_pos (List.isPrefixOf_iff_prefix.2 hpre)]
      simp [hpre]
    · rw [if_neg fun h => hpre (List.isPrefixOf_iff_prefix.1 h), ih]
      simp [hpre]

/-- a text is not found where it does not occur -/
theorem find_none_iff {s pat : Bytes} (hne : pat ≠ []) : find s pat 0 = none ↔ ¬ pat <:+: s := findFrom_none_iff hne

/-- a text does not go over a character that it does not have -/
theorem infix_append_cons {α : Type*} {pat a b : List α} {c : α} (hc : c ∉ pat) :
    pat <:+: a ++ c :: b ↔ pat <:+: a ∨ pat <:+: b := by
  constructor
  · intro h
    rcases List.infix_append_iff_ne_nil.1 h with h | h | ⟨u, w, -, hw, rfl, -, hpre⟩
    · exact Or.inl h
    · rcases List.infix_cons_iff.1 h with hpre | h
      · cases pat with
        | nil => exact Or.inl List.nil_infix
        | cons d pat =>
          obtain ⟨rfl, -⟩ := List.cons_prefix_cons.1 hpre
          exact absurd List.mem_cons_self hc
      · exact Or.inr h
    · obtain ⟨d, w, rfl⟩ := List.exists_cons_of_ne_nil hw
      obtain ⟨rfl, -⟩ := List.cons_prefix_cons.1 hpre
      exact absurd (by simp) hc
  · rintro (h | h)
    · exact h.trans (List.prefix_append a _).isInfix
    · exact h.trans ((List.suffix_cons c b).trans (List.suffix_append a _)).isInfix

/-- what a string begins with is found at once -/
theorem find_prefix {s pat : Bytes} (h : pat <+: s) (hne : s ≠ []) : find s pat 0 = some 0 := by
  obtain ⟨c, s, rfl⟩ := List.exists_cons_of_ne_nil hne
  rw [find, List.drop_zero, findFrom, if_pos (List.isPrefixOf_iff_prefix.2 h)]

/-- searching a byte in a string split at its first occurrence -/
theorem find_append_byte (c : UInt8) (a b : Bytes) (ha : c ∉ a) : find (a ++ c :: b) [c] 0 = some a.length := by
  simpa [find] using findFrom_append_byte c a b 0 ha

/-- searching a byte that does not occur -/
theorem find_byte_none (c : UInt8) (a : Bytes) (ha : c ∉ a) : find a [c] 0 = none := by
  simpa [find] using findFrom_byte_none c a 0 ha

/-! ## Up to a byte -/

section UpTo

variable {c : UInt8} {s : Bytes}

theorem ne_of_not_mem (h : c ∉ s) : ∀ b ∈ s, decide (b ≠ c) = true := by
  intro b hb
  rw [decide_eq_true_eq]
  rintro rfl
  exact h hb

theorem takeWhile_ne (h : c ∉ s) : s.takeWhile (· ≠ c) = s := List.takeWhile_eq_self_iff.2 (ne_of_not_mem h)

theorem takeWhile_ne_append (h : c ∉ s) (rest : Bytes) : (s ++ c :: rest).takeWhile (· ≠ c) = s := by
  rw [List.takeWhile_append_of_pos (ne_of_not_mem h), List.takeWhile_cons_of_neg (by simp), List.append_nil]

theorem dropWhile_ne_append (h : c ∉ s) (rest : Bytes) : (s ++ c :: rest).dropWhile (· ≠ c) = c :: rest := by
  rw [List.dropWhile_append_of_pos (ne_of_not_mem h), List.dropWhile_cons_of_neg (by simp)]

/-- the bytes behind the last `c`, or all of them -/
def afterLast (c : UInt8) (s : Bytes) : Bytes := (s.reverse.takeWhile (· ≠ c)).reverse

theorem afterLast_append (h : c ∉ s) (front : Bytes) : afterLast c (front ++ c :: s) = s := by
  have hrev : (front ++ c :: s).reverse = s.reverse ++ c :: front.reverse := by simp
  rw [afterLast, hrev, takeWhile_ne_append (by simpa using h), List.reverse_reverse]

theorem afterLast_of_not_mem (h : c ∉ s) : afterLast c s = s := by
  rw [afterLast, takeWhile_ne (by simpa using h), List.reverse_reverse]

theorem split_afterLast (h : c ∈ s) : ∃ front, s = front ++ c :: afterLast c s ∧ c ∉ afterLast c s := by
  obtain ⟨back, front, hs, hback⟩ := List.eq_append_cons_of_mem (List.mem_reverse.2 h)
  have hsplit : s = front.reverse ++ c :: back.reverse := by simpa using congrArg List.reverse hs
  have hback : c ∉ back.reverse := by simpa using hback
  have hlast : afterLast c s = back.reverse := by
    rw [hsplit]
    exact afterLast_append hback _
  rw [hlast]
  exact ⟨front.reverse, hsplit, hback⟩

theorem afterLast_suffix (c : UInt8) (s : Bytes) : afterLast c s <:+ s := by
  have hpre := List.takeWhile_prefix (· ≠ c) (l := s.reverse)
  rw [← List.reverse_suffix, List.reverse_reverse] at hpre
  exact hpre

end UpTo

end Cxx
