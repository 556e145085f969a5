/-
Decimal numerals of the printf family, as bytes: `%0<w>d` and `%<w>d`, and reading a numeral back; canonical decimal and
hexadecimal numerals.
- `value_zeroPad`: a zero-padded numeral reads back as its number, so that numerals of one width are distinct.
- `length_zeroPad`: a number of at most `w` digits fills exactly `w` characters.
- `length_numeral_le`, `length_hexadecimal_le`: the most characters that a number of a given size takes.
-/
import Glacier.Lib.ByteString

namespace Cxx

/-- a numeral of width `w`, filled up on the left with `fill` -/
def pad (fill : UInt8) (w : ℕ) (digits : Bytes) : Bytes := List.replicate (w - digits.length) fill ++ digits

/-- `%0<w>d`; `%d` is width 0 -/
def zeroPad (w : ℕ) (n : ℤ) : Bytes :=
  if n < 0 then 45 :: pad 48 (w - 1) (decimal n.natAbs) else pad 48 w (decimal n.natAbs)

/-- `%<w>d` -/
def spacePad (w : ℕ) (n : ℤ) : Bytes :=
  if n < 0 then pad 32 w (45 :: decimal n.natAbs) else pad 32 w (decimal n.natAbs)

/-- the canonical numeral of an integer -/
def numeral (n : ℤ) : Bytes := if n < 0 then 45 :: decimal n.natAbs else decimal n.natAbs

/-- the upper-case hexadecimal numeral -/
def hexadecimal (n : ℕ) : Bytes := (Nat.toDigits 16 n).map fun c => UInt8.ofNat c.toUpper.toNat

/-- the number that a string of digits denotes -/
def value (digits : Bytes) : ℕ := digits.foldl (fun n d => 10 * n + (d.toNat - 48)) 0

theorem toNat_digit {c : Char} (h : c.isDigit) : (UInt8.ofNat c.toNat).toNat = c.toNat := by
  have : c.toNat ≤ 57 := by
    simp only [Char.isDigit, Bool.and_eq_true, decide_eq_true_eq] at h
    exact h.2
  simp only [UInt8.toNat_ofNat']
  omega

theorem value_decimal (n : ℕ) : value (decimal n) = n := by
  have hdigit : ∀ c ∈ Nat.toDigits 10 n, c.isDigit := fun c hc => Nat.isDigit_of_mem_toDigits (by decide) le_rfl hc
  calc value (decimal n)
      = (Nat.toDigits 10 n).foldl (fun n c => 10 * n + ((UInt8.ofNat c.toNat).toNat - 48)) 0 := by
        rw [value, decimal, List.foldl_map]
    _ = (Nat.toDigits 10 n).foldl (fun n c => 10 * n + (c.toNat - '0'.toNat)) 0 := by
        refine List.foldl_ext _ _ _ ?_
        intro a c hc
        rw [toNat_digit (hdigit c hc)]
        rfl
    _ = n := by rw [← Nat.ofDigitChars_eq_foldl, Nat.ofDigitChars_ten_toDigits]

/-- leading zeros do not change the value -/
theorem value_pad (w : ℕ) (digits : Bytes) : value (pad 48 w digits) = value digits := by
  have hzeros : ∀ k, (List.replicate k (48 : UInt8)).foldl (fun n d => 10 * n + (d.toNat - 48)) 0 = 0 := by
    intro k
    induction k with
    | zero => rfl
    | succ k ih => rw [List.replicate_succ, List.foldl_cons]; exact ih
  rw [value, pad, List.foldl_append, hzeros, value]

/-- a zero-padded numeral reads back as its number -/
theorem value_zeroPad (w : ℕ) {n : ℤ} (h : 0 ≤ n) : (value (zeroPad w n) : ℤ) = n := by
  rw [zeroPad, if_neg (by omega), value_pad, value_decimal]
  omega

theorem zeroPad_inj {w w' : ℕ} {a b : ℤ} (ha : 0 ≤ a) (hb : 0 ≤ b) (h : zeroPad w a = zeroPad w' b) : a = b := by
  rw [← value_zeroPad w ha, ← value_zeroPad w' hb, h]

theorem decimal_inj {a b : ℕ} (h : decimal a = decimal b) : a = b := by
  rw [← value_decimal a, ← value_decimal b, h]

theorem length_decimal_le {n k : ℕ} (hk : 0 < k) (h : n < 10 ^ k) : (decimal n).length ≤ k := by
  rw [decimal, List.length_map]
  exact (Nat.length_toDigits_le_iff (by decide) hk).2 h

/-- a number of at most `w` digits fills the width -/
theorem length_zeroPad {w : ℕ} (hw : 0 < w) {n : ℤ} (h0 : 0 ≤ n) (h : n < 10 ^ w) : (zeroPad w n).length = w := by
  have hlen : (decimal n.natAbs).length ≤ w := length_decimal_le hw (by zify; rwa [abs_of_nonneg h0])
  rw [zeroPad, if_neg (by omega), pad, List.length_append, List.length_replicate]
  omega

theorem length_pad (fill : UInt8) (w : ℕ) (digits : Bytes) : (pad fill w digits).length = max w digits.length := by
  rw [pad, List.length_append, List.length_replicate]
  omega

/-- a sign may take one more place -/
theorem length_zeroPad_le {w k : ℕ} {n : ℤ} (hk : 0 < k) (h : n.natAbs < 10 ^ k) : (zeroPad w n).length ≤ max w k + 1 := by
  have hlen := length_decimal_le hk h
  unfold zeroPad
  split_ifs
  · rw [List.length_cons, length_pad]; omega
  · rw [length_pad]; omega

theorem spacePad_length {w : ℕ} (hw : 0 < w) {n : ℤ} (h0 : 0 ≤ n) (h : n < 10 ^ w) : (spacePad w n).length = w := by
  have hlen : (decimal n.natAbs).length ≤ w := length_decimal_le hw (by zify; rwa [abs_of_nonneg h0])
  rw [spacePad, if_neg (by omega), pad, List.length_append, List.length_replicate]
  omega

theorem length_numeral_le {n : ℤ} {k : ℕ} (hk : 0 < k) (h : n.natAbs < 10 ^ k) : (numeral n).length ≤ k + 1 := by
  have hlen := length_decimal_le hk h
  unfold numeral
  split_ifs
  · rw [List.length_cons]; omega
  · omega

theorem length_hexadecimal_le {n k : ℕ} (hk : 0 < k) (h : n < 16 ^ k) : (hexadecimal n).length ≤ k := by
  rw [hexadecimal, List.length_map]
  exact (Nat.length_toDigits_le_iff (by decide) hk).2 h

theorem mem_decimal {b : UInt8} {n : ℕ} (h : b ∈ decimal n) : 48 ≤ b.toNat ∧ b.toNat < 58 := by
  obtain ⟨c, hc, rfl⟩ := List.mem_map.1 h
  have hdigit := Nat.isDigit_of_mem_toDigits (by decide) le_rfl hc
  have hval := toNat_digit hdigit
  simp only [Char.isDigit, Bool.and_eq_true, decide_eq_true_eq] at hdigit
  have hlow : 48 ≤ c.toNat := hdigit.1
  have hhigh : c.toNat ≤ 57 := hdigit.2
  rw [hval]
  omega

/-- a byte below the digits is in no decimal numeral -/
theorem not_mem_decimal {b : UInt8} (hb : b.toNat < 48) (n : ℕ) : b ∉ decimal n := by
  intro h
  exact absurd (mem_decimal h).1 (not_le.2 hb)

/-- a numeral ends with a digit -/
theorem getLast_numeral (n : ℤ) : ∃ front d, numeral n = front ++ [d] ∧ 48 ≤ d.toNat ∧ d.toNat < 58 := by
  have hne : decimal n.natAbs ≠ [] := by simp [decimal, Nat.toDigits_ne_nil]
  have hlast := mem_decimal (List.getLast_mem hne)
  have hsplit := List.dropLast_append_getLast hne
  unfold numeral
  split_ifs
  · exact ⟨45 :: (decimal n.natAbs).dropLast, _, by rw [List.cons_append, hsplit], hlast⟩
  · exact ⟨(decimal n.natAbs).dropLast, _, hsplit.symm, hlast⟩

theorem ne_of_toNat_lt {b c : UInt8} (h : b.toNat < c.toNat) : b ≠ c := by
  rintro rfl
  exact lt_irrefl _ h

theorem not_mem_numeral {b : UInt8} (hb : b.toNat < 45) (n : ℤ) : b ∉ numeral n := by
  have hdec := not_mem_decimal (show b.toNat < 48 by omega) n.natAbs
  have hsign : b ≠ 45 := ne_of_toNat_lt hb
  unfold numeral
  split_ifs <;> simp [hdec, hsign]

/-- a separator is in no numeral -/
theorem not_mem_zeroPad_of_ne {b : UInt8} (hb : b.toNat < 48) (hsign : b ≠ 45) (w : ℕ) (n : ℤ) : b ∉ zeroPad w n := by
  have hdec := not_mem_decimal hb n.natAbs
  have hfill : b ≠ 48 := ne_of_toNat_lt hb
  unfold zeroPad pad
  split_ifs <;> simp [hdec, hfill, hsign]

theorem not_mem_zeroPad {b : UInt8} (hb : b.toNat < 45) (w : ℕ) (n : ℤ) : b ∉ zeroPad w n :=
  not_mem_zeroPad_of_ne (by omega) (ne_of_toNat_lt hb) w n

theorem not_mem_spacePad {b : UInt8} (hb : b.toNat < 32) (w : ℕ) (n : ℤ) : b ∉ spacePad w n := by
  have hdec := not_mem_decimal (show b.toNat < 48 by omega) n.natAbs
  have hfill : b ≠ 32 := ne_of_toNat_lt hb
  have hsign : b ≠ 45 := ne_of_toNat_lt (show b.toNat < 45 by omega)
  unfold spacePad pad
  split_ifs <;> simp [hdec, hfill, hsign]

theorem spacePad_eq (w : ℕ) (n : ℤ) : spacePad w n = pad 32 w (numeral n) := by
  unfold spacePad numeral
  split_ifs <;> rfl

/-- no sign, no second numeral -/
theorem numeral_inj {a b : ℤ} (h : numeral a = numeral b) : a = b := by
  have hsign (n : ℕ) (digits : Bytes) : 45 :: digits ≠ decimal n := by
    intro heq
    exact not_mem_decimal (b := 45) (by decide) n (heq ▸ List.mem_cons_self)
  unfold numeral at h
  split_ifs at h with ha hb hb
  · have := decimal_inj (List.cons.inj h).2
    omega
  · exact absurd h (hsign _ _)
  · exact absurd h.symm (hsign _ _)
  · have := decimal_inj h
    omega

/-- what is left of a padded text without its filling -/
theorem filter_pad {fill : UInt8} {w : ℕ} {digits : Bytes} (h : fill ∉ digits) :
    (pad fill w digits).filter (· ≠ fill) = digits := by
  have hkeep : digits.filter (· ≠ fill) = digits := by
    rw [List.filter_eq_self]
    exact ne_of_not_mem h
  rw [pad, List.filter_append, hkeep]
  simp

theorem spacePad_inj {w : ℕ} {a b : ℤ} (h : spacePad w a = spacePad w b) : a = b := by
  have hfilter := congrArg (List.filter (· ≠ 32)) h
  rw [spacePad_eq, spacePad_eq, filter_pad (not_mem_numeral (by decide) a),
    filter_pad (not_mem_numeral (by decide) b)] at hfilter
  exact numeral_inj hfilter

/-- a zero-padded numeral reads back as its number, also a negative one -/
theorem zeroPad_inj_signed {w : ℕ} {a b : ℤ} (h : zeroPad w a = zeroPad w b) : a = b := by
  have hsign (n : ℕ) (digits : Bytes) : 45 :: digits ≠ pad 48 w (decimal n) := by
    intro heq
    have hmem : (45 : UInt8) ∈ pad 48 w (decimal n) := heq ▸ List.mem_cons_self
    rcases List.mem_append.1 hmem with hfill | hdigit
    · exact absurd (List.eq_of_mem_replicate hfill) (by decide)
    · exact not_mem_decimal (by decide) n hdigit
  have hread (v n m : ℕ) (heq : pad 48 v (decimal n) = pad 48 v (decimal m)) : n = m := by
    rw [← value_decimal n, ← value_decimal m, ← value_pad v, ← value_pad v (decimal m), heq]
  unfold zeroPad at h
  split_ifs at h with ha hb hb
  · have := hread _ _ _ (List.cons.inj h).2
    omega
  · exact absurd h (hsign _ _)
  · exact absurd h.symm (hsign _ _)
  · have := hread _ _ _ h
    omega

theorem spacePad_ne_nil {w : ℕ} (hw : 0 < w) (n : ℤ) : spacePad w n ≠ [] := by
  unfold spacePad pad
  split_ifs
  · simp
  · intro h
    obtain ⟨hfill, hnil⟩ := List.append_eq_nil_iff.1 h
    rw [hnil] at hfill
    simp at hfill
    omega

end Cxx
