/-
Reading numerals: the number that a text in a base up to sixteen denotes, with `-` in front of a negative one, and the
canonical numerals of a number as the texts without leading zeros that read back as it.
- `readNatural_digitsOf`: the digits of a number read back as it;
- `canonical_numeral`, `canonical_hexadecimal`: the numerals that are written are canonical.
-/
import Glacier.Lib.Numeral

namespace Cxx

/-- the upper-case digit for `d` -/
def digitOf (d : ℕ) : UInt8 := UInt8.ofNat (Nat.digitChar d).toUpper.toNat

def digitsOf (base n : ℕ) : Bytes := (Nat.toDigits base n).map fun c => UInt8.ofNat c.toUpper.toNat

def digitValue (b : UInt8) : Option ℕ :=
  if 48 ≤ b.toNat ∧ b.toNat < 58 then some (b.toNat - 48)
  else if 65 ≤ b.toNat ∧ b.toNat < 71 then some (b.toNat - 55)
  else none

/-- the number with one more digit -/
def readDigit (base n : ℕ) (b : UInt8) : Option ℕ := do
  let d ← digitValue b
  if d < base then some (base * n + d) else none

def readNatural (base : ℕ) (text : Bytes) : Option ℕ :=
  if text = [] then none else text.foldlM (readDigit base) 0

/-- a negative number has a `-`, and the digits of a number begin with `0` only if it is their only one -/
structure Canonical (base : ℕ) (v : ℤ) (text : Bytes) : Prop where
  digits : ∃ ds, text = (if v < 0 then [45] else []) ++ ds ∧ readNatural base ds = some v.natAbs ∧
    (ds.head? = some 48 → ds = [48])

/-- a text with an optional `-` as an integer -/
def readInteger (base : ℕ) (text : Bytes) : Option ℤ :=
  match text with
  | 45 :: ds => (readNatural base ds).map fun n : ℕ => -(n : ℤ)
  | ds => (readNatural base ds).map fun n : ℕ => (n : ℤ)

theorem digitValue_digitOf {d : ℕ} (h : d < 16) : digitValue (digitOf d) = some d := by
  interval_cases d <;> rfl

theorem digitValue_minus : digitValue 45 = none := by decide

variable {base : ℕ}

theorem digitsOf_of_lt {n : ℕ} (h : n < base) : digitsOf base n = [digitOf n] := by
  rw [digitsOf, Nat.toDigits_of_lt_base h]
  rfl

theorem digitsOf_of_le (hbase : 1 < base) {n : ℕ} (h : base ≤ n) :
    digitsOf base n = digitsOf base (n / base) ++ [digitOf (n % base)] := by
  rw [digitsOf, Nat.toDigits_of_base_le hbase h, List.map_append]
  rfl

theorem digitsOf_ne_nil (base n : ℕ) : digitsOf base n ≠ [] := by simp [digitsOf]

theorem readNatural_append {ds : Bytes} (hds : ds ≠ []) (b : UInt8) :
    readNatural base (ds ++ [b]) = (readNatural base ds).bind fun n => readDigit base n b := by
  rw [readNatural, if_neg (by simp), readNatural, if_neg hds, List.foldlM_append]
  simp

theorem readNatural_singleton (b : UInt8) : readNatural base [b] = readDigit base 0 b := by
  simp [readNatural]

theorem readDigit_digitOf (h16 : base ≤ 16) {d : ℕ} (hd : d < base) (n : ℕ) :
    readDigit base n (digitOf d) = some (base * n + d) := by
  rw [readDigit, digitValue_digitOf (by omega)]
  exact if_pos hd

/-- the digits of a number read back as it -/
theorem readNatural_digitsOf (hbase : 1 < base) (h16 : base ≤ 16) (n : ℕ) :
    readNatural base (digitsOf base n) = some n := by
  induction n using Nat.strong_induction_on with
  | _ n ih =>
    by_cases hlt : n < base
    · rw [digitsOf_of_lt hlt, readNatural_singleton, readDigit_digitOf h16 hlt, Nat.mul_zero, Nat.zero_add]
    · have hle : base ≤ n := not_lt.1 hlt
      have hless : n / base < n := Nat.div_lt_self (by omega) hbase
      rw [digitsOf_of_le hbase hle, readNatural_append (digitsOf_ne_nil _ _), ih _ hless, Option.bind_some,
        readDigit_digitOf h16 (Nat.mod_lt _ (by omega)), Nat.div_add_mod]

theorem digitOf_zero : digitOf 0 = 48 := rfl

theorem head?_append_singleton {ds : Bytes} (hds : ds ≠ []) (b : UInt8) : (ds ++ [b]).head? = ds.head? := by
  cases ds with
  | nil => exact absurd rfl hds
  | cons d ds => rfl

/-- no leading zero -/
theorem digitsOf_head (hbase : 1 < base) (h16 : base ≤ 16) (n : ℕ) (h : (digitsOf base n).head? = some 48) :
    digitsOf base n = [48] := by
  induction n using Nat.strong_induction_on with
  | _ n ih =>
    by_cases hlt : n < base
    · rw [digitsOf_of_lt hlt] at h ⊢
      rw [Option.some.inj h]
    · have hle : base ≤ n := not_lt.1 hlt
      have hpos : 0 < n / base := Nat.div_pos hle (by omega)
      rw [digitsOf_of_le hbase hle, head?_append_singleton (digitsOf_ne_nil _ _)] at h
      -- the digits in front would be those of zero
      have hread := readNatural_digitsOf hbase h16 (n / base)
      have hzero : readNatural base [48] = some 0 := by
        rw [readNatural_singleton, ← digitOf_zero, readDigit_digitOf h16 (by omega), Nat.mul_zero]
      rw [ih _ (Nat.div_lt_self (by omega) hbase) h, hzero, Option.some.injEq] at hread
      omega

/-! ## Canonical numerals -/

theorem decimal_eq_digitsOf (n : ℕ) : decimal n = digitsOf 10 n := by
  apply List.map_congr_left
  intro c hc
  have hdigit := Nat.isDigit_of_mem_toDigits (by decide) le_rfl hc
  have hlow : c.toUpper = c := by
    simp only [Char.isDigit, Bool.and_eq_true, decide_eq_true_eq] at hdigit
    unfold Char.toUpper
    rw [dif_neg]
    intro hlower
    have hlow : 97 ≤ c.val.toNat := hlower.1
    have hhigh : c.val.toNat ≤ 57 := hdigit.2
    omega
  rw [hlow]

theorem canonical_numeral (v : ℤ) : Canonical 10 v (numeral v) := by
  refine ⟨decimal v.natAbs, ?_, ?_, ?_⟩
  · unfold numeral
    split_ifs <;> rfl
  · rw [decimal_eq_digitsOf, readNatural_digitsOf (by decide) (by decide)]
  · rw [decimal_eq_digitsOf]
    exact digitsOf_head (by decide) (by decide) v.natAbs

theorem canonical_hexadecimal (n : ℕ) : Canonical 16 n (hexadecimal n) := by
  refine ⟨digitsOf 16 n, ?_, ?_, ?_⟩
  · rw [if_neg (by omega)]
    rfl
  · rw [readNatural_digitsOf (by decide) (by decide), Int.natAbs_natCast]
  · exact digitsOf_head (by decide) (by decide) n

/-- a canonical numeral reads back as the number -/
theorem Canonical.read {v : ℤ} {text : Bytes} (h : Canonical base v text) : readInteger base text = some v := by
  obtain ⟨ds, rfl, hread, -⟩ := h.digits
  by_cases hneg : v < 0
  · rw [if_pos hneg]
    change (readNatural base ds).map _ = _
    rw [hread, Option.map_some, Option.some.injEq]
    omega
  · have hplus : readInteger base ds = (readNatural base ds).map fun n : ℕ => (n : ℤ) := by
      unfold readInteger
      split
      · next ds =>
        -- a `-` is no digit
        simp [readNatural, readDigit, digitValue_minus] at hread
      · rfl
    rw [if_neg hneg, List.nil_append, hplus, hread, Option.map_some, Option.some.injEq]
    omega

end Cxx
