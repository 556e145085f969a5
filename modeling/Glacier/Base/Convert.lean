/-
convert and convertHex (base/logstream.cc): a number as text, written to the free end of a char array.

Both store the digits from the last one on, then a NUL, and reverse the text in place. Their loops differ in the base and
in the table of digits; `storeDigits` is both of them. The remainder of a negative number is not positive, which is why
the table of convert goes from 9 down to 0 and up to 9 again.
- `convert_spec`, `convertHex_spec`: the text is the numeral, and one byte more than it is stored to.
-/
import Glacier.Lib.CharArray
import Glacier.Lib.Numeral

namespace Glacier

open Cxx

def digits : Bytes := ascii "9876543210123456789"

/-- `zero[lsd]`, where `zero = digits + 9` -/
def zero (lsd : ℤ) : UInt8 := digits.getD (9 + lsd).toNat 0

def digitsHex : Bytes := ascii "0123456789ABCDEF"

/-- the `do … while (i != 0)` in the given base, storing at `p`: the array, and `p` after the loop -/
def storeDigits (base : ℤ) (digit : ℤ → UInt8) : ℕ → CharArray → ℕ → ℤ → CharArray × ℕ
  | 0, m, p, _ => (m, p)
  | fuel + 1, m, p, i =>
    let lsd := i.tmod base
    let i := i.tdiv base
    let m := m.store p (digit lsd)
    if i ≠ 0 then storeDigits base digit fuel m (p + 1) i else (m, p + 1)

/-- convert of a value of any integer type, at offset `buf`: the array and the length -/
def convert (m : CharArray) (buf : ℕ) (value : ℤ) : CharArray × ℕ :=
  let (m, p) := storeDigits 10 zero (value.natAbs + 1) m buf value
  let (m, p) := if value < 0 then (m.store p 45, p + 1) else (m, p)
  let m := m.store p 0
  (m.reverse buf p, p - buf)

def convertHex (m : CharArray) (buf : ℕ) (value : ℕ) : CharArray × ℕ :=
  let (m, p) := storeDigits 16 (fun lsd => digitsHex.getD lsd.toNat 0) (value + 1) m buf value
  let m := m.store p 0
  (m.reverse buf p, p - buf)

example : ((convert ⟨fun _ => 7, []⟩ 3 (-120)).1.load 2 7, (convert ⟨fun _ => 7, []⟩ 3 (-120)).2) =
    (7 :: ascii "-120" ++ [0, 7], 4) := by decide

/-- The loop stores the digits of the absolute value backwards; it takes one turn for each of them. Of a number that is not
negative, no remainder is. -/
theorem storeDigits_spec {base : ℕ} (hbase : 1 < base) {f : Char → UInt8} {g : ℤ → UInt8} {fuel : ℕ} {m : CharArray}
    {p : ℕ} {i : ℤ} (hfuel : i.natAbs < fuel)
    (hdigit : ∀ d : ℤ, d.natAbs < base → (0 ≤ i → 0 ≤ d) → g d = f (Nat.digitChar d.natAbs)) :
    ∃ m', storeDigits base g fuel m p i = (m', p + ((Nat.toDigits base i.natAbs).map f).length) ∧
      m'.load p ((Nat.toDigits base i.natAbs).map f).length = ((Nat.toDigits base i.natAbs).map f).reverse ∧
      m.Within m' p (p + ((Nat.toDigits base i.natAbs).map f).length) := by
  induction fuel generalizing m p i with
  | zero => exact absurd hfuel (Nat.not_lt_zero _)
  | succ fuel ih =>
    have hquot : (i.tdiv base).natAbs = i.natAbs / base := by rw [Int.natAbs_tdiv, Int.natAbs_natCast]; rfl
    have hrem : (i.tmod base).natAbs = i.natAbs % base := by rw [Int.natAbs_tmod, Int.natAbs_natCast]
    have hlsd : g (i.tmod base) = f (Nat.digitChar (i.natAbs % base)) := by
      have hlt : (i.tmod base).natAbs < base := by
        rw [hrem]; exact Nat.mod_lt _ (by omega)
      rw [hdigit _ hlt fun hi => Int.tmod_nonneg _ hi, hrem]
    have hfirst := CharArray.store_within m p (g (i.tmod base))
    unfold storeDigits
    dsimp only
    by_cases hlast : i.natAbs < base
    · -- the last digit
      have hzero : i.tdiv base = 0 := by
        rw [← Int.natAbs_eq_zero, hquot, Nat.div_eq_of_lt hlast]
      rw [if_neg (not_not.2 hzero), Nat.toDigits_of_lt_base hlast]
      refine ⟨_, rfl, ?_, hfirst⟩
      have hload := m.load_store p 0 (g (i.tmod base))
      rw [hlsd, Nat.mod_eq_of_lt hlast] at hload ⊢
      exact hload
    · have hle : base ≤ i.natAbs := not_lt.1 hlast
      have hpos : 0 < i.natAbs / base := Nat.div_pos hle (by omega)
      have hne : i.tdiv base ≠ 0 := by rw [← Int.natAbs_ne_zero, hquot]; omega
      have hless : i.natAbs / base < i.natAbs := Nat.div_lt_self (by omega) hbase
      obtain ⟨m', hm', hload, hwithin⟩ := ih (m := m.store p (g (i.tmod base))) (p := p + 1) (i := i.tdiv base)
        (by rw [hquot]; omega) fun d hd hnonneg => hdigit d hd fun hi => hnonneg (Int.tdiv_nonneg hi (by omega))
      rw [hquot] at hm' hload hwithin
      rw [if_pos hne, hm', Nat.toDigits_of_base_le hbase hle]
      simp only [List.map_append, List.map_cons, List.map_nil, List.length_append, List.length_cons, List.length_nil,
        List.reverse_append, List.reverse_cons, List.reverse_nil, List.nil_append]
      set n := ((Nat.toDigits base (i.natAbs / base)).map f).length with hn
      refine ⟨m', ?_, ?_, ?_⟩
      · congr 1; omega
      · rw [Nat.zero_add, CharArray.load_succ, hload, hwithin.below p (by omega), ← hlsd]
        simp [CharArray.store]
      · exact (hfirst.mono (by omega)).trans hwithin (by omega) (by omega)

/-- the NUL behind the text, and the reversal -/
theorem finish_spec {m m' : CharArray} {buf : ℕ} (text : Bytes) (hload : m'.load buf text.length = text.reverse)
    (hwithin : m.Within m' buf (buf + text.length)) :
    let m'' := (m'.store (buf + text.length) 0).reverse buf (buf + text.length)
    m''.load buf text.length = text ∧ m.Within m'' buf (buf + text.length + 1) := by
  have hnul := CharArray.store_within m' (buf + text.length) 0
  have hreverse := CharArray.reverse_within (m'.store (buf + text.length) 0) buf text.length
  refine ⟨?_, ?_⟩
  · rw [CharArray.load_reverse, hnul.load_eq le_rfl, hload, List.reverse_reverse]
  · exact ((hwithin.mono (Nat.le_succ _)).trans hnul (by omega) le_rfl).trans hreverse le_rfl (by omega)

theorem zero_eq (d : ℤ) (h : d.natAbs < 10) : zero d = UInt8.ofNat (Nat.digitChar d.natAbs).toNat := by
  obtain ⟨hlow, hhigh⟩ : -9 ≤ d ∧ d ≤ 9 := by omega
  interval_cases d <;> rfl

theorem digitsHex_eq (d : ℤ) (h : d.natAbs < 16) (h0 : 0 ≤ d) :
    digitsHex.getD d.toNat 0 = UInt8.ofNat (Nat.digitChar d.natAbs).toUpper.toNat := by
  have hhigh : d ≤ 15 := by omega
  interval_cases d <;> rfl

/-- **convert** writes the canonical numeral of the value, and a NUL behind it. -/
theorem convert_spec (m : CharArray) (buf : ℕ) (value : ℤ) :
    (convert m buf value).2 = (numeral value).length ∧
      (convert m buf value).1.load buf (numeral value).length = numeral value ∧
      m.Within (convert m buf value).1 buf (buf + (numeral value).length + 1) := by
  obtain ⟨m', hm', hload, hwithin⟩ := storeDigits_spec (f := fun c => UInt8.ofNat c.toNat) (m := m) (p := buf)
    (show 1 < 10 by decide) (Nat.lt_succ_self value.natAbs) fun d hd _ => zero_eq d hd
  have hm' : storeDigits 10 zero (value.natAbs + 1) m buf value = (m', buf + (decimal value.natAbs).length) := hm'
  have hload : m'.load buf (decimal value.natAbs).length = (decimal value.natAbs).reverse := hload
  unfold convert
  rw [hm']
  by_cases hneg : value < 0
  · have htext : numeral value = 45 :: decimal value.natAbs := if_pos hneg
    have hsign := CharArray.store_within m' (buf + (decimal value.natAbs).length) 45
    obtain ⟨htextload, hrange⟩ := finish_spec (45 :: decimal value.natAbs)
      (show (m'.store (buf + (decimal value.natAbs).length) 45).load buf ((decimal value.natAbs).length + 1) = _ by
        rw [CharArray.load_store, hload, List.reverse_cons])
      ((hwithin.mono (Nat.le_succ _)).trans hsign (by omega) le_rfl)
    simp only [if_pos hneg]
    rw [htext, List.length_cons, ← Nat.add_assoc]
    exact ⟨by omega, htextload, hrange⟩
  · have htext : numeral value = decimal value.natAbs := if_neg hneg
    obtain ⟨htextload, hrange⟩ := finish_spec (decimal value.natAbs) hload hwithin
    simp only [if_neg hneg]
    rw [htext]
    exact ⟨by omega, htextload, hrange⟩

/-- **convertHex** writes the hexadecimal numeral of the value, and a NUL behind it. -/
theorem convertHex_spec (m : CharArray) (buf : ℕ) (value : ℕ) :
    (convertHex m buf value).2 = (hexadecimal value).length ∧
      (convertHex m buf value).1.load buf (hexadecimal value).length = hexadecimal value ∧
      m.Within (convertHex m buf value).1 buf (buf + (hexadecimal value).length + 1) := by
  obtain ⟨m', hm', hload, hwithin⟩ := storeDigits_spec (g := fun lsd => digitsHex.getD lsd.toNat 0)
    (f := fun c => UInt8.ofNat c.toUpper.toNat) (m := m) (p := buf) (i := value) (show 1 < 16 by decide)
    (Nat.lt_succ_self _) fun d hd hnonneg => digitsHex_eq d hd (hnonneg (Int.natCast_nonneg value))
  have hm' : storeDigits 16 (fun lsd => digitsHex.getD lsd.toNat 0) (value + 1) m buf value =
      (m', buf + (hexadecimal value).length) := hm'
  obtain ⟨htextload, hrange⟩ := finish_spec (hexadecimal value) hload hwithin
  unfold convertHex
  rw [hm']
  exact ⟨Nat.add_sub_cancel_left _ _, htextload, hrange⟩

end Glacier
