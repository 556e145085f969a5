/-
Integers as text: what convert and convertHex (base/logstream.cc) leave at `buf` for every value that is streamed.

`integer` is the value formatInteger gets of a piece; short and unsigned short are widened first.
- `convert_terminated`, `convertHex_terminated`: the NUL behind the text;
- `integers_exact`: the text is the canonical numeral of the value, and fits.
-/
import Glacier.Base.LogPieces
import Glacier.Lib.ReadNumeral

namespace Glacier

open Cxx

/-! ## The NUL -/

theorem memcpy_byte_ge (m : CharArray) (p : ℕ) (bs : Bytes) {a : ℕ} (ha : p + bs.length ≤ a) :
    (m.memcpy p bs).byte a = m.byte a := by
  induction bs generalizing m p with
  | nil => rfl
  | cons b bs ih =>
    rw [List.length_cons] at ha
    calc ((m.store p b).memcpy (p + 1) bs).byte a = (m.store p b).byte a := ih _ _ (by omega)
      _ = m.byte a := Function.update_of_ne (by omega) _ _

/-- std::reverse stops in front of `q` -/
theorem reverse_byte (m : CharArray) {p q : ℕ} (h : p ≤ q) : (m.reverse p q).byte q = m.byte q := by
  refine memcpy_byte_ge _ _ _ ?_
  rw [List.length_reverse, CharArray.load_length]
  omega

/-- the last store of either function -/
theorem finish_nul (m : CharArray) {buf p : ℕ} (h : buf ≤ p) : ((m.store p 0).reverse buf p).byte (buf + (p - buf)) = 0 := by
  rw [Nat.add_sub_cancel' h, reverse_byte _ h]
  exact Function.update_self _ _ _

theorem storeDigits_le (base : ℤ) (digit : ℤ → UInt8) (fuel : ℕ) (m : CharArray) (p : ℕ) (i : ℤ) :
    p ≤ (storeDigits base digit fuel m p i).2 := by
  induction fuel generalizing m p i with
  | zero => exact le_rfl
  | succ fuel ih =>
    unfold storeDigits
    dsimp only
    split_ifs
    · exact (Nat.le_succ p).trans (ih _ _ _)
    · exact Nat.le_succ p

theorem convert_nul (m : CharArray) (buf : ℕ) (value : ℤ) :
    (convert m buf value).1.byte (buf + (convert m buf value).2) = 0 := by
  have hle := storeDigits_le 10 zero (value.natAbs + 1) m buf value
  unfold convert
  by_cases hneg : value < 0
  · simp only [if_pos hneg]
    exact finish_nul _ (hle.trans (Nat.le_succ _))
  · simp only [if_neg hneg]
    exact finish_nul _ hle

theorem convertHex_nul (m : CharArray) (buf : ℕ) (value : ℕ) :
    (convertHex m buf value).1.byte (buf + (convertHex m buf value).2) = 0 := by
  have hle := storeDigits_le 16 (fun lsd => digitsHex.getD lsd.toNat 0) (value + 1) m buf value
  unfold convertHex
  exact finish_nul _ hle

theorem load_nul {m : CharArray} {p : ℕ} {text : Bytes} (hload : m.load p text.length = text)
    (hnul : m.byte (p + text.length) = 0) : m.load p (text.length + 1) = text ++ [0] := by
  rw [CharArray.load_add, hload, CharArray.load_succ, hnul]
  rfl

theorem convert_terminated (m : CharArray) (buf : ℕ) (value : ℤ) :
    (convert m buf value).1.load buf ((numeral value).length + 1) = numeral value ++ [0] := by
  obtain ⟨hlen, hload, -⟩ := convert_spec m buf value
  have hnul := convert_nul m buf value
  rw [hlen] at hnul
  exact load_nul hload hnul

theorem convertHex_terminated (m : CharArray) (buf : ℕ) (value : ℕ) :
    (convertHex m buf value).1.load buf ((hexadecimal value).length + 1) = hexadecimal value ++ [0] := by
  obtain ⟨hlen, hload, -⟩ := convertHex_spec m buf value
  have hnul := convertHex_nul m buf value
  rw [hlen] at hnul
  exact load_nul hload hnul

/-! ## The types -/

/-- the value of a piece of one of the integer types -/
def Piece.integer : Piece → Option ℤ
  | .short v => some v.toInt
  | .unsignedShort v => some v.toNat
  | .int v => some v.toInt
  | .unsignedInt v => some v.toNat
  | .long v => some v.toInt
  | .unsignedLong v => some v.toNat
  | .longLong v => some v.toInt
  | .unsignedLongLong v => some v.toNat
  | _ => none

/-- which is what operator<< formats -/
theorem put_integer (snprintf12g : Float → Bytes) (s : LogStream) {p : Piece} {v : ℤ} (h : p.integer = some v) :
    s.put snprintf12g p = s.formatInteger v := by
  cases p with
  | short | unsignedShort | int | unsignedInt | long | unsignedLong | longLong | unsignedLongLong =>
    cases h
    rfl
  | _ => simp [Piece.integer] at h

theorem integer_natAbs_lt {p : Piece} {v : ℤ} (h : p.integer = some v) : v.natAbs < 10 ^ 20 := by
  cases p with
  | short v | int v | long v | longLong v =>
    cases h
    have := v.toInt_lt
    have := v.le_toInt
    omega
  | unsignedShort v | unsignedInt v | unsignedLong v | unsignedLongLong v =>
    cases h
    have := v.toNat_lt
    omega
  | _ => simp [Piece.integer] at h

/-- what is left at `buf`: the canonical numeral of the value with a NUL behind it, which is as long as the result says
and reads back as the value -/
def Written (base : ℕ) (v : ℤ) (buf : ℕ) (result : CharArray × ℕ) : Prop :=
  ∃ text, Canonical base v text ∧ result.2 = text.length ∧ result.1.load buf (text.length + 1) = text ++ [0] ∧
    readInteger base text = some v

/-- **Integers are formatted exactly.** Of every value of every integer type, which operator<< hands to formatInteger,
convert leaves the canonical decimal numeral, and convertHex the canonical hexadecimal one of every 64-bit value; both
read back as the value, and with the NUL, and `0x` in front, they fit into kMaxNumericSize bytes. -/
theorem integers_exact :
    (∀ (p : Piece) (v : ℤ), p.integer = some v →
      (∀ (snprintf12g : Float → Bytes) (s : LogStream), s.put snprintf12g p = s.formatInteger v) ∧
      ∀ (m : CharArray) (buf : ℕ),
        Written 10 v buf (convert m buf v) ∧ (convert m buf v).2 + 1 ≤ LogStream.kMaxNumericSize) ∧
    ∀ (v : UInt64) (m : CharArray) (buf : ℕ),
      Written 16 v.toNat buf (convertHex m buf v.toNat) ∧
        2 + (convertHex m buf v.toNat).2 + 1 ≤ LogStream.kMaxNumericSize := by
  refine ⟨?_, ?_⟩
  · intro p v hv
    refine ⟨fun snprintf12g s => put_integer snprintf12g s hv, ?_⟩
    intro m buf
    have hlen := length_numeral_le (by decide) (integer_natAbs_lt hv)
    have hcount := (convert_spec m buf v).1
    have hcanonical := canonical_numeral v
    refine ⟨⟨numeral v, hcanonical, hcount, convert_terminated m buf v, hcanonical.read⟩, ?_⟩
    unfold LogStream.kMaxNumericSize
    omega
  · intro v m buf
    have hlen : (hexadecimal v.toNat).length ≤ 16 := length_hexadecimal_le (by decide) v.toNat_lt
    have hcount := (convertHex_spec m buf v.toNat).1
    have hcanonical := canonical_hexadecimal v.toNat
    refine ⟨⟨hexadecimal v.toNat, hcanonical, hcount, convertHex_terminated m buf v.toNat, hcanonical.read⟩, ?_⟩
    unfold LogStream.kMaxNumericSize
    omega

/-- the least long, whose absolute value is no long -/
theorem integers_exact_min : Piece.integer (.long Int64.minValue) = some (-9223372036854775808) ∧
    Written 10 (-9223372036854775808) 3 (convert ⟨fun _ => 7, []⟩ 3 (-9223372036854775808)) := by
  have hmin : Piece.integer (.long Int64.minValue) = some (-9223372036854775808) := by decide
  exact ⟨hmin, ((integers_exact.1 _ _ hmin).2 ⟨fun _ => 7, []⟩ 3).1⟩

end Glacier
