/-
The signal-safe output of csapp (csapp.c): sio_ltoa makes the text of a long in an array and sio_putl writes it. The digits
are stored from the last one on, and sio_reverse swaps them in place.

A negative number is negated first. The smallest long has no negative: the negation is taken to wrap, as in two's complement,
so that it stays what it is.
- `reverseLoop_byte`: what the swaps leave at each place;
- `sio_ltoa_spec`, `sio_ltoa_min`: the text of a number, and of the smallest one;
- `sio_putl_iff`: sio_putl keeps to its array, and writes the numeral of every long but the smallest.
-/
import Glacier.Base.Convert

namespace Glacier.Csapp

open Cxx

/-- `for (i = 0, j = strlen(s) - 1; i < j; i++, j--)` -/
def reverseLoop : ℕ → CharArray → ℤ → ℤ → CharArray
  | 0, m, _, _ => m
  | fuel + 1, m, i, j =>
    if i < j then
      let c := m.byte i.toNat
      let m := m.store i.toNat (m.byte j.toNat)
      let m := m.store j.toNat c
      reverseLoop fuel m (i + 1) (j - 1)
    else m

/-- the length of the string in an array of `size` bytes; also sio_strlen -/
def sio_strlen (size : ℕ) (s : CharArray) : ℕ := strlen (s.load 0 size)

def sio_reverse (size : ℕ) (s : CharArray) : CharArray :=
  reverseLoop (sio_strlen size s) s 0 (sio_strlen size s - 1)

/-- `(c = (v % b)) < 10 ? c + '0' : c - 10 + 'a'` -/
def ltoaDigit (c : ℤ) : UInt8 := if c < 10 then UInt8.ofInt (c + 48) else UInt8.ofInt (c - 10 + 97)

/-- the `do … while ((v /= b) > 0)`: the array, and `i` after the loop -/
def ltoaLoop (b : ℤ) : ℕ → CharArray → ℕ → ℤ → CharArray × ℕ
  | 0, s, i, _ => (s, i)
  | fuel + 1, s, i, v =>
    let c := v.tmod b
    let s := s.store i (ltoaDigit c)
    let v := v.tdiv b
    if v > 0 then ltoaLoop b fuel s (i + 1) v else (s, i + 1)

/-- sio_ltoa into an array of `size` bytes -/
def sio_ltoa (size : ℕ) (v : Int64) (s : CharArray) (b : ℤ) : CharArray :=
  let neg := v < 0
  let v := if neg then -v else v
  let (s, i) := ltoaLoop b (v.toInt.natAbs + 1) s 0 v.toInt
  let (s, i) := if neg then (s.store i 45, i + 1) else (s, i)
  let s := s.store i 0
  sio_reverse size s

/-- `s` is the array as it happens to be: what becomes of it, and what is written to the standard output -/
def sio_putl (s : CharArray) (v : Int64) : CharArray × Bytes :=
  let s := sio_ltoa 128 v s 10
  (s, s.load 0 (sio_strlen 128 s))

/-! ## The swaps -/

/-- the bytes at both ends change places, and the loop goes on between them -/
theorem reverseLoop_succ (fuel : ℕ) (m : CharArray) (k n : ℕ) :
    reverseLoop (fuel + 1) m k (k + (n + 2 : ℕ) - 1) =
      reverseLoop fuel ((m.store k (m.byte (k + n + 1))).store (k + n + 1) (m.byte k)) (k + 1 : ℕ)
        ((k + 1 : ℕ) + n - 1) := by
  have hlast : (k : ℤ) + (n + 2 : ℕ) - 1 = (k + n + 1 : ℕ) := by push_cast; ring
  have hnext : ((k + n + 1 : ℕ) : ℤ) - 1 = (k + 1 : ℕ) + n - 1 := by push_cast; ring
  rw [reverseLoop, hlast, if_pos (by omega), Int.toNat_natCast, Int.toNat_natCast, hnext]
  rfl

theorem reverseLoop_short (fuel : ℕ) (m : CharArray) (k : ℕ) {n : ℕ} (h : n < 2) :
    reverseLoop fuel m k (k + n - 1) = m := by
  cases fuel with
  | zero => rfl
  | succ fuel => rw [reverseLoop, if_neg (by omega)]

theorem reverseLoop_byte {fuel n : ℕ} (m : CharArray) (k : ℕ) (hfuel : n ≤ fuel) (a : ℕ) :
    (reverseLoop fuel m k (k + n - 1)).byte a = if k ≤ a ∧ a < k + n then m.byte (k + (k + n - 1 - a)) else m.byte a := by
  induction fuel generalizing m k n with
  | zero =>
    rw [reverseLoop_short 0 m k (by omega), if_neg (by omega)]
  | succ fuel ih =>
    by_cases hshort : n < 2
    · rw [reverseLoop_short _ m k hshort]
      split_ifs with ha
      · congr 1; omega
      · rfl
    · obtain ⟨n, rfl⟩ : ∃ k, n = k + 2 := ⟨n - 2, by omega⟩
      rw [reverseLoop_succ, ih _ _ (by omega)]
      simp only [CharArray.store, Function.update_apply]
      split_ifs <;> first | omega | rfl | (congr 1; omega)

theorem reverseLoop_within {fuel n : ℕ} (m : CharArray) (k : ℕ) (hfuel : n ≤ fuel) :
    m.Within (reverseLoop fuel m k (k + n - 1)) k (k + n) := by
  induction fuel generalizing m k n with
  | zero => rw [reverseLoop_short 0 m k (by omega)]; exact .refl _ _ _
  | succ fuel ih =>
    by_cases hshort : n < 2
    · rw [reverseLoop_short _ m k hshort]; exact .refl _ _ _
    · obtain ⟨n, rfl⟩ : ∃ k, n = k + 2 := ⟨n - 2, by omega⟩
      rw [reverseLoop_succ]
      have hfirst := m.store_within k (m.byte (k + n + 1))
      have hlast := (m.store k (m.byte (k + n + 1))).store_within (k + n + 1) (m.byte k)
      have hswap := (hfirst.mono (by omega : k + 1 ≤ k + (n + 2))).trans hlast (by omega) (by omega)
      exact hswap.trans (ih _ _ (by omega)) (by omega) (by omega)

theorem load_reverseLoop {fuel n : ℕ} (m : CharArray) (k : ℕ) (hfuel : n ≤ fuel) :
    (reverseLoop fuel m k (k + n - 1)).load k n = (m.load k n).reverse := by
  apply List.ext_getElem
  · simp
  · intro i hi hi'
    rw [CharArray.load_length] at hi
    have hbyte := reverseLoop_byte m k hfuel (k + i)
    rw [if_pos (by omega)] at hbyte
    simp only [CharArray.load, bytesAt, List.getElem_map, List.getElem_range', List.getElem_reverse, List.length_map,
      List.length_range', one_mul, hbyte]
    congr 1
    omega

theorem sio_strlen_eq {size : ℕ} {m : CharArray} {text : Bytes} (hload : m.load 0 text.length = text)
    (hnul : m.byte text.length = 0) (hne : 0 ∉ text) (hsize : text.length < size) : sio_strlen size m = text.length := by
  obtain ⟨n, rfl⟩ : ∃ n, size = text.length + (n + 1) := ⟨size - text.length - 1, by omega⟩
  rw [sio_strlen, strlen, CharArray.load_add, hload, Nat.zero_add, CharArray.load_succ, hnul, takeWhile_ne_append hne]

/-- the string in front of its NUL, reversed -/
theorem sio_reverse_spec {size : ℕ} {m : CharArray} {text : Bytes} (hload : m.load 0 text.length = text)
    (hnul : m.byte text.length = 0) (hne : 0 ∉ text) (hsize : text.length < size) :
    (sio_reverse size m).load 0 text.length = text.reverse ∧ (sio_reverse size m).byte text.length = 0 ∧
      m.Within (sio_reverse size m) 0 text.length := by
  have hloop : sio_reverse size m = reverseLoop text.length m (0 : ℕ) ((0 : ℕ) + text.length - 1) := by
    rw [sio_reverse, sio_strlen_eq hload hnul hne hsize]
    simp
  have hwithin := reverseLoop_within m 0 (le_refl text.length)
  have hbyte := reverseLoop_byte m 0 (le_refl text.length) text.length
  rw [hloop]
  refine ⟨?_, ?_, ?_⟩
  · rw [load_reverseLoop m 0 le_rfl, hload]
  · rw [hbyte, if_neg (by omega), hnul]
  · rwa [Nat.zero_add] at hwithin

/-! ## The digits -/

theorem ltoaDigit_eq (d : ℤ) (h0 : 0 ≤ d) (h : d < 16) : ltoaDigit d = UInt8.ofNat (Nat.digitChar d.natAbs).toNat := by
  interval_cases d <;> decide

/-- of a number that is not negative, the loop is that of convert -/
theorem ltoaLoop_eq {b : ℤ} (hb : 0 < b) {fuel : ℕ} {s : CharArray} {i : ℕ} {v : ℤ} (hv : 0 ≤ v) :
    ltoaLoop b fuel s i v = storeDigits b ltoaDigit fuel s i v := by
  induction fuel generalizing s i v with
  | zero => rfl
  | succ fuel ih =>
    have hquot : 0 ≤ v.tdiv b := Int.tdiv_nonneg hv hb.le
    unfold ltoaLoop storeDigits
    dsimp only
    by_cases hlast : v.tdiv b = 0
    · rw [if_neg (by omega), if_neg (not_not.2 hlast)]
    · rw [if_pos (by omega), if_pos hlast]
      exact ih hquot

/-- what is left to do when the text stands backwards in the array -/
theorem terminate_spec {size : ℕ} {s s' : CharArray} {text : Bytes} (hload : s'.load 0 text.length = text.reverse)
    (hwithin : s.Within s' 0 text.length) (hne : 0 ∉ text) (hsize : text.length < size) :
    (sio_reverse size (s'.store text.length 0)).load 0 (sio_strlen size (sio_reverse size (s'.store text.length 0))) = text ∧
      s.Within (sio_reverse size (s'.store text.length 0)) 0 size := by
  have hstore := s'.store_within text.length 0
  have hback : (s'.store text.length 0).load 0 text.reverse.length = text.reverse := by
    rw [List.length_reverse, hstore.load_eq (by omega), hload]
  have hnul : (s'.store text.length 0).byte text.reverse.length = 0 := by
    rw [List.length_reverse]
    exact Function.update_self _ _ _
  obtain ⟨hfront, hend, hrange⟩ := sio_reverse_spec hback hnul (by simpa using hne) (by simpa using hsize)
  rw [List.length_reverse] at hfront hend hrange
  rw [List.reverse_reverse] at hfront
  refine ⟨?_, ?_⟩
  · rw [sio_strlen_eq hfront hend hne hsize, hfront]
  · have hstored : s.Within (s'.store text.length 0) 0 size :=
      (hwithin.mono (by omega)).trans (hstore.mono hsize) (by omega) le_rfl
    exact hstored.trans hrange le_rfl (by omega)

/-- the number whose digits are stored -/
def magnitude (v : Int64) : Int64 := if v < 0 then -v else v

/-- the text is what the loop leaves, with the sign -/
theorem sio_putl_eq {s s' : CharArray} {v : Int64} {ds : Bytes}
    (hloop : ltoaLoop 10 ((magnitude v).toInt.natAbs + 1) s 0 (magnitude v).toInt = (s', ds.length))
    (hload : s'.load 0 ds.length = ds.reverse) (hwithin : s.Within s' 0 ds.length) (hne : 0 ∉ ds) (hlen : ds.length < 127) :
    (sio_putl s v).2 = (if v < 0 then 45 :: ds else ds) ∧ s.Within (sio_putl s v).1 0 128 := by
  unfold magnitude at hloop
  unfold sio_putl sio_ltoa
  by_cases hneg : v < 0
  · simp only [hneg, if_true] at hloop ⊢
    rw [hloop]
    have hsign := s'.store_within ds.length 45
    have hback : (s'.store ds.length 45).load 0 (45 :: ds).length = (45 :: ds).reverse := by
      have hstored := s'.load_store 0 ds.length 45
      rw [Nat.zero_add] at hstored
      rw [List.length_cons, hstored, hload, List.reverse_cons]
    have hrange : s.Within (s'.store ds.length 45) 0 (45 :: ds).length :=
      (hwithin.mono (by simp)).trans hsign (by omega) le_rfl
    have hsize : (45 :: ds).length < 128 := Nat.succ_lt_succ hlen
    exact terminate_spec hback hrange (by simpa using hne) hsize
  · simp only [hneg, if_false] at hloop ⊢
    rw [hloop]
    have hsize : ds.length < 128 := hlen.trans (by decide)
    exact terminate_spec hload hwithin hne hsize

/-! ## All numbers but one -/

theorem magnitude_eq {v : Int64} (h : v ≠ Int64.minValue) : (magnitude v).toInt = v.toInt.natAbs := by
  have hlow := Int64.le_toInt v
  have hhigh := Int64.toInt_lt v
  have hmin : v.toInt ≠ -2 ^ 63 := fun heq => h (Int64.toInt_inj.1 (heq.trans Int64.toInt_minValue.symm))
  unfold magnitude
  split_ifs with hneg
  · have hneg : v.toInt < 0 := Int64.lt_iff_toInt_lt.1 hneg
    rw [Int64.toInt_neg, Int.bmod_eq_of_le (by omega) (by omega)]
    omega
  · have hpos : ¬ v.toInt < 0 := fun hlt => hneg (Int64.lt_iff_toInt_lt.2 hlt)
    omega

theorem sio_putl_numeral {v : Int64} (h : v ≠ Int64.minValue) (s : CharArray) :
    (sio_putl s v).2 = numeral v.toInt ∧ s.Within (sio_putl s v).1 0 128 := by
  have hmag := magnitude_eq h
  obtain ⟨s', hs', hload, hwithin⟩ := storeDigits_spec (g := ltoaDigit) (f := fun c => UInt8.ofNat c.toNat) (m := s) (p := 0)
    (show 1 < 10 by decide) (Nat.lt_succ_self (magnitude v).toInt.natAbs)
    fun d hd hnonneg => ltoaDigit_eq d (hnonneg (by omega)) (by omega)
  have hdecimal : (Nat.toDigits 10 (magnitude v).toInt.natAbs).map (fun c => UInt8.ofNat c.toNat) =
      decimal v.toInt.natAbs := by
    rw [hmag, Int.natAbs_natCast, decimal]
  rw [hdecimal] at hs' hload hwithin
  rw [Nat.zero_add] at hs' hwithin
  have hloop : ltoaLoop 10 ((magnitude v).toInt.natAbs + 1) s 0 (magnitude v).toInt =
      (s', (decimal v.toInt.natAbs).length) := by
    rw [ltoaLoop_eq (by decide) (by omega)]
    exact hs'
  have hlow := Int64.le_toInt v
  have hhigh := Int64.toInt_lt v
  have hlen : (decimal v.toInt.natAbs).length ≤ 19 := length_decimal_le (by decide) (by omega)
  obtain ⟨htext, hrange⟩ := sio_putl_eq hloop hload hwithin (not_mem_decimal (by decide) _) (by omega)
  refine ⟨?_, hrange⟩
  rw [htext, numeral]
  exact if_congr (Int64.lt_iff_toInt_lt) rfl rfl

/-- the smallest long is still negative after the negation: its last digit is taken below zero, and there is no second one -/
theorem sio_putl_min (s : CharArray) :
    (sio_putl s Int64.minValue).2 = ascii "-(" ∧ s.Within (sio_putl s Int64.minValue).1 0 128 := by
  have hmag : magnitude Int64.minValue = Int64.minValue := by decide
  have hloop : ltoaLoop 10 ((magnitude Int64.minValue).toInt.natAbs + 1) s 0 (magnitude Int64.minValue).toInt =
      (s.store 0 40, ([40] : Bytes).length) := by
    rw [hmag, ltoaLoop]
    exact if_neg (by decide)
  have hload : (s.store 0 40).load 0 1 = [40] := s.load_store 0 0 40
  obtain ⟨htext, hrange⟩ := sio_putl_eq hloop hload (s.store_within 0 40) (by decide) (by decide)
  exact ⟨htext.trans (if_pos (by decide)), hrange⟩

/-- **What sio_putl writes.** Whatever is in its array at first, it stores to no byte outside, and what it writes is the
numeral of the number if and only if that is not the smallest long, for which it writes two characters. -/
theorem sio_putl_iff (s : CharArray) (v : Int64) :
    s.Within (sio_putl s v).1 0 128 ∧ ((sio_putl s v).2 = numeral v.toInt ↔ v ≠ Int64.minValue) ∧
      (sio_putl s Int64.minValue).2 = ascii "-(" := by
  obtain ⟨hmin, hrangeMin⟩ := sio_putl_min s
  by_cases h : v = Int64.minValue
  · subst h
    refine ⟨hrangeMin, iff_of_false ?_ (by simp), hmin⟩
    rw [hmin]
    decide
  · obtain ⟨htext, hrange⟩ := sio_putl_numeral h s
    exact ⟨hrange, iff_of_true htext h, hmin⟩

end Glacier.Csapp
