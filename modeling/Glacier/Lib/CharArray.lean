/-
A char array under a C++ program: its bytes by offset, and the offsets that have been stored to. No store is refused; a
program keeps to an array of `n` bytes where all of `stores` are below `n`.
- `Within`: what a piece of code may have done that stores in a range only. `load_eq` is its frame rule.
- `load_memcpy`, `load_reverse`: what the library functions leave in their range.
-/
import Glacier.Lib.ByteString

namespace Cxx

/-- the `n` bytes at `p + a` -/
def bytesAt (p : ℕ → UInt8) (a n : ℕ) : Bytes := (List.range' a n).map p

/-- a pointer to the bytes of a string, with a NUL behind them -/
def cPtr (s : Bytes) : ℕ → UInt8 := fun i => s.getD i 0

/-- strlen of a string whose first NUL is in `s`, or behind it -/
def strlen (s : Bytes) : ℕ := (s.takeWhile (· ≠ 0)).length

@[simp] theorem bytesAt_length (p : ℕ → UInt8) (a n : ℕ) : (bytesAt p a n).length = n := by
  simp [bytesAt]

theorem bytesAt_add (p : ℕ → UInt8) (a m n : ℕ) : bytesAt p a (m + n) = bytesAt p a m ++ bytesAt p (a + m) n := by
  rw [bytesAt, bytesAt, bytesAt, ← List.map_append, List.range'_append_1]

/-- the first `n` bytes of a string -/
theorem bytesAt_cPtr {s : Bytes} {n : ℕ} (h : n ≤ s.length) : bytesAt (cPtr s) 0 n = s.take n := by
  apply List.ext_getElem
  · simp [h]
  · intro i hi hi'
    have hlt : i < s.length := by
      rw [bytesAt_length] at hi
      omega
    simp [bytesAt, cPtr, hlt]

structure CharArray where
  byte : ℕ → UInt8
  stores : List ℕ

namespace CharArray

def store (m : CharArray) (p : ℕ) (b : UInt8) : CharArray where
  byte := Function.update m.byte p b
  stores := m.stores ++ [p]

def memcpy (m : CharArray) (p : ℕ) : Bytes → CharArray
  | [] => m
  | b :: bs => (m.store p b).memcpy (p + 1) bs

/-- the `n` bytes from `p` on -/
def load (m : CharArray) (p n : ℕ) : Bytes := bytesAt m.byte p n

/-- std::reverse on the range from `p` to `q` -/
def reverse (m : CharArray) (p q : ℕ) : CharArray := m.memcpy p (m.load p (q - p)).reverse

/-- snprintf into `size` bytes at `p`, where the whole text would be `text`; the result is its length -/
def snprintf (m : CharArray) (p size : ℕ) (text : Bytes) : CharArray × ℕ :=
  (m.memcpy p (text.take (size - 1) ++ [0]), text.length)

/-! ## Code that stores in a range -/

/-- from `m` to `m'` only bytes from `p` to `q` have been stored to -/
structure Within (m m' : CharArray) (p q : ℕ) : Prop where
  below : ∀ a < p, m'.byte a = m.byte a
  stores : ∀ a ∈ m'.stores, a ∈ m.stores ∨ p ≤ a ∧ a < q

variable {m m' m'' : CharArray} {p q : ℕ}

theorem Within.refl (m : CharArray) (p q : ℕ) : Within m m p q := ⟨fun _ _ => rfl, fun _ ha => Or.inl ha⟩

/-- one piece of code after the other, the second in a part of the range -/
theorem Within.trans {p' q' : ℕ} (h : Within m m' p q) (h' : Within m' m'' p' q') (hp : p ≤ p') (hq : q' ≤ q) :
    Within m m'' p q where
  below := fun a ha => (h'.below a (by omega)).trans (h.below a ha)
  stores := by
    intro a ha
    rcases h'.stores a ha with ha | ha
    · exact h.stores a ha
    · exact Or.inr (by omega)

theorem Within.mono {q' : ℕ} (h : Within m m' p q) (hq : q ≤ q') : Within m m' p q' :=
  ⟨h.below, fun a ha => (h.stores a ha).imp_right fun hr => by omega⟩

/-- bytes in front of the range stay as they were -/
theorem Within.load_eq {a n : ℕ} (h : Within m m' p q) (ha : a + n ≤ p) : m'.load a n = m.load a n := by
  apply List.map_congr_left
  intro i hi
  exact h.below i (by rw [List.mem_range'_1] at hi; omega)

theorem store_within (m : CharArray) (p : ℕ) (b : UInt8) : Within m (m.store p b) p (p + 1) where
  below := fun a ha => Function.update_of_ne ha.ne _ _
  stores := by
    intro a ha
    rcases List.mem_append.1 ha with ha | ha
    · exact Or.inl ha
    · rw [List.mem_singleton] at ha
      exact Or.inr (by omega)

theorem memcpy_within (m : CharArray) (p : ℕ) (bs : Bytes) : Within m (m.memcpy p bs) p (p + bs.length) := by
  induction bs generalizing m p with
  | nil => exact .refl m p _
  | cons b bs ih =>
    rw [List.length_cons]
    exact ((store_within m p b).mono (by omega)).trans (ih (m.store p b) (p + 1)) (by omega) (by omega)

theorem load_succ (m : CharArray) (p n : ℕ) : m.load p (n + 1) = m.byte p :: m.load (p + 1) n := by
  rw [load, bytesAt, List.range'_succ, List.map_cons]
  rfl

theorem load_add (m : CharArray) (p a b : ℕ) : m.load p (a + b) = m.load p a ++ m.load (p + a) b := bytesAt_add m.byte p a b

@[simp] theorem load_length (m : CharArray) (p n : ℕ) : (m.load p n).length = n := bytesAt_length m.byte p n

/-- what was copied can be read -/
theorem load_memcpy (m : CharArray) (p : ℕ) (bs : Bytes) : (m.memcpy p bs).load p bs.length = bs := by
  induction bs generalizing m p with
  | nil => rfl
  | cons b bs ih =>
    have hfirst : ((m.store p b).memcpy (p + 1) bs).byte p = b := by
      rw [(memcpy_within (m.store p b) (p + 1) bs).below p (by omega)]
      exact Function.update_self _ _ _
    rw [List.length_cons, load_succ]
    exact congrArg₂ List.cons hfirst (ih _ _)

/-- a byte that is stored behind a loaded range -/
theorem load_store (m : CharArray) (p n : ℕ) (b : UInt8) : (m.store (p + n) b).load p (n + 1) = m.load p n ++ [b] := by
  rw [load_add, (store_within m (p + n) b).load_eq le_rfl, load_succ]
  exact congrArg (fun x => m.load p n ++ [x]) (Function.update_self _ _ _)

theorem reverse_within (m : CharArray) (p n : ℕ) : Within m (m.reverse p (p + n)) p (p + n) := by
  have h := memcpy_within m p (m.load p (p + n - p)).reverse
  rw [List.length_reverse, load_length, Nat.add_sub_cancel_left] at h
  rw [reverse, Nat.add_sub_cancel_left]; exact h

theorem load_reverse (m : CharArray) (p n : ℕ) : (m.reverse p (p + n)).load p n = (m.load p n).reverse := by
  have h := load_memcpy m p (m.load p n).reverse
  rw [List.length_reverse, load_length] at h
  rw [reverse, Nat.add_sub_cancel_left]; exact h

end CharArray

end Cxx
