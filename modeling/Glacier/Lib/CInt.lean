/-
Arithmetic of a 32-bit signed int, checked: an operation whose exact result is out of range has no value, as signed
overflow is undefined. Division truncates toward zero and takes the sign of the remainder from the dividend.
-/
import Mathlib.Tactic

namespace CInt

/-- a result, if it is in range -/
def ofInt (x : ℤ) : Option ℤ := if -2147483648 ≤ x ∧ x ≤ 2147483647 then some x else none

def add (x y : ℤ) : Option ℤ := ofInt (x + y)

def sub (x y : ℤ) : Option ℤ := ofInt (x - y)

def mul (x y : ℤ) : Option ℤ := ofInt (x * y)

def div (x y : ℤ) : Option ℤ := if y = 0 then none else ofInt (x.tdiv y)

def mod (x y : ℤ) : Option ℤ := if y = 0 then none else (ofInt (x.tdiv y)).map fun _ => x.tmod y

/-- conversion to unsigned, modulo 2^32 -/
def toUnsigned (x : ℤ) : ℕ := (x % 4294967296).toNat

variable {x y : ℤ}

theorem ofInt_eq (h1 : -2147483648 ≤ x) (h2 : x ≤ 2147483647) : ofInt x = some x := if_pos ⟨h1, h2⟩

/-! An operation whose result is in range, at the head of a computation. -/

variable {α : Type} {f : ℤ → Option α}

theorem bind_add (h1 : -2147483648 ≤ x + y) (h2 : x + y ≤ 2147483647) : (add x y >>= f) = f (x + y) := by
  rw [add, ofInt_eq h1 h2]; rfl

theorem bind_sub (h1 : -2147483648 ≤ x - y) (h2 : x - y ≤ 2147483647) : (sub x y >>= f) = f (x - y) := by
  rw [sub, ofInt_eq h1 h2]; rfl

theorem bind_mul (h1 : -2147483648 ≤ x * y) (h2 : x * y ≤ 2147483647) : (mul x y >>= f) = f (x * y) := by
  rw [mul, ofInt_eq h1 h2]; rfl

/-- of a non-negative int, truncating division is the floor -/
theorem bind_div (h0 : 0 ≤ x) (h : x ≤ 2147483647) (hy : 0 < y) : (div x y >>= f) = f (x / y) := by
  have h1 : 0 ≤ x / y := Int.ediv_nonneg h0 hy.le
  have h2 : x / y ≤ x := Int.ediv_le_self y h0
  rw [div, if_neg hy.ne', Int.tdiv_eq_ediv_of_nonneg h0, ofInt_eq (by omega) (by omega)]
  rfl

/-! What a computation that has a value says of the operation at its head. -/

variable {r : α}

theorem ofInt_some {z : ℤ} (h : ofInt x = some z) : (-2147483648 ≤ x ∧ x ≤ 2147483647) ∧ x = z := by
  unfold ofInt at h
  split_ifs at h with hx
  exact ⟨hx, Option.some.inj h⟩

theorem of_bind_ofInt (h : (ofInt x >>= f) = some r) : (-2147483648 ≤ x ∧ x ≤ 2147483647) ∧ f x = some r := by
  obtain ⟨z, hz, hr⟩ := Option.bind_eq_some_iff.1 h
  obtain ⟨hx, rfl⟩ := ofInt_some hz
  exact ⟨hx, hr⟩

theorem of_bind_add (h : (add x y >>= f) = some r) : (-2147483648 ≤ x + y ∧ x + y ≤ 2147483647) ∧ f (x + y) = some r :=
  of_bind_ofInt h

theorem of_bind_sub (h : (sub x y >>= f) = some r) : (-2147483648 ≤ x - y ∧ x - y ≤ 2147483647) ∧ f (x - y) = some r :=
  of_bind_ofInt h

theorem of_bind_mul (h : (mul x y >>= f) = some r) : (-2147483648 ≤ x * y ∧ x * y ≤ 2147483647) ∧ f (x * y) = some r :=
  of_bind_ofInt h

theorem of_bind_div (h0 : 0 ≤ x) (hy : 0 < y) (h : (div x y >>= f) = some r) : f (x / y) = some r := by
  rw [div, if_neg hy.ne', Int.tdiv_eq_ediv_of_nonneg h0] at h
  exact (of_bind_ofInt h).2

theorem mod_eq (h0 : 0 ≤ x) (h : x ≤ 2147483647) (hy : 0 < y) : mod x y = some (x % y) := by
  have h1 : 0 ≤ x / y := Int.ediv_nonneg h0 hy.le
  have h2 : x / y ≤ x := Int.ediv_le_self y h0
  rw [mod, if_neg hy.ne', Int.tdiv_eq_ediv_of_nonneg h0, ofInt_eq (by omega) (by omega), Option.map_some,
    Int.tmod_eq_emod_of_nonneg h0]

end CInt
