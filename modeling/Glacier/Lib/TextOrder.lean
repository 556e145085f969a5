/-
The order of texts, byte by byte as strcmp and a directory listing compare them, against the order of the numbers printed
in them.
- `value_lt_iff`: digit strings of one length are in the order of their values.
- `layoutText_lt_iff`: texts with numbers in fields of fixed widths are in the order of the numbers, field by field.
-/
import Glacier.Lib.Numeral
import Mathlib.Data.List.Lex

namespace Cxx

/-! ## Texts -/

/-- bytes are in the order of their values, as strcmp takes them -/
instance linearOrderUInt8 : LinearOrder UInt8 where
  le_refl := UInt8.le_refl
  le_trans _ _ _ := UInt8.le_trans
  le_antisymm _ _ := UInt8.le_antisymm
  le_total := UInt8.le_total
  lt_iff_le_not_ge a b := by rw [UInt8.lt_iff_toNat_lt, UInt8.le_iff_toNat_le, UInt8.le_iff_toNat_le]; omega
  toDecidableLE := inferInstance

/-- texts of one length are in the order of what they begin with -/
theorem append_lt_append {α : Type*} [LinearOrder α] {x y : List α} (hlen : x.length = y.length) (h : x < y)
    (s t : List α) : x ++ s < y ++ t := by
  induction x generalizing y with
  | nil =>
    rw [List.eq_nil_of_length_eq_zero hlen.symm] at h
    exact absurd h (lt_irrefl _)
  | cons a x ih =>
    obtain ⟨b, y, rfl⟩ := List.exists_cons_of_length_eq_add_one hlen.symm
    rw [List.cons_append, List.cons_append, List.cons_lt_cons_iff]
    rcases List.cons_lt_cons_iff.1 h with hab | ⟨rfl, hxy⟩
    · exact Or.inl hab
    · exact Or.inr ⟨rfl, ih (Nat.succ.inj hlen) hxy⟩

/-! ## Digit strings -/

def IsDigit (d : UInt8) : Prop := 48 ≤ d.toNat ∧ d.toNat < 58

/-- the first digit counts for as many places as follow it -/
theorem value_cons (d : UInt8) (digits : Bytes) :
    value (d :: digits) = (d.toNat - 48) * 10 ^ digits.length + value digits := by
  have hfrom (n : ℕ) (ds : Bytes) :
      ds.foldl (fun n d => 10 * n + (d.toNat - 48)) n = n * 10 ^ ds.length + value ds := by
    induction ds generalizing n with
    | nil => simp [value]
    | cons e ds ih =>
      have hfirst := ih (10 * 0 + (e.toNat - 48))
      rw [value, List.foldl_cons, List.foldl_cons, ih, hfirst, List.length_cons, pow_succ]
      ring
  rw [value, List.foldl_cons, hfrom]
  simp

theorem value_lt {digits : Bytes} (h : ∀ d ∈ digits, IsDigit d) : value digits < 10 ^ digits.length := by
  induction digits with
  | nil => simp [value]
  | cons d digits ih =>
    have hd := (h d List.mem_cons_self).2
    have hrest := ih fun e he => h e (List.mem_cons_of_mem d he)
    calc value (d :: digits)
        = (d.toNat - 48) * 10 ^ digits.length + value digits := value_cons d digits
      _ < (d.toNat - 48) * 10 ^ digits.length + 10 ^ digits.length := by omega
      _ = (d.toNat - 48 + 1) * 10 ^ digits.length := by ring
      _ ≤ 10 * 10 ^ digits.length := Nat.mul_le_mul_right _ (by omega)
      _ = 10 ^ (d :: digits).length := by rw [List.length_cons, pow_succ]; ring

theorem value_lt_of_lt {x y : Bytes} (hx : ∀ d ∈ x, IsDigit d) (hy : ∀ d ∈ y, IsDigit d) (hlen : x.length = y.length)
    (h : x < y) : value x < value y := by
  induction x generalizing y with
  | nil =>
    rw [List.eq_nil_of_length_eq_zero hlen.symm] at h
    exact absurd h (lt_irrefl _)
  | cons a x ih =>
    obtain ⟨b, y, rfl⟩ := List.exists_cons_of_length_eq_add_one hlen.symm
    replace hlen : x.length = y.length := Nat.succ.inj hlen
    have hxtail : ∀ d ∈ x, IsDigit d := fun d hd => hx d (List.mem_cons_of_mem a hd)
    rw [value_cons, value_cons, hlen]
    rcases List.cons_lt_cons_iff.1 h with hab | ⟨rfl, hxy⟩
    · -- what follows a smaller digit does not make up for it
      have ha := (hx a List.mem_cons_self).1
      have hab : a.toNat < b.toNat := UInt8.lt_iff_toNat_lt.1 hab
      calc (a.toNat - 48) * 10 ^ y.length + value x
          < (a.toNat - 48) * 10 ^ y.length + 10 ^ y.length := by rw [← hlen]; exact Nat.add_lt_add_left (value_lt hxtail) _
        _ = (a.toNat - 48 + 1) * 10 ^ y.length := by ring
        _ ≤ (b.toNat - 48) * 10 ^ y.length := Nat.mul_le_mul_right _ (by omega)
        _ ≤ (b.toNat - 48) * 10 ^ y.length + value y := Nat.le_add_right _ _
    · have := ih hxtail (fun d hd => hy d (List.mem_cons_of_mem _ hd)) hlen hxy
      omega

/-- **Digit strings of one length are in the order of their values.** -/
theorem value_lt_iff {x y : Bytes} (hx : ∀ d ∈ x, IsDigit d) (hy : ∀ d ∈ y, IsDigit d) (hlen : x.length = y.length) :
    x < y ↔ value x < value y := by
  refine ⟨value_lt_of_lt hx hy hlen, fun h => ?_⟩
  rcases lt_trichotomy x y with hlt | rfl | hgt
  · exact hlt
  · exact absurd h (lt_irrefl _)
  · exact absurd (value_lt_of_lt hy hx hlen.symm hgt) (not_lt.2 h.le)

theorem isDigit_zeroPad {w : ℕ} {n : ℤ} (h0 : 0 ≤ n) : ∀ d ∈ zeroPad w n, IsDigit d := by
  intro d hd
  rw [zeroPad, if_neg (not_lt.2 h0), pad, List.mem_append] at hd
  rcases hd with hfill | hdigit
  · rw [List.eq_of_mem_replicate hfill]
    exact ⟨le_rfl, by decide⟩
  · exact mem_decimal hdigit

/-- a number that a field of `w` characters holds -/
def FitsWidth (w : ℕ) (n : ℤ) : Prop := 0 < w ∧ 0 ≤ n ∧ n < 10 ^ w

theorem FitsWidth.length {w : ℕ} {n : ℤ} (h : FitsWidth w n) : (zeroPad w n).length = w := length_zeroPad h.1 h.2.1 h.2.2

theorem zeroPad_lt_iff {w : ℕ} {a b : ℤ} (ha : FitsWidth w a) (hb : FitsWidth w b) :
    zeroPad w a < zeroPad w b ↔ a < b := by
  rw [value_lt_iff (isDigit_zeroPad ha.2.1) (isDigit_zeroPad hb.2.1) (by rw [ha.length, hb.length])]
  have hva := value_zeroPad w ha.2.1
  have hvb := value_zeroPad w hb.2.1
  omega

/-- a number that fills its field needs no filling -/
theorem pad_of_filled {fill : UInt8} {w n : ℕ} (hw : 10 ^ w ≤ n) : pad fill (w + 1) (decimal n) = decimal n := by
  have hlen : w + 1 ≤ (decimal n).length := by
    by_contra hlt
    rw [decimal, List.length_map] at hlt
    have hpos : 0 < w := by
      by_contra h0
      have := Nat.length_toDigits_pos (b := 10) (n := n)
      omega
    exact absurd ((Nat.length_toDigits_le_iff (by decide) hpos).1 (by omega)) (not_lt.2 hw)
  rw [pad, Nat.sub_eq_zero_of_le hlen, List.replicate_zero, List.nil_append]

/-! ## Numbers in fields -/

/-- the numbers in fields of fixed widths, each after its separator -/
def layoutText : List (Bytes × ℕ) → List ℤ → Bytes
  | (separator, w) :: layout, n :: numbers => separator ++ zeroPad w n ++ layoutText layout numbers
  | _, _ => []

/-- each number fits in its field -/
def Fits (widths : List ℕ) (numbers : List ℤ) : Prop := List.Forall₂ FitsWidth widths numbers

section Layout

variable {layout : List (Bytes × ℕ)} {a b : List ℤ}

theorem layoutText_length (h : Fits (layout.map Prod.snd) a) :
    (layoutText layout a).length = (layout.map fun f => f.1.length + f.2).sum := by
  induction layout generalizing a with
  | nil => rfl
  | cons f layout ih =>
    obtain ⟨n, a, hn, hrest, rfl⟩ := List.forall₂_cons_left_iff.1 h
    rw [layoutText, List.length_append, List.length_append, hn.length, ih hrest, List.map_cons, List.sum_cons]

theorem layoutText_lt (ha : Fits (layout.map Prod.snd) a) (hb : Fits (layout.map Prod.snd) b) (h : a < b) :
    layoutText layout a < layoutText layout b := by
  induction layout generalizing a b with
  | nil =>
    rw [List.forall₂_nil_left_iff.1 ha, List.forall₂_nil_left_iff.1 hb] at h
    exact absurd h (lt_irrefl _)
  | cons f layout ih =>
    obtain ⟨n, a, hn, hrest, rfl⟩ := List.forall₂_cons_left_iff.1 ha
    obtain ⟨m, b, hm, hrest', rfl⟩ := List.forall₂_cons_left_iff.1 hb
    rw [layoutText, layoutText, List.append_assoc, List.append_assoc]
    apply List.append_left_lt
    -- the first field decides, or it is the same in both
    rcases List.cons_lt_cons_iff.1 h with hnm | ⟨rfl, hab⟩
    · exact append_lt_append (hn.length.trans hm.length.symm) ((zeroPad_lt_iff hn hm).2 hnm) _ _
    · exact List.append_left_lt (ih hrest hrest' hab)

/-- **Texts with numbers in fields of fixed widths are in the order of the numbers.** -/
theorem layoutText_lt_iff (ha : Fits (layout.map Prod.snd) a) (hb : Fits (layout.map Prod.snd) b) :
    layoutText layout a < layoutText layout b ↔ a < b := by
  refine ⟨fun h => ?_, layoutText_lt ha hb⟩
  rcases lt_trichotomy a b with hlt | rfl | hgt
  · exact hlt
  · exact absurd h (lt_irrefl _)
  · exact absurd (layoutText_lt hb ha hgt) (not_lt.2 h.le)

/-- the numbers read back from their text -/
theorem layoutText_inj (ha : Fits (layout.map Prod.snd) a) (hb : Fits (layout.map Prod.snd) b)
    (h : layoutText layout a = layoutText layout b) : a = b := by
  rcases lt_trichotomy a b with hlt | heq | hgt
  · exact absurd h (layoutText_lt ha hb hlt).ne
  · exact heq
  · exact absurd h (layoutText_lt hb ha hgt).ne'

end Layout

end Cxx
