/-
Sequential readers of a byte input that fill a record of data and may throw; what was consumed and filled before a throw
stays.
- `bind_ok`: a sequence succeeds exactly when its parts do.
- `Reads m P enc`: `m` succeeds exactly on an input that starts with the encoding of a value that satisfies `P`, returns
  that value, consumes its encoding and leaves the data alone. One statement gives both directions, decoding and
  encoding. `many_reads` lifts it to a counted loop.
- `Keeps g m`: whatever happens, `m` leaves `g` of the data as it was.
-/
import Mathlib.Tactic

namespace ByteReader

structure State (δ : Type) where
  /-- the bytes not read yet -/
  input : List UInt8
  data : δ

abbrev Reader (ε δ α : Type) := ExceptT ε (StateM (State δ)) α

variable {ε δ α β γ : Type}

/-- `for (int i = 0; i < n; ++i) v.push_back(m())` -/
def many (m : Reader ε δ α) : ℕ → Reader ε δ (List α)
  | 0 => pure []
  | n + 1 => do
    let x ← m
    let xs ← many m n
    pure (x :: xs)

/-- replace the data -/
def edit (f : δ → δ) : Reader ε δ Unit := fun s => (.ok (), { s with data := f s.data })

/-! ## Success -/

theorem pure_apply (a : α) (s : State δ) : (pure a : Reader ε δ α) s = (.ok a, s) := rfl

theorem pure_ok {a b : α} {s t : State δ} : (pure a : Reader ε δ α) s = (.ok b, t) ↔ b = a ∧ t = s := by
  rw [pure_apply, Prod.mk.injEq, Except.ok.injEq, eq_comm (a := a), eq_comm (a := s)]

theorem bind_apply (m : Reader ε δ α) (f : α → Reader ε δ β) (s : State δ) :
    (m >>= f) s = match m s with
      | (.ok a, t) => f a t
      | (.error e, t) => (.error e, t) := by
  show ((ExceptT.bind m f : Reader ε δ β) s) = _
  simp only [ExceptT.bind, ExceptT.mk, bind, StateT.bind, ExceptT.bindCont]
  rcases m s with ⟨_ | a, t⟩ <;> rfl

/-- a sequence succeeds exactly when its parts do -/
theorem bind_ok {m : Reader ε δ α} {f : α → Reader ε δ β} {b : β} {s u : State δ} :
    (m >>= f) s = (.ok b, u) ↔ ∃ a t, m s = (.ok a, t) ∧ f a t = (.ok b, u) := by
  rw [bind_apply]
  rcases m s with ⟨e | a, t⟩
  · constructor
    · intro h; cases h
    · intro ⟨a, t', h, _⟩; cases h
  · constructor
    · exact fun h => ⟨a, t, rfl, h⟩
    · intro ⟨a', t', h, hf⟩; cases h; exact hf

/-- a sequence throws when one of its parts does -/
theorem bind_error {m : Reader ε δ α} {f : α → Reader ε δ β} {e : ε} {s u : State δ} :
    (m >>= f) s = (.error e, u) ↔
      m s = (.error e, u) ∨ ∃ a t, m s = (.ok a, t) ∧ f a t = (.error e, u) := by
  rw [bind_apply]
  rcases m s with ⟨e' | a, t⟩
  · constructor
    · intro h; cases h; exact Or.inl rfl
    · rintro (h | ⟨a, t', h, -⟩)
      · cases h; rfl
      · cases h
  · constructor
    · exact fun h => Or.inr ⟨a, t, rfl, h⟩
    · rintro (h | ⟨a', t', h, hf⟩)
      · cases h
      · cases h; exact hf

/-- `m` reads exactly the encodings of the values that satisfy `P` -/
def Reads (m : Reader ε δ α) (P : α → Prop) (enc : α → List UInt8) : Prop :=
  ∀ s x t, m s = (.ok x, t) ↔ P x ∧ s.input = enc x ++ t.input ∧ t.data = s.data

theorem many_reads {m : Reader ε δ α} {P : α → Prop} {enc : α → List UInt8} (h : Reads m P enc) (n : ℕ) :
    Reads (many m n) (fun xs => xs.length = n ∧ ∀ x ∈ xs, P x) (List.flatMap enc) := by
  induction n with
  | zero =>
    intro s xs t
    rw [many, pure_ok]
    constructor
    · rintro ⟨rfl, rfl⟩; simp
    · intro ⟨⟨hlen, _⟩, hin, hdata⟩
      obtain rfl := List.length_eq_zero_iff.1 hlen
      cases s; cases t
      simp_all
  | succ n ih =>
    intro s xs t
    simp only [many, bind_ok, pure_ok]
    constructor
    · rintro ⟨x, u, hx, ys, v, hys, rfl, rfl⟩
      obtain ⟨hP, hin, hdata⟩ := (h s x u).1 hx
      obtain ⟨⟨hlen, hall⟩, hin', hdata'⟩ := (ih u ys t).1 hys
      refine ⟨⟨by simp [hlen], List.forall_mem_cons.2 ⟨hP, hall⟩⟩, ?_, hdata'.trans hdata⟩
      rw [hin, hin', List.flatMap_cons, List.append_assoc]
    · intro ⟨⟨hlen, hall⟩, hin, hdata⟩
      cases xs with
      | nil => cases hlen
      | cons x ys =>
        obtain ⟨hP, hall⟩ := List.forall_mem_cons.1 hall
        rw [List.flatMap_cons, List.append_assoc] at hin
        refine ⟨x, ⟨ys.flatMap enc ++ t.input, s.data⟩, (h _ _ _).2 ⟨hP, hin, rfl⟩, ys, t, ?_, rfl, rfl⟩
        exact (ih _ _ _).2 ⟨⟨by simpa using hlen, hall⟩, rfl, hdata⟩

/-- the readings of two consecutive encodings -/
theorem Reads.bind_ok {m : Reader ε δ α} {P : α → Prop} {enc : α → List UInt8} (h : Reads m P enc)
    {f : α → Reader ε δ β} {b : β} {s u : State δ} :
    (m >>= f) s = (.ok b, u) ↔
      ∃ x rest, P x ∧ s.input = enc x ++ rest ∧ f x ⟨rest, s.data⟩ = (.ok b, u) := by
  rw [ByteReader.bind_ok]
  constructor
  · intro ⟨x, t, hx, hf⟩
    obtain ⟨hP, hin, hdata⟩ := (h s x t).1 hx
    refine ⟨x, t.input, hP, hin, ?_⟩
    rw [← hdata]; exact hf
  · intro ⟨x, rest, hP, hin, hf⟩
    exact ⟨x, ⟨rest, s.data⟩, (h _ _ _).2 ⟨hP, hin, rfl⟩, hf⟩

/-! ## Frames -/

/-- whatever happens, `m` leaves `g` of the data as it was -/
def Keeps (g : δ → γ) (m : Reader ε δ α) : Prop := ∀ s, g (m s).2.data = g s.data

theorem Keeps.pure (g : δ → γ) (a : α) : Keeps g (pure a : Reader ε δ α) := fun _ => rfl

theorem Keeps.bind {g : δ → γ} {m : Reader ε δ α} {f : α → Reader ε δ β} (hm : Keeps g m) (hf : ∀ a, Keeps g (f a)) :
    Keeps g (m >>= f) := by
  intro s
  rw [bind_apply, ← hm s]
  rcases m s with ⟨e | a, t⟩
  · rfl
  · exact hf a t

theorem Keeps.many {g : δ → γ} {m : Reader ε δ α} (hm : Keeps g m) (n : ℕ) : Keeps g (many m n) := by
  induction n with
  | zero => exact Keeps.pure g []
  | succ n ih => exact hm.bind fun _ => ih.bind fun _ => Keeps.pure g _

theorem Keeps.edit {g : δ → γ} {f : δ → δ} (h : ∀ d, g (f d) = g d) : Keeps g (edit f : Reader ε δ Unit) := fun s =>
  h s.data

end ByteReader
