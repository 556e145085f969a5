/-
Sources that give what they have in pieces. A read gives as many elements as it is asked for or fewer, none only at the end;
it may be interrupted, or fail.
- `Source`: a source, with what is left of it and the interruptions that are still to come;
- `collect`: the loop that reads a number of elements, whatever the pieces; `collect_spec` for any source,
  `collect_eq` for one that does not fail;
- `line`: the loop that reads single elements through the first one that ends a line; `line_spec`, `line_eq`;
- `lineOf`: the same on a list.
-/
import Mathlib.Tactic

/-- what one read gives -/
inductive Pulled (α : Type*) where
  | got (xs : List α)
  | interrupted
  | failed

structure Source (σ α : Type*) where
  read : ℕ → σ → Pulled α × σ
  /-- all that is still to come -/
  left : σ → List α
  /-- the interruptions that are still to come -/
  delays : σ → ℕ
  got_left : ∀ {n s t xs}, read n s = (.got xs, t) → left s = xs ++ left t
  got_le : ∀ {n s t xs}, read n s = (.got xs, t) → xs.length ≤ n
  got_end : ∀ {n s t}, read n s = (.got [], t) → n = 0 ∨ left s = []
  got_delays : ∀ {n s t xs}, read n s = (.got xs, t) → delays t = delays s
  interrupted_left : ∀ {n s t}, read n s = (.interrupted, t) → left t = left s
  interrupted_delays : ∀ {n s t}, read n s = (.interrupted, t) → delays s = delays t + 1
  failed_left : ∀ {n s t}, read n s = (.failed, t) → left t = left s

namespace Source

variable {σ α : Type*} (S : Source σ α)

/-- a set of states in which no read fails -/
structure Steady (P : σ → Prop) : Prop where
  succeeds : ∀ {n s}, P s → (S.read n s).1 ≠ .failed
  step : ∀ {n s}, P s → P (S.read n s).2

/-! ## A number of elements -/

/-- what a loop has copied to its caller, and whether it ended on a failed read -/
structure Collected (σ α : Type*) where
  copied : List α
  failed : Bool
  state : σ

def collectLoop : ℕ → ℕ → σ → Collected σ α
  | 0, _, s => ⟨[], false, s⟩
  | fuel + 1, nleft, s =>
    if nleft = 0 then ⟨[], false, s⟩
    else
      match S.read nleft s with
      | (.failed, t) => ⟨[], true, t⟩
      | (.interrupted, t) => collectLoop fuel nleft t
      | (.got [], t) => ⟨[], false, t⟩
      | (.got (x :: xs), t) =>
        let r := collectLoop fuel (nleft - (xs.length + 1)) t
        { r with copied := x :: xs ++ r.copied }

/-- `while (nleft > 0)`: each read takes an element or an interruption -/
def collect (n : ℕ) (s : σ) : Collected σ α := S.collectLoop (n + S.delays s + 1) n s

theorem collectLoop_spec {fuel n : ℕ} {s : σ} (h : n + S.delays s < fuel) :
    S.left s = (S.collectLoop fuel n s).copied ++ S.left (S.collectLoop fuel n s).state ∧
      ((S.collectLoop fuel n s).failed = false → (S.collectLoop fuel n s).copied = (S.left s).take n) ∧
      (S.collectLoop fuel n s).copied.length ≤ n := by
  induction fuel generalizing n s with
  | zero => omega
  | succ fuel ih =>
    unfold collectLoop
    by_cases hn : n = 0
    · rw [if_pos hn, hn]
      exact ⟨rfl, fun _ => rfl, le_rfl⟩
    · rw [if_neg hn]
      rcases hread : S.read n s with ⟨xs | _ | _, t⟩
      · have hleft := S.got_left hread
        have hle := S.got_le hread
        have hdelays := S.got_delays hread
        cases xs with
        | nil =>
          have hend : S.left s = [] := (S.got_end hread).resolve_left hn
          exact ⟨hleft, fun _ => by rw [hend, List.take_nil], Nat.zero_le _⟩
        | cons x xs =>
          rw [List.length_cons] at hle
          obtain ⟨hsplit, htake, hlen⟩ := @ih (n - (xs.length + 1)) t (by omega)
          dsimp only
          refine ⟨?_, ?_, ?_⟩
          · rw [hleft, hsplit, List.append_assoc]
          · intro hok
            rw [hleft, htake hok, List.take_append, List.take_of_length_le (l := x :: xs) hle]
            rfl
          · simp only [List.length_append, List.length_cons]
            omega
      · have hleft := S.interrupted_left hread
        have hdelays := S.interrupted_delays hread
        rw [← hleft]
        exact ih (by omega)
      · refine ⟨(S.failed_left hread).symm, ?_, Nat.zero_le _⟩
        intro hok
        cases hok

/-- **Reading a number of elements**: nothing is lost, also when a read fails. -/
theorem collect_spec (n : ℕ) (s : σ) :
    S.left s = (S.collect n s).copied ++ S.left (S.collect n s).state ∧
      ((S.collect n s).failed = false → (S.collect n s).copied = (S.left s).take n) := by
  have hfuel : n + S.delays s < n + S.delays s + 1 := Nat.lt_succ_self _
  obtain ⟨hsplit, htake, -⟩ := S.collectLoop_spec hfuel
  exact ⟨hsplit, htake⟩

variable {S} {P : σ → Prop}

theorem collectLoop_steady (hP : S.Steady P) (fuel n : ℕ) {s : σ} (h : P s) :
    (S.collectLoop fuel n s).failed = false ∧ P (S.collectLoop fuel n s).state := by
  induction fuel generalizing n s with
  | zero => exact ⟨rfl, h⟩
  | succ fuel ih =>
    have hok := hP.succeeds (n := n) h
    have hstep := hP.step (n := n) h
    unfold collectLoop
    split_ifs
    · exact ⟨rfl, h⟩
    · rcases hread : S.read n s with ⟨xs | _ | _, t⟩
      · rw [hread] at hstep
        cases xs with
        | nil => exact ⟨rfl, hstep⟩
        | cons x xs => exact ih _ hstep
      · rw [hread] at hstep
        exact ih _ hstep
      · exact absurd (by rw [hread]) hok

/-- the same on a source that does not fail -/
theorem collect_eq (hP : S.Steady P) (n : ℕ) {s : σ} (h : P s) :
    (S.collect n s).copied = (S.left s).take n ∧ S.left (S.collect n s).state = (S.left s).drop n ∧
      (S.collect n s).failed = false ∧ P (S.collect n s).state := by
  obtain ⟨hok, hstate⟩ := collectLoop_steady hP (n + S.delays s + 1) n h
  have hspec := S.collect_spec n s
  have htake := hspec.2 hok
  have hsplit := hspec.1
  refine ⟨htake, ?_, hok, hstate⟩
  rw [htake] at hsplit
  exact List.append_cancel_left (hsplit.symm.trans (List.take_append_drop n (S.left s)).symm)

/-! ## Lines -/

/-- how the reading of a line ends: on an element that ends it, when there is no more room, at the end of the source, or on a
failed read -/
inductive Ending where
  | stopped
  | full
  | ended
  | failed
deriving DecidableEq, Repr

structure Line (σ α : Type*) where
  copied : List α
  ending : Ending
  state : σ

variable (S) in
/-- an interruption takes a turn of the loop -/
def line (p : α → Bool) : ℕ → σ → Line σ α
  | 0, s => ⟨[], .full, s⟩
  | k + 1, s =>
    match S.read 1 s with
    | (.failed, t) => ⟨[], .failed, t⟩
    | (.interrupted, t) => line p k t
    | (.got [], t) => ⟨[], .ended, t⟩
    | (.got (x :: _), t) =>
      if p x then ⟨[x], .stopped, t⟩
      else
        let r := line p k t
        { r with copied := x :: r.copied }

/-- a line of a list, in `k` elements at most -/
def lineOf (p : α → Bool) : ℕ → List α → List α × Ending
  | 0, _ => ([], .full)
  | _ + 1, [] => ([], .ended)
  | k + 1, x :: xs => if p x then ([x], .stopped) else (x :: (lineOf p k xs).1, (lineOf p k xs).2)

variable (p : α → Bool)

theorem lineOf_ending (k : ℕ) (xs : List α) : (lineOf p k xs).2 ≠ .failed := by
  induction k generalizing xs with
  | zero => exact Ending.noConfusion
  | succ k ih =>
    cases xs with
    | nil => exact Ending.noConfusion
    | cons x xs =>
      unfold lineOf
      split_ifs
      · exact Ending.noConfusion
      · exact ih xs

/-- only the end of the data leaves an empty line in a positive room -/
theorem lineOf_nil {k : ℕ} {xs : List α} (hk : 0 < k) : (lineOf p k xs).1 = [] ↔ xs = [] := by
  obtain ⟨k, rfl⟩ := Nat.exists_eq_succ_of_ne_zero hk.ne'
  cases xs with
  | nil => exact ⟨fun _ => rfl, fun _ => rfl⟩
  | cons x xs =>
    unfold lineOf
    split_ifs <;> simp

variable (S) in
/-- **Reading a line**: nothing is lost, and each interruption makes the room smaller by one. -/
theorem line_spec (k : ℕ) (s : σ) :
    S.left s = (S.line p k s).copied ++ S.left (S.line p k s).state ∧
      ((S.line p k s).ending ≠ .failed → ∃ d ≤ k, S.delays s = S.delays (S.line p k s).state + d ∧
        ((S.line p k s).copied, (S.line p k s).ending) = lineOf p (k - d) (S.left s)) := by
  induction k generalizing s with
  | zero => exact ⟨rfl, fun _ => ⟨0, le_rfl, rfl, rfl⟩⟩
  | succ k ih =>
    unfold line
    rcases hread : S.read 1 s with ⟨xs | _ | _, t⟩
    · have hleft := S.got_left hread
      have hdelays := S.got_delays hread
      cases xs with
      | nil =>
        have hend : S.left s = [] := (S.got_end hread).resolve_left one_ne_zero
        refine ⟨hleft, fun _ => ⟨0, Nat.zero_le _, hdelays.symm, ?_⟩⟩
        rw [hend]
        rfl
      | cons x xs =>
        obtain rfl : xs = [] := List.length_eq_zero_iff.1 (by simpa using S.got_le hread)
        have hleft : S.left s = x :: S.left t := hleft
        obtain ⟨hsplit, hline⟩ := ih t
        dsimp only
        split_ifs with hx
        · refine ⟨hleft, fun _ => ⟨0, Nat.zero_le _, hdelays.symm, ?_⟩⟩
          rw [hleft, Nat.sub_zero, lineOf, if_pos hx]
        · refine ⟨?_, fun hok => ?_⟩
          · calc S.left s = x :: S.left t := hleft
              _ = x :: ((S.line p k t).copied ++ S.left (S.line p k t).state) := by rw [← hsplit]
          · obtain ⟨d, hd, hcount, heq⟩ := hline hok
            refine ⟨d, by omega, hdelays.symm.trans hcount, ?_⟩
            rw [hleft, show k + 1 - d = k - d + 1 by omega, lineOf, if_neg hx, ← heq]
    · have hleft := S.interrupted_left hread
      have hdelays := S.interrupted_delays hread
      obtain ⟨hsplit, hline⟩ := ih t
      dsimp only
      refine ⟨hleft ▸ hsplit, fun hok => ?_⟩
      obtain ⟨d, hd, hcount, heq⟩ := hline hok
      refine ⟨d + 1, by omega, by omega, ?_⟩
      rw [heq, hleft, Nat.add_sub_add_right]
    · exact ⟨(S.failed_left hread).symm, fun hok => absurd rfl hok⟩

theorem line_steady (hP : S.Steady P) (k : ℕ) {s : σ} (h : P s) :
    (S.line p k s).ending ≠ .failed ∧ P (S.line p k s).state := by
  induction k generalizing s with
  | zero => exact ⟨by simp [line], h⟩
  | succ k ih =>
    have hok := hP.succeeds (n := 1) h
    have hstep := hP.step (n := 1) h
    unfold line
    rcases hread : S.read 1 s with ⟨xs | _ | _, t⟩
    · rw [hread] at hstep
      cases xs with
      | nil => exact ⟨by simp, hstep⟩
      | cons x xs =>
        dsimp only
        split_ifs
        · exact ⟨by simp, hstep⟩
        · exact ih hstep
    · rw [hread] at hstep
      exact ih hstep
    · exact absurd (by rw [hread]) hok

/-- the same on a source that neither fails nor is interrupted any more -/
theorem line_eq (hP : S.Steady P) (k : ℕ) {s : σ} (h : P s) (hs : S.delays s = 0) :
    ((S.line p k s).copied, (S.line p k s).ending) = lineOf p k (S.left s) ∧
      S.left s = (lineOf p k (S.left s)).1 ++ S.left (S.line p k s).state ∧ P (S.line p k s).state := by
  obtain ⟨hok, hstate⟩ := line_steady p hP k h
  obtain ⟨hsplit, hline⟩ := S.line_spec p k s
  obtain ⟨d, -, hcount, heq⟩ := hline hok
  obtain rfl : d = 0 := by omega
  exact ⟨heq, (congrArg Prod.fst heq) ▸ hsplit, hstate⟩

end Source
