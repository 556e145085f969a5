/-
When AppendFile::append (base/logfile.cc) returns: its write loop against any infinite sequence of fwrite results.

The loop waits until the stream has accepted every byte, and takes a result of 0 as progress like any other. A full disk
gives 0 for ever, and then the loop never ends, with the mutex of the LogFile held.
- `writeWhile_isSome`: how far the loop gets in a number of turns;
- `append_returns_iff`: it returns unless from some call on nothing is accepted although bytes are left;
- `appendWithin_append`: where it returns it has written the whole record.
-/
import Glacier.Base.LogFile

namespace Glacier.LogFile

open Cxx Finset

namespace AppendFile

/-- `while (remain > 0)`, for at most `fuel` turns; the result of the k-th call of fwrite is `accepted k` -/
def writeWhile (accepted : ℕ → ℕ) (logline : Bytes) : ℕ → ℕ → AppendFile → ℕ → ℕ → Option AppendFile
  | 0, _, f, _, remain => if remain > 0 then none else some f
  | fuel + 1, call, f, n, remain =>
    if remain > 0 then
      let x := accepted call
      writeWhile accepted logline fuel (call + 1) (f.write (logline.drop n) x) (n + x) (remain - x)
    else some f

/-- append, if its loop ends within `fuel` turns -/
def appendWithin (fuel : ℕ) (accepted : ℕ → ℕ) (f : AppendFile) (logline : Bytes) : Option AppendFile :=
  let n := accepted 0
  let remain := logline.length - n
  (writeWhile accepted logline fuel 1 (f.write logline n) n remain).map fun g =>
    { g with writtenBytes := g.writtenBytes + logline.length, records := g.records ++ [logline] }

/-- the loop ends -/
def Returns (accepted : ℕ → ℕ) (f : AppendFile) (logline : Bytes) : Prop :=
  ∃ fuel, (appendWithin fuel accepted f logline).isSome

/-- what fwrite promises: never more bytes than are left -/
def Answers (accepted : ℕ → ℕ) (remain : ℕ) : Prop := ∀ k, ∑ i ∈ range k, accepted i ≤ remain

variable {accepted : ℕ → ℕ} {logline : Bytes}

/-- within `fuel` turns the loop ends exactly if they accept what is left -/
theorem writeWhile_isSome (fuel call : ℕ) (f : AppendFile) (n remain : ℕ) :
    (writeWhile accepted logline fuel call f n remain).isSome ↔ remain ≤ ∑ i ∈ range fuel, accepted (call + i) := by
  induction fuel generalizing call f n remain with
  | zero =>
    unfold writeWhile
    split_ifs with h
    · simp only [range_zero, sum_empty, Option.isSome_none, Bool.false_eq_true, false_iff]
      omega
    · simp only [range_zero, sum_empty, Option.isSome_some, true_iff]
      omega
  | succ fuel ih =>
    have hsum : ∑ i ∈ range (fuel + 1), accepted (call + i) =
        accepted call + ∑ i ∈ range fuel, accepted (call + 1 + i) := by
      rw [sum_range_succ']
      simp only [Nat.add_comm, Nat.add_left_comm, Nat.add_zero]
    unfold writeWhile
    split_ifs with h
    · rw [ih, hsum]
      omega
    · simp only [Option.isSome_some, true_iff]
      omega

theorem returns_iff_sum (f : AppendFile) :
    Returns accepted f logline ↔ ∃ calls, logline.length ≤ ∑ i ∈ range calls, accepted i := by
  have hwithin : ∀ fuel, (appendWithin fuel accepted f logline).isSome ↔
      logline.length ≤ ∑ i ∈ range (fuel + 1), accepted i := by
    intro fuel
    rw [appendWithin, Option.isSome_map, writeWhile_isSome, sum_range_succ']
    simp only [Nat.add_comm 1]
    omega
  constructor
  · intro ⟨fuel, h⟩
    exact ⟨fuel + 1, (hwithin fuel).1 h⟩
  · intro ⟨calls, h⟩
    refine ⟨calls, (hwithin calls).2 (h.trans ?_)⟩
    rw [sum_range_succ]
    exact Nat.le_add_right _ _

/-- results that are not 0 for ever add up to any number -/
theorem exists_le_sum (h : ∀ k, ∃ j, k ≤ j ∧ accepted j ≠ 0) (m : ℕ) : ∃ k, m ≤ ∑ i ∈ range k, accepted i := by
  induction m with
  | zero => exact ⟨0, Nat.zero_le _⟩
  | succ m ih =>
    obtain ⟨k, hk⟩ := ih
    obtain ⟨j, hkj, hj⟩ := h k
    refine ⟨j + 1, ?_⟩
    calc m + 1 ≤ ∑ i ∈ range k, accepted i + 1 := by omega
      _ ≤ ∑ i ∈ range j, accepted i + accepted j :=
        Nat.add_le_add (sum_le_sum_of_subset (range_mono hkj)) (Nat.one_le_iff_ne_zero.2 hj)
      _ = ∑ i ∈ range (j + 1), accepted i := (sum_range_succ _ _).symm

/-- **append returns unless nothing is accepted any more**: for every sequence of results, the loop ends exactly if it is
not the case that from some call on every result is 0 although bytes of the record are left. -/
theorem append_returns_iff (accepted : ℕ → ℕ) (f : AppendFile) (logline : Bytes) :
    Returns accepted f logline ↔
      ¬ ∃ k, ∑ i ∈ range k, accepted i < logline.length ∧ ∀ j, k ≤ j → accepted j = 0 := by
  rw [returns_iff_sum]
  constructor
  · rintro ⟨calls, hcalls⟩ ⟨k, hk, hzero⟩
    have hle : ∑ i ∈ range calls, accepted i ≤ ∑ i ∈ range k, accepted i := by
      rcases Nat.le_total calls k with hck | hkc
      · exact sum_le_sum_of_subset (range_mono hck)
      · refine (sum_subset (range_mono hkc) ?_).ge
        intro j _ hj
        exact hzero j (by simpa using hj)
    omega
  · intro h
    by_contra hnever
    have hless : ∀ k, ∑ i ∈ range k, accepted i < logline.length := fun k => by
      by_contra hk
      exact hnever ⟨k, not_lt.1 hk⟩
    have hmore : ∀ k, ∃ j, k ≤ j ∧ accepted j ≠ 0 := by
      intro k
      by_contra hk
      refine h ⟨k, hless k, ?_⟩
      intro j hkj
      by_contra hj
      exact hk ⟨j, hkj, hj⟩
    exact hnever (exists_le_sum hmore logline.length)

/-- a full disk: the first record never gets out -/
theorem full_disk_hangs : ¬ ∀ (accepted : ℕ → ℕ) (f : AppendFile) (logline : Bytes),
    Answers accepted logline.length → Returns accepted f logline := by
  intro hall
  obtain ⟨fuel, h⟩ := hall (fun _ => 0) ⟨ascii "log", [], 0, 0, []⟩ (ascii "a") (by simp [Answers])
  rw [appendWithin, Option.isSome_map, writeWhile_isSome] at h
  simp [ascii] at h

/-! ## What is written -/

theorem writeWhile_writeLoop {fuel call : ℕ} {f g : AppendFile} {n remain : ℕ}
    (hanswers : Answers (fun i => accepted (call + i)) remain)
    (h : writeWhile accepted logline fuel call f n remain = some g) :
    ∃ calls, writeLoop logline f n remain ((List.range' call calls).map accepted) = some g := by
  induction fuel generalizing call f n remain with
  | zero =>
    unfold writeWhile at h
    split_ifs at h with hremain
    exact ⟨0, by simpa [writeLoop, Nat.eq_zero_of_not_pos hremain] using h⟩
  | succ fuel ih =>
    unfold writeWhile at h
    split_ifs at h with hremain
    · have hfirst : accepted call ≤ remain := by simpa using hanswers 1
      have hrest : Answers (fun i => accepted (call + 1 + i)) (remain - accepted call) := by
        intro k
        have hk := hanswers (k + 1)
        rw [sum_range_succ'] at hk
        simp only [Nat.add_zero, Nat.add_comm _ 1, ← Nat.add_assoc] at hk ⊢
        omega
      obtain ⟨calls, hcalls⟩ := ih hrest h
      refine ⟨calls + 1, ?_⟩
      rw [List.range'_succ, List.map_cons, writeLoop, if_neg (by omega)]
      exact hcalls
    · exact ⟨0, by simpa [writeLoop, Nat.eq_zero_of_not_pos hremain] using h⟩

/-- where it returns, it has made the calls of `append`, and written the whole record -/
theorem appendWithin_append {fuel : ℕ} {f g : AppendFile} (hanswers : Answers accepted logline.length)
    (h : appendWithin fuel accepted f logline = some g) :
    (∃ calls, f.append logline ((List.range calls).map accepted) = some g) ∧ g = f.grown logline := by
  unfold appendWithin at h
  obtain ⟨g', hg', rfl⟩ := Option.map_eq_some_iff.1 h
  have hfirst : accepted 0 ≤ logline.length := by simpa using hanswers 1
  have hrest : Answers (fun i => accepted (1 + i)) (logline.length - accepted 0) := by
    intro k
    have hk := hanswers (k + 1)
    rw [sum_range_succ'] at hk
    simp only [Nat.add_comm 1]
    omega
  obtain ⟨calls, hcalls⟩ := writeWhile_writeLoop hrest hg'
  have happend : f.append logline ((List.range (calls + 1)).map accepted) =
      some { g' with writtenBytes := g'.writtenBytes + logline.length, records := g'.records ++ [logline] } := by
    rw [List.range_eq_range', List.range'_succ, List.map_cons, append, if_neg (by omega), hcalls, Option.map_some]
  exact ⟨⟨calls + 1, happend⟩, append_spec happend⟩

end AppendFile

end Glacier.LogFile
