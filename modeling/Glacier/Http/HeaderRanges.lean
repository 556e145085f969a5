/-
The indices of parseHeaders: no range that it forms is reversed or leaves the buffer.

The indices are 0 at the beginning of each call, while parse_state_ goes on from where the last call has left it. So the
begin and the end of a name may belong to different fields, but never when the field is stored: a state in which a begin
is behind its end comes to a store only through a turn that sets the end.
- `ranges_step`: what one turn keeps of the indices;
- `parseHeaders_ranges`: every turn of every call, from any parse_state_ on.
-/
import Glacier.Http.HeaderScan

namespace Glacier.HttpData

open Cxx

/-- the turns of the loop: the index, the character there, and the state before the turn -/
def turns (str : Bytes) : Bytes → ℕ → Scan → List (ℕ × UInt8 × Scan)
  | [], _, _ => []
  | c :: rest, i, s =>
    if s.finish then []
    else
      (i, c, s) ::
        match scanByte str c i s with
        | .error _ => []
        | .ok s => turns str rest (i + 1) s

/-- no turn reads behind the buffer, takes a larger index from a smaller one, or stores a field from reversed iterators -/
structure ValidTurn (str : Bytes) (i : ℕ) (c : UInt8) (s : Scan) : Prop where
  read : str[i]? = some c
  /-- `key_end - key_start` -/
  key : s.parseState = .key → s.keyStart ≤ i
  /-- `value_end - value_start` and `i - value_start` -/
  value : s.parseState = .value → s.valueStart ≤ i
  storeKey : s.parseState = .cr → s.keyStart ≤ s.keyEnd ∧ s.keyEnd ≤ str.length
  storeValue : s.parseState = .cr → s.valueStart ≤ s.valueEnd ∧ s.valueEnd ≤ str.length

/-- the end of the name has been found -/
def NameEnded : ParseState → Prop
  | .colon | .spacesAfterColon | .value | .cr => True
  | _ => False

/-- the indices in front of the turn at `i` -/
structure Ranges (i : ℕ) (s : Scan) : Prop where
  keyStart : s.keyStart ≤ i
  keyEnd : s.keyEnd ≤ i
  valueStart : s.valueStart ≤ i
  valueEnd : s.valueEnd ≤ i
  line : s.nowReadLineBegin ≤ i
  name : NameEnded s.parseState → s.keyStart ≤ s.keyEnd
  value : s.parseState = .cr → s.valueStart ≤ s.valueEnd

theorem ranges_start (parseState : ParseState) (headers : Headers) : Ranges 0 (.start parseState headers) :=
  ⟨le_rfl, le_rfl, le_rfl, le_rfl, le_rfl, fun _ => le_rfl, fun _ => le_rfl⟩

theorem Ranges.succ {i : ℕ} {s : Scan} (h : Ranges i s) : Ranges (i + 1) s :=
  ⟨h.keyStart.trans (Nat.le_succ i), h.keyEnd.trans (Nat.le_succ i), h.valueStart.trans (Nat.le_succ i),
    h.valueEnd.trans (Nat.le_succ i), h.line.trans (Nat.le_succ i), h.name, h.value⟩

/-- one turn -/
theorem ranges_step {str : Bytes} {c : UInt8} {i : ℕ} {s t : Scan} (h : Ranges i s) (hm : Moved str c i s t) :
    Ranges (i + 1) t := by
  have hnext := h.succ
  cases hm with
  | skip hs => exact hnext
  | first hs => exact { hnext with keyStart := Nat.le_succ i, line := Nat.le_succ i, name := False.elim, value := by simp }
  | colon hs => exact { hnext with keyEnd := Nat.le_succ i, name := fun _ => h.keyStart, value := by simp }
  | name hs hc => exact hnext
  | blank hs =>
    have hname := h.name (by rw [hs]; trivial)
    exact { hnext with name := fun _ => hname, value := by simp }
  | value hs =>
    have hname := h.name (by rw [hs]; trivial)
    exact { hnext with valueStart := Nat.le_succ i, name := fun _ => hname, value := by simp }
  | inValue hs => exact hnext
  | cr hs =>
    have hname := h.name (by rw [hs]; trivial)
    exact { hnext with valueEnd := Nat.le_succ i, name := fun _ => hname, value := fun _ => h.valueStart }
  | lf hs hc => exact { hnext with line := Nat.le_succ i, name := False.elim, value := by simp }
  | endCr hs hc => exact { hnext with name := False.elim, value := by simp }
  | next hs => exact { hnext with keyStart := Nat.le_succ i, name := False.elim, value := by simp }
  | endLf hs => exact { hnext with name := False.elim, value := by simp }
  | finish hs =>
    have hname : ¬ NameEnded s.parseState := by
      rw [hs]
      exact id
    have hcr : s.parseState ≠ .cr := by simp [hs]
    exact { hnext with
      keyStart := Nat.le_succ i
      line := Nat.le_succ i
      name := fun hended => absurd hended hname
      value := fun hended => absurd hended hcr }

theorem Ranges.validTurn {str : Bytes} {c : UInt8} {i : ℕ} {s : Scan} (h : Ranges i s) (hread : str[i]? = some c) :
    ValidTurn str i c s := by
  have hlt : i < str.length := (List.getElem?_eq_some_iff.1 hread).1
  refine { read := hread, key := fun _ => h.keyStart, value := fun _ => h.valueStart, storeKey := ?_, storeValue := ?_ }
  · intro hs
    exact ⟨h.name (by rw [hs]; trivial), h.keyEnd.trans hlt.le⟩
  · intro hs
    exact ⟨h.value hs, h.valueEnd.trans hlt.le⟩

theorem turns_valid {str rest : Bytes} {i : ℕ} {s : Scan} (hrest : str.drop i = rest) (h : Ranges i s) :
    ∀ x ∈ turns str rest i s, ValidTurn str x.1 x.2.1 x.2.2 := by
  induction rest generalizing i s with
  | nil => simp [turns]
  | cons c rest ih =>
    have hread : str[i]? = some c := by rw [← List.head?_drop, hrest, List.head?_cons]
    have hdrop : str.drop (i + 1) = rest := by rw [← List.drop_drop, hrest, List.drop_one, List.tail_cons]
    intro x hx
    unfold turns at hx
    split_ifs at hx with hfinish
    · cases hx
    · rcases List.mem_cons.1 hx with rfl | hx
      · exact h.validTurn hread
      · cases hturn : scanByte str c i s with
        | error t => simp [hturn] at hx
        | ok t =>
          simp only [hturn] at hx
          exact ih hdrop (ranges_step h (scanByte_moved hturn)) x hx

/-- **parseHeaders never forms an invalid range.** Whatever parse_state_ and headers_ earlier calls have left and whatever
is in the buffer: in every turn of the loop the character is one of the buffer, the differences do not wrap, and a field is
stored from ranges of the buffer; at the end both offsets of substr are within the buffer. -/
theorem parseHeaders_ranges (h : HttpData) :
    (∀ i c s, (i, c, s) ∈ turns h.inBuffer h.inBuffer 0 (.start h.parseState h.headers) → ValidTurn h.inBuffer i c s) ∧
      ∀ s i, scan h.inBuffer h.inBuffer 0 (.start h.parseState h.headers) = .ok (s, i) →
        i ≤ h.inBuffer.length ∧ s.nowReadLineBegin ≤ h.inBuffer.length := by
  have hstart := ranges_start h.parseState h.headers
  refine ⟨fun i c s hturn => turns_valid rfl hstart _ hturn, ?_⟩
  intro s i hscan
  have hend : i ≤ h.inBuffer.length ∧ Ranges i s := by
    refine scan_inv (P := fun i s => i ≤ h.inBuffer.length ∧ Ranges i s) ?_ rfl ⟨Nat.zero_le _, hstart⟩ hscan
    intro i c rest s t hdrop hs hm
    have hlt : i < h.inBuffer.length := by
      by_contra hge
      rw [List.drop_eq_nil_of_le (not_lt.1 hge)] at hdrop
      cases hdrop
    exact ⟨hlt, ranges_step hs.2 hm⟩
  exact ⟨hend.1, hend.2.line.trans hend.1⟩

/-- a call that goes on behind the CR of a value stores a field all of whose indices are 0 -/
theorem parseHeaders_ranges_resumed : ValidTurn [LF] 0 LF (.start .cr fun _ => none) :=
  (parseHeaders_ranges { new 5 with parseState := .cr, inBuffer := [LF] }).1 0 LF _ (by simp [turns, new, Scan.start])

end Glacier.HttpData
