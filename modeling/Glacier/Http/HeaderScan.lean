/-
The loop of parseHeaders on header text: what it does on a field line, and on all field lines of a request.

A field line is a name, a ':', and the text `rest` up to CR LF. parseHeaders stores a field only for `rest = ' ' value`.
An empty value is not seen as one: the state after the blank takes the CR as the first character of the value, and the
value goes on to the end of the next line.
- `absorb`: the fields that are stored for given lines, and whether the lines end at a line boundary; none if the lines
  are rejected;
- `parseHeaders_block`, `parseHeaders_open`, `parseHeaders_reject`: parseHeaders stores exactly these fields, with or
  without the blank line, or rejects.
-/
import Glacier.Http.HttpData

namespace Glacier

open Cxx

namespace HttpData

/-! ## The loop -/

theorem scan_finish {str : Bytes} {s : Scan} (h : s.finish = true) (rest : Bytes) (i : ℕ) :
    scan str rest i s = .ok (s, i) := by
  cases rest with
  | nil => rfl
  | cons c rest => simp [scan, h]

theorem scan_step {str : Bytes} {c : UInt8} {i : ℕ} {s t : Scan} (hs : s.finish = false)
    (h : scanByte str c i s = .ok t) (rest : Bytes) : scan str (c :: rest) i s = scan str rest (i + 1) t := by
  simp [scan, hs, h]

theorem scan_error {str : Bytes} {c : UInt8} {i : ℕ} {s t : Scan} (hs : s.finish = false)
    (h : scanByte str c i s = .error t) (rest : Bytes) : scan str (c :: rest) i s = .error t := by
  simp [scan, hs, h]

/-- the loop over two pieces of text -/
theorem scan_append (str a b : Bytes) (i : ℕ) (s : Scan) :
    scan str (a ++ b) i s = (scan str a i s).bind fun p => scan str b p.2 p.1 := by
  induction a generalizing i s with
  | nil => rfl
  | cons c a ih =>
    cases hf : s.finish with
    | true => rw [scan_finish hf, scan_finish hf]; exact (scan_finish hf b i).symm
    | false =>
      cases hb : scanByte str c i s with
      | error t => rw [List.cons_append, scan_error hf hb, scan_error hf hb]; rfl
      | ok t => rw [List.cons_append, scan_step hf hb, scan_step hf hb, ih]

theorem scan_append_ok {str a b : Bytes} {i j : ℕ} {s t : Scan} (h : scan str a i s = .ok (t, j)) :
    scan str (a ++ b) i s = scan str b j t := by
  rw [scan_append, h]; rfl

/-- what one turn of the loop does when it does not return -/
inductive Moved (str : Bytes) (c : UInt8) (i : ℕ) (s : Scan) : Scan → Prop where
  | skip (hs : s.parseState = .start) : Moved str c i s s
  | first (hs : s.parseState = .start) : Moved str c i s { s with parseState := .key, keyStart := i, nowReadLineBegin := i }
  | colon (hs : s.parseState = .key) : Moved str c i s { s with keyEnd := i, parseState := .colon }
  | name (hs : s.parseState = .key) (hc : c ≠ LF) : Moved str c i s s
  | blank (hs : s.parseState = .colon) : Moved str c i s { s with parseState := .spacesAfterColon }
  | value (hs : s.parseState = .spacesAfterColon) : Moved str c i s { s with parseState := .value, valueStart := i }
  | inValue (hs : s.parseState = .value) : Moved str c i s s
  | cr (hs : s.parseState = .value) : Moved str c i s { s with parseState := .cr, valueEnd := i }
  | lf (hs : s.parseState = .cr) (hc : c = LF) : Moved str c i s { s with
      parseState := .lf
      headers := Function.update s.headers (slice str s.keyStart s.keyEnd) (some (slice str s.valueStart s.valueEnd))
      nowReadLineBegin := i }
  | endCr (hs : s.parseState = .lf) (hc : c = CR) : Moved str c i s { s with parseState := .endCr }
  | next (hs : s.parseState = .lf) : Moved str c i s { s with keyStart := i, parseState := .key }
  | endLf (hs : s.parseState = .endCr) : Moved str c i s { s with parseState := .endLf }
  | finish (hs : s.parseState = .endLf) : Moved str c i s { s with finish := true, keyStart := i, nowReadLineBegin := i }

theorem scanByte_moved {str : Bytes} {c : UInt8} {i : ℕ} {s t : Scan} (h : scanByte str c i s = .ok t) :
    Moved str c i s t := by
  unfold scanByte at h
  cases hs : s.parseState with
  | start =>
    simp only [hs] at h
    by_cases hc : c = LF ∨ c = CR
    · rw [if_pos hc] at h; cases h; exact .skip hs
    · rw [if_neg hc] at h; cases h; exact .first hs
  | key =>
    simp only [hs] at h
    by_cases hc : c = COLON
    · rw [if_pos hc] at h
      by_cases he : sizeDiff i s.keyStart ≤ 0
      · rw [if_pos he] at h; cases h
      · rw [if_neg he] at h; cases h; exact .colon hs
    · rw [if_neg hc] at h
      by_cases hl : c = LF ∨ c = CR
      · rw [if_pos hl] at h; cases h
      · rw [if_neg hl] at h; cases h; exact .name hs fun hc => hl (Or.inl hc)
  | colon =>
    simp only [hs] at h
    by_cases hc : c = SPACE
    · rw [if_pos hc] at h; cases h; exact .blank hs
    · rw [if_neg hc] at h; cases h
  | spacesAfterColon => simp only [hs] at h; cases h; exact .value hs
  | value =>
    simp only [hs] at h
    by_cases hc : c = CR
    · rw [if_pos hc] at h
      by_cases he : sizeDiff i s.valueStart ≤ 0
      · rw [if_pos he] at h; cases h
      · rw [if_neg he] at h; cases h; exact .cr hs
    · rw [if_neg hc] at h
      by_cases hl : sizeDiff i s.valueStart > 255
      · rw [if_pos hl] at h; cases h
      · rw [if_neg hl] at h; cases h; exact .inValue hs
  | cr =>
    simp only [hs] at h
    by_cases hc : c = LF
    · rw [if_pos hc] at h; cases h; exact .lf hs hc
    · rw [if_neg hc] at h; cases h
  | lf =>
    simp only [hs] at h
    by_cases hc : c = CR
    · rw [if_pos hc] at h; cases h; exact .endCr hs hc
    · rw [if_neg hc] at h; cases h; exact .next hs
  | endCr =>
    simp only [hs] at h
    by_cases hc : c = LF
    · rw [if_pos hc] at h; cases h; exact .endLf hs
    · rw [if_neg hc] at h; cases h
  | endLf =>
    simp only [hs] at h
    cases h
    have hm : Moved str c i s { s with finish := true, keyStart := i, nowReadLineBegin := i } := .finish hs
    rwa [hs] at hm

/-- **Invariants of the loop.** What every turn preserves holds when the loop ends. -/
theorem scan_inv {str : Bytes} {P : ℕ → Scan → Prop}
    (hstep : ∀ i c rest s t, str.drop i = c :: rest → P i s → Moved str c i s t → P (i + 1) t)
    {rest : Bytes} {i j : ℕ} {s t : Scan} (hrest : str.drop i = rest) (h0 : P i s)
    (h : scan str rest i s = .ok (t, j)) : P j t := by
  induction rest generalizing i s with
  | nil => cases h; exact h0
  | cons c rest ih =>
    cases hf : s.finish with
    | true => rw [scan_finish hf] at h; cases h; exact h0
    | false =>
      cases hb : scanByte str c i s with
      | error e => rw [scan_error hf hb] at h; cases h
      | ok u =>
        rw [scan_step hf hb] at h
        have hdrop : str.drop (i + 1) = rest := by rw [← List.drop_drop, hrest]; rfl
        exact ih hdrop (hstep i c rest s u hrest h0 (scanByte_moved hb)) h

/-! ## Slices -/

theorem slice_of_drop {str x : Bytes} {a : ℕ} (rest : Bytes) (h : str.drop a = x ++ rest) :
    slice str a (a + x.length) = x := by
  unfold slice
  rw [h, Nat.add_sub_cancel_left, List.take_left']
  rfl

theorem drop_add {str x rest : Bytes} {a : ℕ} (h : str.drop a = x ++ rest) : str.drop (a + x.length) = rest := by
  rw [← List.drop_drop, h, List.drop_left']
  rfl

/-! ## One field -/

/-- a character that is neither ':' nor a line break -/
def Plain (c : UInt8) : Prop := c ≠ COLON ∧ c ≠ CR ∧ c ≠ LF

instance : DecidablePred Plain := fun _ => inferInstanceAs (Decidable (_ ∧ _))

/-- the name of a field -/
structure Name (n : Bytes) : Prop where
  nonempty : n ≠ []
  plain : ∀ c ∈ n, Plain c

/-- a name is passed over in state KEY -/
theorem scan_key {str n : Bytes} {i : ℕ} {s : Scan} (hn : ∀ c ∈ n, Plain c) (hs : s.parseState = .key)
    (hf : s.finish = false) : scan str n i s = .ok (s, i + n.length) := by
  induction n generalizing i with
  | nil => rfl
  | cons c n ih =>
    obtain ⟨⟨hcolon, hcr, hlf⟩, hn⟩ := List.forall_mem_cons.1 hn
    have hb : scanByte str c i s = .ok s := by simp [scanByte, hs, hcolon, hcr, hlf]
    rw [scan_step hf hb, ih hn, List.length_cons]
    congr 2; omega

/-- a value of at most 256 characters is passed over in state VALUE -/
theorem scan_value {str w : Bytes} {i : ℕ} {s : Scan} (hw : CR ∉ w) (hs : s.parseState = .value)
    (hf : s.finish = false) (hv : s.valueStart ≤ i) (hlen : i + w.length ≤ s.valueStart + 256) :
    scan str w i s = .ok (s, i + w.length) := by
  induction w generalizing i with
  | nil => rfl
  | cons c w ih =>
    have hc : c ≠ CR := fun h => hw (h ▸ List.mem_cons_self)
    rw [List.length_cons] at hlen
    have hshort : ¬ sizeDiff i s.valueStart > 255 := by rw [sizeDiff_of_le hv]; omega
    have hb : scanByte str c i s = .ok s := by simp [scanByte, hs, hc, hshort]
    rw [scan_step hf hb, ih (fun h => hw (List.mem_cons_of_mem c h)) (by omega) (by omega), List.length_cons]
    congr 2; omega

/-- a longer value is rejected -/
theorem scan_value_long {str w : Bytes} {i : ℕ} {s : Scan} (hw : CR ∉ w) (hs : s.parseState = .value)
    (hf : s.finish = false) (hv : s.valueStart ≤ i) (hi : i ≤ s.valueStart + 256)
    (hlen : s.valueStart + 256 < i + w.length) (rest : Bytes) : scan str (w ++ rest) i s = .error s := by
  induction w generalizing i with
  | nil => simp at hlen; omega
  | cons c w ih =>
    have hc : c ≠ CR := fun h => hw (h ▸ List.mem_cons_self)
    rw [List.length_cons] at hlen
    rw [List.cons_append]
    by_cases hlong : sizeDiff i s.valueStart > 255
    · exact scan_error hf (by simp [scanByte, hs, hc, hlong]) _
    · have hb : scanByte str c i s = .ok s := by simp [scanByte, hs, hc, hlong]
      rw [sizeDiff_of_le hv] at hlong
      rw [scan_step hf hb]
      exact ih (fun h => hw (List.mem_cons_of_mem c h)) (by omega) (by omega) (by omega)

/-- the state in which a value begins, after the name `n` at `j` and ": " -/
def Scan.atValue (s : Scan) (j : ℕ) (n : Bytes) : Scan :=
  { s with parseState := .value, keyEnd := j + n.length, valueStart := j + n.length + 2 }

/-- from the name to the first character of the value -/
theorem scan_name {str n : Bytes} {x : UInt8} {j : ℕ} {s : Scan} (hn : Name n) (hs : s.parseState = .key)
    (hf : s.finish = false) (hk : s.keyStart = j) (rest : Bytes) :
    scan str (n ++ COLON :: SPACE :: x :: rest) j s = scan str rest (j + n.length + 3) (s.atValue j n) := by
  rw [scan_append_ok (scan_key hn.plain hs hf)]
  rw [scan_step (t := { s with keyEnd := j + n.length, parseState := .colon }) hf
    (by simp [scanByte, hs, hk, hn.nonempty])]
  rw [scan_step (t := { s with keyEnd := j + n.length, parseState := .spacesAfterColon }) (by exact hf)
    (by simp [scanByte])]
  rw [scan_step (t := s.atValue j n) (by exact hf) (by simp [scanByte, Scan.atValue])]

/-- the state at a line boundary, after the value `w` of the name `n` at `j` -/
def Scan.stored (s : Scan) (j : ℕ) (n w : Bytes) : Scan :=
  { s.atValue j n with
    parseState := .lf
    valueEnd := j + n.length + 2 + w.length
    headers := Function.update s.headers n (some w)
    nowReadLineBegin := j + n.length + 2 + w.length + 1 }

/-- the line that stores `n` with the value `w` -/
def line (n w : Bytes) : Bytes := n ++ COLON :: SPACE :: (w ++ [CR, LF])

@[simp] theorem line_length (n w : Bytes) : (line n w).length = n.length + 2 + w.length + 2 := by
  simp [line]; omega

/-- **A field is stored.** Only the first character of the value may be a CR. -/
theorem scan_line {str n w' rest : Bytes} {x : UInt8} {j : ℕ} {s : Scan} (hn : Name n) (hw : CR ∉ w')
    (hlen : (x :: w').length ≤ 256) (hs : s.parseState = .key) (hf : s.finish = false) (hk : s.keyStart = j)
    (hstr : str.drop j = line n (x :: w') ++ rest) :
    scan str (line n (x :: w')) j s = .ok (s.stored j n (x :: w'), j + (line n (x :: w')).length) := by
  have hkey : slice str j (j + n.length) = n := by
    apply slice_of_drop (COLON :: SPACE :: (x :: w' ++ [CR, LF]) ++ rest)
    rw [hstr, line]; simp
  have hval : slice str (j + n.length + 2) (j + n.length + 2 + (x :: w').length) = x :: w' := by
    apply slice_of_drop ([CR, LF] ++ rest)
    have h2 : str.drop (j + (n ++ [COLON, SPACE]).length) = x :: w' ++ ([CR, LF] ++ rest) := by
      apply drop_add
      rw [hstr, line]; simp
    rw [← h2]
    congr 1; simp; omega
  rw [List.length_cons] at hlen
  have hv : (s.atValue j n).valueStart = j + n.length + 2 := rfl
  rw [line, List.cons_append, scan_name hn hs hf hk,
    scan_append_ok (scan_value hw rfl (by exact hf) (by rw [hv]; omega) (by rw [hv]; omega))]
  have hne : ¬ sizeDiff (j + n.length + 3 + w'.length) (j + n.length + 2) ≤ 0 := by
    rw [sizeDiff_of_le (by omega)]; omega
  rw [scan_step (t := { s.atValue j n with parseState := .cr, valueEnd := j + n.length + 3 + w'.length }) (by exact hf)
    (by simp [scanByte, Scan.atValue, hne])]
  have hend : j + n.length + 3 + w'.length = j + n.length + 2 + (x :: w').length := by simp; omega
  rw [hend]
  rw [scan_step (t := s.stored j n (x :: w')) (by exact hf)]
  · simp only [scan, List.length_append, List.length_cons, List.length_nil]
    congr 2; omega
  · simp only [scanByte, Scan.atValue, if_true, hk, hkey, hval, Scan.stored]

/-- a value of more than 256 characters is rejected -/
theorem scan_line_long {str n w' : Bytes} {x : UInt8} {j : ℕ} {s : Scan} (hn : Name n) (hw : CR ∉ w')
    (hlen : 256 < (x :: w').length) (hs : s.parseState = .key) (hf : s.finish = false) (hk : s.keyStart = j)
    (rest : Bytes) : ∃ e, scan str (n ++ COLON :: SPACE :: (x :: w' ++ rest)) j s = .error e := by
  rw [List.length_cons] at hlen
  have hv : (s.atValue j n).valueStart = j + n.length + 2 := rfl
  refine ⟨s.atValue j n, ?_⟩
  rw [List.cons_append, scan_name hn hs hf hk]
  exact scan_value_long (s := s.atValue j n) hw rfl hf (by rw [hv]; omega) (by rw [hv]; omega) (by rw [hv]; omega) rest

/-- without a blank after the ':' a line is rejected -/
theorem scan_line_blank {str n rest : Bytes} {c : UInt8} {j : ℕ} {s : Scan} (hn : Name n) (hc : c ≠ SPACE)
    (hs : s.parseState = .key) (hf : s.finish = false) (hk : s.keyStart = j) :
    ∃ e, scan str (n ++ COLON :: c :: rest) j s = .error e := by
  rw [scan_append_ok (scan_key hn.plain hs hf)]
  rw [scan_step (t := { s with keyEnd := j + n.length, parseState := .colon }) hf
    (by simp [scanByte, hs, hk, hn.nonempty])]
  exact ⟨_, scan_error (by exact hf) (by simp [scanByte, hc]; rfl) _⟩

/-! ## Line boundaries -/

/-- headers_ after storing the pairs in order -/
def store (headers : Headers) (pairs : List (Bytes × Bytes)) : Headers :=
  pairs.foldl (fun m p => Function.update m p.1 (some p.2)) headers

/-- at a line boundary: state LF, and now_read_line_begin at the last character -/
structure AtLine (s : Scan) (i : ℕ) (headers : Headers) : Prop where
  parseState : s.parseState = .lf
  finish : s.finish = false
  lineBegin : s.nowReadLineBegin + 1 = i
  headers : s.headers = headers

/-- in state KEY at the first character of a line -/
structure AtName (s : Scan) (j : ℕ) : Prop where
  parseState : s.parseState = .key
  finish : s.finish = false
  keyStart : s.keyStart = j

/-- the first character of a name takes state LF to state KEY -/
theorem AtLine.toName {s : Scan} {j : ℕ} {m : Headers} (h : AtLine s j m) (str : Bytes) {c : UInt8} (hc : Plain c)
    (rest : Bytes) :
    AtName { s with keyStart := j, parseState := .key } j ∧
      scan str (c :: rest) j s = scan str (c :: rest) j { s with keyStart := j, parseState := .key } := by
  refine ⟨⟨rfl, h.finish, rfl⟩, ?_⟩
  rw [scan_step (t := { s with keyStart := j, parseState := .key }) h.finish (by simp [scanByte, h.parseState, hc.2.1])]
  rw [scan_step (t := { s with keyStart := j, parseState := .key }) (by exact h.finish)
    (by simp [scanByte, hc.1, hc.2.1, hc.2.2])]

/-- and so does the first character after START -/
theorem start_toName {s : Scan} (hs : s.parseState = .start) (hf : s.finish = false) (j : ℕ) (str : Bytes) {c : UInt8}
    (hc : Plain c) (rest : Bytes) :
    AtName { s with keyStart := j, parseState := .key, nowReadLineBegin := j } j ∧
      scan str (c :: rest) j s =
        scan str (c :: rest) j { s with keyStart := j, parseState := .key, nowReadLineBegin := j } := by
  refine ⟨⟨rfl, hf, rfl⟩, ?_⟩
  rw [scan_step (t := { s with keyStart := j, parseState := .key, nowReadLineBegin := j }) hf
    (by simp [scanByte, hs, hc.2.1, hc.2.2])]
  rw [scan_step (t := { s with keyStart := j, parseState := .key, nowReadLineBegin := j }) (by exact hf)
    (by simp [scanByte, hc.1, hc.2.1, hc.2.2])]

/-- the blank line -/
theorem AtLine.scan_blank {s : Scan} {j : ℕ} {m : Headers} (h : AtLine s j m) (str rest : Bytes) :
    scan str (CR :: LF :: rest) j s = scan str rest (j + 2) { s with parseState := .endLf } := by
  rw [scan_step (t := { s with parseState := .endCr }) h.finish (by simp [scanByte, h.parseState])]
  rw [scan_step (t := { s with parseState := .endLf }) (by exact h.finish) (by simp [scanByte])]

/-- the state after the blank line takes one more character, whatever it is -/
theorem scan_endLf {s : Scan} (hs : s.parseState = .endLf) (hf : s.finish = false) (str rest : Bytes) (j : ℕ) :
    ∃ t, scan str rest j s = .ok (t, j + min rest.length 1) ∧ t.parseState = .endLf ∧ t.headers = s.headers := by
  cases rest with
  | nil => exact ⟨s, rfl, hs, rfl⟩
  | cons c rest =>
    refine ⟨{ s with finish := true, keyStart := j, nowReadLineBegin := j }, ?_, hs, rfl⟩
    rw [scan_step (t := { s with finish := true, keyStart := j, nowReadLineBegin := j }) hf (by simp [scanByte, hs]),
      scan_finish rfl]
    simp

/-- lines that parseHeaders stores as these names and values -/
inductive Lines : Bytes → List (Bytes × Bytes) → Prop where
  | nil : Lines [] []
  | cons {n w' text : Bytes} {x : UInt8} {pairs : List (Bytes × Bytes)} (hn : Name n) (hw : CR ∉ w')
      (hlen : (x :: w').length ≤ 256) (h : Lines text pairs) :
      Lines (line n (x :: w') ++ text) ((n, x :: w') :: pairs)

theorem Lines.names {text : Bytes} {pairs : List (Bytes × Bytes)} (h : Lines text pairs) : ∀ p ∈ pairs, Name p.1 := by
  induction h with
  | nil => exact fun p hp => absurd hp List.not_mem_nil
  | cons hn _ _ _ ih => exact List.forall_mem_cons.2 ⟨hn, ih⟩

/-- one line from its first character on -/
theorem AtName.scan_line {s : Scan} {j : ℕ} (hs : AtName s j) {str n w' rest : Bytes} {x : UInt8} (hn : Name n)
    (hw : CR ∉ w') (hlen : (x :: w').length ≤ 256) (hstr : str.drop j = line n (x :: w') ++ rest) :
    ∃ t, scan str (line n (x :: w')) j s = .ok (t, j + (line n (x :: w')).length) ∧
      AtLine t (j + (line n (x :: w')).length) (store s.headers [(n, x :: w')]) := by
  refine ⟨_, HttpData.scan_line hn hw hlen hs.parseState hs.finish hs.keyStart hstr, ⟨rfl, hs.finish, ?_, rfl⟩⟩
  simp only [Scan.stored, line_length]; omega

/-- the first character of a line is that of its name -/
theorem Name.cons {n : Bytes} (hn : Name n) (rest : Bytes) : ∃ c tail, Plain c ∧ n ++ rest = c :: tail := by
  rcases n with _ | ⟨c, n⟩
  · exact absurd rfl hn.nonempty
  · exact ⟨c, _, hn.plain c List.mem_cons_self, rfl⟩

/-- **Stored lines**, from a line boundary to the next. -/
theorem Lines.scan {text : Bytes} {pairs : List (Bytes × Bytes)} (h : Lines text pairs) {str rest : Bytes} {j : ℕ}
    {s : Scan} {m : Headers} (hs : AtLine s j m) (hstr : str.drop j = text ++ rest) :
    ∃ t, HttpData.scan str text j s = .ok (t, j + text.length) ∧ AtLine t (j + text.length) (store m pairs) := by
  induction h generalizing j s m with
  | nil => exact ⟨s, rfl, hs⟩
  | @cons n w' text x pairs hn hw hlen _ ih =>
    obtain ⟨c, tail, hc, hcons⟩ : ∃ c tail, Plain c ∧ line n (x :: w') ++ text = c :: tail := by
      rw [line, List.append_assoc]; exact hn.cons _
    obtain ⟨hname, heq⟩ := hs.toName str hc tail
    rw [← hcons] at heq
    rw [List.append_assoc] at hstr
    obtain ⟨t, ht, hline⟩ := hname.scan_line hn hw hlen hstr
    obtain ⟨u, hu, hend⟩ := ih hline (drop_add hstr)
    refine ⟨u, ?_, ?_⟩
    · rw [heq, scan_append_ok ht, hu, List.length_append, Nat.add_assoc]
    · rw [List.length_append, ← Nat.add_assoc, ← hs.headers]; exact hend

/-- the same from the first character of the first line -/
theorem Lines.scan_atName {text : Bytes} {pairs : List (Bytes × Bytes)} (h : Lines text pairs) (hne : text ≠ [])
    {str rest : Bytes} {j : ℕ} {s : Scan} (hs : AtName s j) (hstr : str.drop j = text ++ rest) :
    ∃ t, HttpData.scan str text j s = .ok (t, j + text.length) ∧
      AtLine t (j + text.length) (store s.headers pairs) := by
  cases h with
  | nil => exact absurd rfl hne
  | @cons n w' text x pairs hn hw hlen h =>
    rw [List.append_assoc] at hstr
    obtain ⟨t, ht, hline⟩ := hs.scan_line hn hw hlen hstr
    obtain ⟨u, hu, hend⟩ := h.scan hline (drop_add hstr)
    refine ⟨u, ?_, ?_⟩
    · rw [scan_append_ok ht, hu, List.length_append, Nat.add_assoc]
    · rw [List.length_append, ← Nat.add_assoc]; exact hend

/-- a line that parseHeaders rejects, with whatever follows it -/
inductive BadLine : Bytes → Prop where
  | blank {n rest : Bytes} {c : UInt8} (hn : Name n) (hc : c ≠ SPACE) : BadLine (n ++ COLON :: c :: rest)
  | long {n w' rest : Bytes} {x : UInt8} (hn : Name n) (hw : CR ∉ w') (hlen : 256 < (x :: w').length) :
      BadLine (n ++ COLON :: SPACE :: (x :: w' ++ rest))

theorem BadLine.cons {bad : Bytes} (h : BadLine bad) : ∃ c tail, Plain c ∧ bad = c :: tail := by
  cases h with
  | blank hn _ => exact hn.cons _
  | long hn _ _ => exact hn.cons _

theorem BadLine.scan_atName {bad : Bytes} (h : BadLine bad) {str : Bytes} {j : ℕ} {s : Scan} (hs : AtName s j) :
    ∃ e, scan str bad j s = .error e := by
  cases h with
  | blank hn hc => exact scan_line_blank hn hc hs.parseState hs.finish hs.keyStart
  | long hn hw hlen => exact scan_line_long hn hw hlen hs.parseState hs.finish hs.keyStart _

/-- **Rejected lines**, after stored ones. -/
theorem BadLine.scan_after {text bad : Bytes} {pairs : List (Bytes × Bytes)} (h : BadLine bad) (hl : Lines text pairs)
    {str : Bytes} {j : ℕ} {s : Scan} (hs : AtName s j) (hstr : str.drop j = text ++ bad) :
    ∃ e, scan str (text ++ bad) j s = .error e := by
  by_cases hne : text = []
  · subst hne; exact h.scan_atName hs
  · obtain ⟨t, ht, hline⟩ := hl.scan_atName hne hs hstr
    obtain ⟨c, tail, hc, rfl⟩ := h.cons
    obtain ⟨hname, heq⟩ := hline.toName str hc tail
    rw [scan_append_ok ht, heq]
    exact h.scan_atName hname

/-! ## The lines of a request -/

/-- a field: its name, and the text between the ':' and CR LF -/
abbrev Field := Bytes × Bytes

def fieldBytes (f : Field) : Bytes := f.1 ++ COLON :: (f.2 ++ [CR, LF])

/-- all fields and the blank line -/
def blockBytes (fields : List Field) : Bytes := fields.flatMap fieldBytes ++ [CR, LF]

/-- a name without ':' and line breaks, and a text without CR -/
structure FieldOk (f : Field) : Prop where
  name : Name f.1
  rest : CR ∉ f.2

/-- The names and values that the lines store, and whether the blank line is still to come after them; none if a line is
rejected. After "name: " the value begins with the CR LF of its own line and takes in the next line. -/
def absorb : List Field → Option (List (Bytes × Bytes) × Bool)
  | [] => some ([], true)
  | (_, []) :: _ => none
  | (n, c :: x :: w) :: fields =>
    if c = SPACE ∧ (x :: w).length ≤ 256 then (absorb fields).map fun p => ((n, x :: w) :: p.1, p.2) else none
  | [(n, [c])] => if c = SPACE then some ([(n, [CR, LF])], false) else none
  | (n, [c]) :: (n', r) :: fields =>
    let w := CR :: LF :: (n' ++ COLON :: r)
    if c = SPACE ∧ w.length ≤ 256 then (absorb fields).map fun p => ((n, w) :: p.1, p.2) else none

theorem blockBytes_cons (f : Field) (fields : List Field) :
    blockBytes (f :: fields) = fieldBytes f ++ blockBytes fields := by
  simp [blockBytes]

/-- a line has no CR before its end -/
theorem next_line_no_cr {f : Field} (h : FieldOk f) : CR ∉ LF :: (f.1 ++ COLON :: f.2) := by
  have hname : CR ∉ f.1 := fun hc => (h.name.plain CR hc).2.1 rfl
  have hrest := h.rest
  simp only [List.mem_cons, List.mem_append, not_or]
  exact ⟨by decide, hname, by decide, hrest⟩

/-- the text of the fields as stored lines, and the blank line if it is still to come -/
theorem absorb_some {fields : List Field} (hok : ∀ f ∈ fields, FieldOk f) {pairs : List (Bytes × Bytes)} {blank : Bool}
    (h : absorb fields = some (pairs, blank)) :
    ∃ text, Lines text pairs ∧ blockBytes fields = text ++ (if blank then [CR, LF] else []) ∧
      (fields ≠ [] → text ≠ []) := by
  fun_induction absorb fields generalizing pairs with
  | case1 =>
    cases h
    exact ⟨[], .nil, rfl, fun hc => absurd rfl hc⟩
  | case2 | case4 | case6 | case8 => cases h
  | case3 n c x w fields hc ih =>
    obtain ⟨hf, hok⟩ := List.forall_mem_cons.1 hok
    obtain ⟨p, hp, heq⟩ := Option.map_eq_some_iff.1 h
    cases heq
    obtain ⟨text, hlines, hblock, -⟩ := ih hok hp
    have hw : CR ∉ w := fun h => hf.rest (by simp [h])
    refine ⟨_, .cons hf.name hw hc.2 hlines, ?_, fun _ => by simp [line]⟩
    rw [blockBytes_cons, hblock, hc.1]; simp [fieldBytes, line]
  | case5 n =>
    cases h
    have hf := hok _ List.mem_cons_self
    refine ⟨_, .cons hf.name (by decide) (by decide) .nil, ?_, fun _ => by simp [line]⟩
    rw [blockBytes_cons]; simp [blockBytes, fieldBytes, line]
  | case7 n c n' r fields w hc ih =>
    obtain ⟨hf, hf', hok⟩ := by simpa only [List.forall_mem_cons] using hok
    obtain ⟨p, hp, heq⟩ := Option.map_eq_some_iff.1 h
    cases heq
    obtain ⟨text, hlines, hblock, -⟩ := ih hok hp
    have hw : CR ∉ LF :: (n' ++ COLON :: r) := next_line_no_cr hf'
    refine ⟨_, .cons hf.name hw hc.2 hlines, ?_, fun _ => by simp [line]⟩
    rw [blockBytes_cons, blockBytes_cons, hblock, hc.1]; simp [fieldBytes, line]

theorem absorb_none {fields : List Field} (hok : ∀ f ∈ fields, FieldOk f) (h : absorb fields = none) :
    ∃ text bad pairs, Lines text pairs ∧ BadLine bad ∧ blockBytes fields = text ++ bad := by
  fun_induction absorb fields with
  | case1 => cases h
  | case2 n fields =>
    have hf := hok _ List.mem_cons_self
    refine ⟨[], n ++ COLON :: CR :: (LF :: blockBytes fields), [], .nil, .blank hf.name (by decide), ?_⟩
    rw [blockBytes_cons]; simp [fieldBytes]
  | case3 n c x w fields hc ih =>
    obtain ⟨hf, hok⟩ := List.forall_mem_cons.1 hok
    obtain ⟨text, bad, pairs, hlines, hbad, hblock⟩ := ih hok (Option.map_eq_none_iff.1 h)
    have hw : CR ∉ w := fun h => hf.rest (by simp [h])
    refine ⟨_, bad, _, .cons hf.name hw hc.2 hlines, hbad, ?_⟩
    rw [blockBytes_cons, hblock, hc.1]; simp [fieldBytes, line]
  | case4 n c x w fields hc =>
    have hf := hok _ List.mem_cons_self
    have hw : CR ∉ w := fun h => hf.rest (by simp [h])
    refine ⟨[], n ++ COLON :: c :: (x :: w ++ (CR :: LF :: blockBytes fields)), [], .nil, ?_, ?_⟩
    · by_cases hs : c = SPACE
      · rw [hs]; exact .long hf.name hw (lt_of_not_ge fun hle => hc ⟨hs, hle⟩)
      · exact .blank hf.name hs
    · rw [blockBytes_cons]; simp [fieldBytes]
  | case5 => cases h
  | case6 n c hc =>
    have hf := hok _ List.mem_cons_self
    refine ⟨[], n ++ COLON :: c :: (CR :: LF :: blockBytes []), [], .nil, .blank hf.name hc, ?_⟩
    rw [blockBytes_cons]; simp [fieldBytes]
  | case7 n c n' r fields w hc ih =>
    obtain ⟨hf, hf', hok⟩ := by simpa only [List.forall_mem_cons] using hok
    obtain ⟨text, bad, pairs, hlines, hbad, hblock⟩ := ih hok (Option.map_eq_none_iff.1 h)
    refine ⟨_, bad, _, .cons hf.name (next_line_no_cr hf') hc.2 hlines, hbad, ?_⟩
    rw [blockBytes_cons, blockBytes_cons, hblock, hc.1]; simp [fieldBytes, line]
  | case8 n c n' r fields w hc =>
    obtain ⟨hf, hf', -⟩ := by simpa only [List.forall_mem_cons] using hok
    refine ⟨[], n ++ COLON :: c :: (w ++ (CR :: LF :: blockBytes fields)), [], .nil, ?_, ?_⟩
    · by_cases hs : c = SPACE
      · rw [hs]; exact .long hf.name (next_line_no_cr hf') (lt_of_not_ge fun hle => hc ⟨hs, hle⟩)
      · exact .blank hf.name hs
    · rw [blockBytes_cons, blockBytes_cons]; simp [fieldBytes, w]

/-! ## A whole header block -/

/-- parseHeaders is to read `x`, the text from the first field on, from index `j`: behind the line feed of the request
line, or in state KEY once that is cut off -/
inductive AtText (h : HttpData) (x : Bytes) : ℕ → Prop where
  | start (hs : h.parseState = .start) (hbuf : h.inBuffer = LF :: x) : AtText h x 1
  | key (hs : h.parseState = .key) (hbuf : h.inBuffer = x) : AtText h x 0

/-- the loop at the first character of the first name -/
def Scan.firstName (headers : Headers) (j : ℕ) : Scan := ⟨.key, headers, j, 0, 0, 0, j, false⟩

theorem firstName_atName (headers : Headers) (j : ℕ) : AtName (.firstName headers j) j := ⟨rfl, rfl, rfl⟩

theorem AtText.drop {h : HttpData} {x : Bytes} {j : ℕ} (ht : AtText h x j) : h.inBuffer.drop j = x := by
  cases ht with
  | start _ hbuf => rw [hbuf]; rfl
  | key _ hbuf => exact hbuf

/-- both ways lead to the first character of the first name -/
theorem AtText.scan {h : HttpData} {c : UInt8} {tail : Bytes} {j : ℕ} (ht : AtText h (c :: tail) j) (hc : Plain c) :
    HttpData.scan h.inBuffer h.inBuffer 0 (.start h.parseState h.headers) =
      HttpData.scan h.inBuffer (c :: tail) j (.firstName h.headers j) := by
  cases ht with
  | start hs hbuf =>
    obtain ⟨-, heq⟩ := start_toName (s := .start h.parseState h.headers) hs rfl 1 h.inBuffer hc tail
    conv_lhs => arg 2; rw [hbuf]
    rw [scan_step (t := .start h.parseState h.headers) rfl (by simp [scanByte, Scan.start, hs])]
    exact heq
  | key hs hbuf =>
    conv_lhs => arg 2; rw [hbuf]
    rw [hs]; rfl

theorem Lines.cons_of_ne {text : Bytes} {pairs : List (Bytes × Bytes)} (h : Lines text pairs) (hne : text ≠ [])
    (rest : Bytes) : ∃ c tail, Plain c ∧ text ++ rest = c :: tail := by
  cases h with
  | nil => exact absurd rfl hne
  | cons hn _ _ _ => rw [List.append_assoc, line, List.append_assoc]; exact hn.cons _

theorem Lines.getLast {text : Bytes} {pairs : List (Bytes × Bytes)} (h : Lines text pairs) (hne : text ≠ []) :
    ∃ a, text = a ++ [LF] := by
  induction h with
  | nil => exact absurd rfl hne
  | @cons n w' text x pairs _ _ _ _ ih =>
    by_cases htext : text = []
    · exact ⟨n ++ COLON :: SPACE :: (x :: w' ++ [CR]), by rw [htext]; simp [line]⟩
    · obtain ⟨a, ha⟩ := ih htext
      exact ⟨line n (x :: w') ++ a, by rw [ha, List.append_assoc]⟩

/-- the stored lines of a block, from the first character on -/
theorem AtText.scan_lines {h : HttpData} {text rest : Bytes} {pairs : List (Bytes × Bytes)} {j : ℕ}
    (hlines : Lines text pairs) (hne : text ≠ []) (ht : AtText h (text ++ rest) j) :
    ∃ t, HttpData.scan h.inBuffer text j (.firstName h.headers j) = .ok (t, j + text.length) ∧
      HttpData.scan h.inBuffer h.inBuffer 0 (.start h.parseState h.headers) =
        HttpData.scan h.inBuffer rest (j + text.length) t ∧
      AtLine t (j + text.length) (store h.headers pairs) := by
  obtain ⟨t, hscan, hline⟩ := hlines.scan_atName hne (firstName_atName h.headers j) ht.drop
  obtain ⟨c, tail, hc, hcons⟩ := hlines.cons_of_ne hne rest
  rw [hcons] at ht
  have heq := ht.scan hc
  rw [← hcons] at heq
  exact ⟨t, hscan, heq.trans (scan_append_ok hscan), hline⟩

/-- **An accepted block.** parseHeaders takes the fields and the blank line, and with them the first byte of whatever
follows. -/
theorem parseHeaders_block (h : HttpData) {fields : List Field} {pairs : List (Bytes × Bytes)} {post : Bytes}
    {j : ℕ} (hok : ∀ f ∈ fields, FieldOk f) (hne : fields ≠ []) (hab : absorb fields = some (pairs, true))
    (ht : AtText h (blockBytes fields ++ post) j) :
    h.parseHeaders = (.success, { h with
      inBuffer := post.tail, parseState := .endLf, headers := store h.headers pairs }) := by
  obtain ⟨text, hlines, hblock, htext⟩ := absorb_some hok hab
  rw [hblock, if_pos rfl, List.append_assoc] at ht
  obtain ⟨t, -, heq, hline⟩ := ht.scan_lines hlines (htext hne)
  obtain ⟨u, hu, hustate, huheaders⟩ := scan_endLf (s := { t with parseState := .endLf }) rfl hline.finish h.inBuffer post
    (j + text.length + 2)
  have hblank : scan h.inBuffer ([CR, LF] ++ post) (j + text.length) t =
      .ok (u, j + text.length + 2 + min post.length 1) := by
    rw [List.cons_append, List.cons_append, List.nil_append, hline.scan_blank, hu]
  have hleft : h.inBuffer.drop (j + text.length + 2 + min post.length 1) = post.tail := by
    rw [Nat.add_assoc, ← List.drop_drop, drop_add ht.drop]
    cases post with
    | nil => rfl
    | cons d post => simp [Nat.add_comm 2]
  have hu' : u.headers = store h.headers pairs := huheaders.trans hline.headers
  rw [parseHeaders, heq, hblank]
  simp only [hustate, if_true, hleft, hu']

/-- **A block without its blank line.** The last value took it in; the line feed stays in the buffer. -/
theorem parseHeaders_open (h : HttpData) {fields : List Field} {pairs : List (Bytes × Bytes)} {j : ℕ}
    (hok : ∀ f ∈ fields, FieldOk f) (hne : fields ≠ []) (hab : absorb fields = some (pairs, false))
    (ht : AtText h (blockBytes fields) j) :
    h.parseHeaders = (.again, { h with
      inBuffer := [LF], parseState := .lf, headers := store h.headers pairs }) := by
  obtain ⟨text, hlines, hblock, htext⟩ := absorb_some hok hab
  rw [hblock, if_neg Bool.false_ne_true] at ht
  obtain ⟨t, -, heq, hline⟩ := ht.scan_lines hlines (htext hne)
  obtain ⟨a, rfl⟩ := hlines.getLast (htext hne)
  have hleft : h.inBuffer.drop t.nowReadLineBegin = [LF] := by
    have hbegin : t.nowReadLineBegin = j + a.length := by
      have := hline.lineBegin
      rw [List.length_append, List.length_singleton] at this
      omega
    rw [hbegin]
    exact drop_add (x := a) (by rw [ht.drop, List.append_nil])
  rw [parseHeaders, heq]
  simp only [scan, hline.parseState, hleft, hline.headers]
  rfl

/-- **A rejected block.** -/
theorem parseHeaders_reject (h : HttpData) {fields : List Field} {j : ℕ} (hok : ∀ f ∈ fields, FieldOk f)
    (hab : absorb fields = none) (ht : AtText h (blockBytes fields) j) :
    ∃ p m, h.parseHeaders = (.error, { h with parseState := p, headers := m }) := by
  obtain ⟨text, bad, pairs, hlines, hbad, hblock⟩ := absorb_none hok hab
  obtain ⟨c, tail, hc, hcons⟩ : ∃ c tail, Plain c ∧ blockBytes fields = c :: tail := by
    by_cases hne : text = []
    · rw [hblock, hne]; exact hbad.cons
    · rw [hblock]; exact hlines.cons_of_ne hne bad
  obtain ⟨e, he⟩ := hbad.scan_after hlines (firstName_atName h.headers j) (ht.drop.trans hblock)
  have heq := (hcons ▸ ht).scan hc
  rw [← hcons, hblock, he] at heq
  exact ⟨e.parseState, e.headers, by rw [parseHeaders, heq]⟩

end HttpData

end Glacier
