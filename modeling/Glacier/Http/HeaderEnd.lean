/-
When parseHeaders waits for more, although the empty line is there.

State START passes over any line break, and the state after ": " takes any byte as the first character of the value, a
CR too. An empty line that comes directly after the request line, or after an empty value, is not seen as one.
- `Hangs`: the texts behind a request line that end without an end of the header fields: the fields as the loop takes
  them, and an unfinished one.
- `parseHeaders_again_iff`: from START, parseHeaders returns PARSE_HEADER_AGAIN on exactly these texts.
- `complete_request_iff`: a buffer with a request line and an empty line is accepted or rejected exactly when what
  follows the request line does not hang; and in a text that hangs every empty line stands in one of the two places.
- `bare_request_hangs`: a request line and an empty line.
-/
import Glacier.Http.HeaderScan

namespace Glacier

open Cxx

namespace HttpData

/-! ## The fields as the loop takes them -/

/-- a name: its first character is any that START, or the state behind a field, does not pass over -/
def TakesName (behindField : Bool) (n : Bytes) : Prop :=
  ∃ c k, n = c :: k ∧ c ≠ CR ∧ (behindField = false → c ≠ LF) ∧ ∀ b ∈ k, Plain b

/-- a value of at most 256 characters: its first character may be anything, also a CR -/
def TakesValue (v : Bytes) : Prop := ∃ x w, v = x :: w ∧ CR ∉ w ∧ w.length ≤ 255

/-- line breaks, then fields; the flag says whether there are fields -/
inductive Fields : Bool → Bytes → Prop where
  | breaks (skip : Bytes) (h : ∀ c ∈ skip, c = LF ∨ c = CR) : Fields false skip
  | field {any : Bool} {b n v : Bytes} (hb : Fields any b) (hn : TakesName any n) (hv : TakesValue v) :
    Fields true (b ++ line n v)

/-- a text that ends behind the fields, in the empty line, or in a field -/
inductive Hangs : Bytes → Prop where
  | boundary {any : Bool} {b : Bytes} (hb : Fields any b) : Hangs b
  | cr {b : Bytes} (hb : Fields true b) : Hangs (b ++ [CR])
  | field {any : Bool} {b n v tail : Bytes} (hb : Fields any b) (hn : TakesName any n) (hv : TakesValue v)
    (htail : tail <+: line n v) : Hangs (b ++ tail)

/-! ## What the loop has passed -/

/-- the text behind which the loop stands in this state -/
def Passed (s : Scan) (text : Bytes) : Prop :=
  match s.parseState with
  | .start => Fields false text
  | .key => ∃ any b n, Fields any b ∧ TakesName any n ∧ text = b ++ n
  | .colon => ∃ any b n, Fields any b ∧ TakesName any n ∧ text = b ++ n ++ [COLON]
  | .spacesAfterColon => ∃ any b n, Fields any b ∧ TakesName any n ∧ text = b ++ n ++ [COLON, SPACE]
  | .value => ∃ any b n v, Fields any b ∧ TakesName any n ∧ TakesValue v ∧ text = b ++ n ++ [COLON, SPACE] ++ v ∧
      s.valueStart + v.length = text.length
  | .cr => ∃ any b n v, Fields any b ∧ TakesName any n ∧ TakesValue v ∧ text = b ++ n ++ [COLON, SPACE] ++ v ++ [CR]
  | .lf => Fields true text
  | .endCr => ∃ b, Fields true b ∧ text = b ++ [CR]
  | .endLf => True

/-- line breaks, then these fields -/
inductive FieldsOf : Bool → Bytes → List (Bytes × Bytes) → Prop where
  | breaks (skip : Bytes) (h : ∀ c ∈ skip, c = LF ∨ c = CR) : FieldsOf false skip []
  | field {any : Bool} {b n v : Bytes} {fs : List (Bytes × Bytes)} (hb : FieldsOf any b fs) (hn : TakesName any n)
    (hv : TakesValue v) : FieldsOf true (b ++ line n v) (fs ++ [(n, v)])

theorem FieldsOf.fields {any : Bool} {b : Bytes} {fs : List (Bytes × Bytes)} (h : FieldsOf any b fs) : Fields any b := by
  induction h with
  | breaks skip h => exact .breaks skip h
  | field _ hn hv ih => exact .field ih hn hv

/-- what the turn that begins in this state stores -/
def stores (str : Bytes) (s : Scan) : List (Bytes × Bytes) :=
  if s.parseState = .cr then [(slice str s.keyStart s.keyEnd, slice str s.valueStart s.valueEnd)] else []

/-- the names and values that the loop stores, in order -/
def scanStores (str : Bytes) : Bytes → ℕ → Scan → List (Bytes × Bytes)
  | [], _, _ => []
  | c :: rest, i, s =>
    if s.finish then []
    else
      match scanByte str c i s with
      | .error _ => []
      | .ok t => stores str s ++ scanStores str rest (i + 1) t

/-- the text behind which the loop stands in this state, having stored these fields -/
def Stands (s : Scan) (text : Bytes) (fs : List (Bytes × Bytes)) : Prop :=
  match s.parseState with
  | .start => FieldsOf false text fs
  | .key => ∃ any b n, FieldsOf any b fs ∧ TakesName any n ∧ text = b ++ n ∧ s.keyStart = b.length
  | .colon => ∃ any b n, FieldsOf any b fs ∧ TakesName any n ∧ text = b ++ n ++ [COLON] ∧ s.keyStart = b.length ∧
      s.keyEnd = (b ++ n).length
  | .spacesAfterColon => ∃ any b n, FieldsOf any b fs ∧ TakesName any n ∧ text = b ++ n ++ [COLON, SPACE] ∧
      s.keyStart = b.length ∧ s.keyEnd = (b ++ n).length
  | .value => ∃ any b n v, FieldsOf any b fs ∧ TakesName any n ∧ TakesValue v ∧ text = b ++ n ++ [COLON, SPACE] ++ v ∧
      s.keyStart = b.length ∧ s.keyEnd = (b ++ n).length ∧ s.valueStart = (b ++ n ++ [COLON, SPACE]).length
  | .cr => ∃ any b n v, FieldsOf any b fs ∧ TakesName any n ∧ TakesValue v ∧
      text = b ++ n ++ [COLON, SPACE] ++ v ++ [CR] ∧ s.keyStart = b.length ∧ s.keyEnd = (b ++ n).length ∧
      s.valueStart = (b ++ n ++ [COLON, SPACE]).length ∧ s.valueEnd = (b ++ n ++ [COLON, SPACE] ++ v).length
  | .lf => FieldsOf true text fs
  | .endCr => ∃ b, FieldsOf true b fs ∧ text = b ++ [CR]
  | .endLf => ∃ b tail, FieldsOf true b fs ∧ text = b ++ CR :: LF :: tail

theorem Stands.passed {s : Scan} {text : Bytes} {fs : List (Bytes × Bytes)} (h : Stands s text fs) : Passed s text := by
  unfold Stands at h
  unfold Passed
  cases hs : s.parseState with
  | start | lf => simp only [hs] at h ⊢; exact h.fields
  | key =>
    simp only [hs] at h ⊢
    obtain ⟨any, b, n, hb, hn, htext, -⟩ := h
    exact ⟨any, b, n, hb.fields, hn, htext⟩
  | colon | spacesAfterColon =>
    simp only [hs] at h ⊢
    obtain ⟨any, b, n, hb, hn, htext, -⟩ := h
    exact ⟨any, b, n, hb.fields, hn, htext⟩
  | value =>
    simp only [hs] at h ⊢
    obtain ⟨any, b, n, v, hb, hn, hv, htext, -, -, hstart⟩ := h
    exact ⟨any, b, n, v, hb.fields, hn, hv, htext, by rw [hstart, htext, @List.length_append _ _ v]⟩
  | cr =>
    simp only [hs] at h ⊢
    obtain ⟨any, b, n, v, hb, hn, hv, htext, -⟩ := h
    exact ⟨any, b, n, v, hb.fields, hn, hv, htext⟩
  | endCr =>
    simp only [hs] at h ⊢
    obtain ⟨b, hb, htext⟩ := h
    exact ⟨b, hb.fields, htext⟩
  | endLf => trivial

theorem slice_append (a b c : Bytes) : slice (a ++ b ++ c) a.length (a ++ b).length = b := by
  rw [List.length_append]
  exact slice_of_drop c (by rw [List.append_assoc, List.drop_left])

/-- one turn of the loop, at the character behind the text -/
theorem stands_step {str text rest : Bytes} {c : UInt8} {fs : List (Bytes × Bytes)} {s t : Scan}
    (hstr : str = text ++ c :: rest) (h : Stands s text fs) (hst : scanByte str c text.length s = .ok t) :
    Stands t (text ++ [c]) (fs ++ stores str s) := by
  unfold scanByte at hst
  unfold Stands at h
  unfold stores
  cases hs : s.parseState with
  | start =>
    simp only [hs, reduceCtorEq, if_false, List.append_nil] at h hst ⊢
    split_ifs at hst with hc
    · cases hst
      cases h with
      | breaks _ hskip =>
        simp only [Stands, hs]
        refine .breaks _ ?_
        intro d hd
        rcases List.mem_append.1 hd with hd | hd
        · exact hskip d hd
        · rw [List.mem_singleton.1 hd]; exact hc
    · cases hst
      obtain ⟨hlf, hcr⟩ := not_or.1 hc
      exact ⟨false, text, [c], h, ⟨c, [], rfl, hcr, fun _ => hlf, by simp⟩, rfl, rfl⟩
  | key =>
    simp only [hs, reduceCtorEq, if_false, List.append_nil] at h hst ⊢
    obtain ⟨any, b, n, hb, hn, rfl, hstart⟩ := h
    split_ifs at hst with hcolon hempty hbreak
    · cases hst
      exact ⟨any, b, n, hb, hn, by rw [hcolon], hstart, rfl⟩
    · cases hst
      obtain ⟨hlf, hcr⟩ := not_or.1 hbreak
      obtain ⟨d, k, rfl, hd, hd', hk⟩ := hn
      simp only [Stands, hs]
      refine ⟨any, b, d :: k ++ [c], hb, ⟨d, k ++ [c], rfl, hd, hd', ?_⟩, by simp, hstart⟩
      intro e he
      rcases List.mem_append.1 he with he | he
      · exact hk e he
      · rw [List.mem_singleton.1 he]; exact ⟨hcolon, hcr, hlf⟩
  | colon =>
    simp only [hs, reduceCtorEq, if_false, List.append_nil] at h hst ⊢
    obtain ⟨any, b, n, hb, hn, rfl, hkey⟩ := h
    split_ifs at hst with hspace
    cases hst
    exact ⟨any, b, n, hb, hn, by rw [hspace]; simp, hkey⟩
  | spacesAfterColon =>
    simp only [hs, reduceCtorEq, if_false, List.append_nil] at h hst ⊢
    obtain ⟨any, b, n, hb, hn, rfl, hstart, hend⟩ := h
    cases hst
    exact ⟨any, b, n, [c], hb, hn, ⟨c, [], rfl, by simp, by simp⟩, rfl, hstart, hend, rfl⟩
  | value =>
    simp only [hs, reduceCtorEq, if_false, List.append_nil] at h hst ⊢
    obtain ⟨any, b, n, v, hb, hn, hv, rfl, hstart, hend, hvalue⟩ := h
    have hlen : (b ++ n ++ [COLON, SPACE] ++ v).length = s.valueStart + v.length := by rw [hvalue, List.length_append]
    split_ifs at hst with hcr hempty hlong
    · cases hst
      exact ⟨any, b, n, v, hb, hn, hv, by rw [hcr], hstart, hend, hvalue, rfl⟩
    · cases hst
      rw [sizeDiff_of_le (by omega), hlen] at hlong
      obtain ⟨x, w, rfl, hw, -⟩ := hv
      simp only [Stands, hs]
      refine ⟨any, b, n, x :: w ++ [c], hb, hn, ⟨x, w ++ [c], rfl, ?_, ?_⟩, by simp, hstart, hend, hvalue⟩
      · simp [hw, Ne.symm hcr]
      · simp only [List.length_append, List.length_cons, List.length_nil] at hlong ⊢; omega
  | cr =>
    simp only [hs, if_true] at h hst ⊢
    obtain ⟨any, b, n, v, hb, hn, hv, rfl, hstart, hend, hvalue, hvend⟩ := h
    split_ifs at hst with hlf
    cases hst
    have htext : b ++ n ++ [COLON, SPACE] ++ v ++ [CR] ++ [c] = b ++ line n v := by rw [hlf]; simp [line]
    have hname : slice str s.keyStart s.keyEnd = n := by
      rw [hstart, hend, hstr]
      simpa using slice_append b n ([COLON, SPACE] ++ v ++ [CR] ++ c :: rest)
    have hval : slice str s.valueStart s.valueEnd = v := by
      rw [hvalue, hvend, hstr]
      simpa using slice_append (b ++ n ++ [COLON, SPACE]) v ([CR] ++ c :: rest)
    rw [htext, hname, hval]
    exact FieldsOf.field hb hn hv
  | lf =>
    simp only [hs, reduceCtorEq, if_false, List.append_nil] at h hst ⊢
    split_ifs at hst with hcr
    · cases hst
      exact ⟨text, h, by rw [hcr]⟩
    · cases hst
      exact ⟨true, text, [c], h, ⟨c, [], rfl, hcr, by simp, by simp⟩, rfl, rfl⟩
  | endCr =>
    simp only [hs, reduceCtorEq, if_false, List.append_nil] at h hst ⊢
    obtain ⟨b, hb, rfl⟩ := h
    split_ifs at hst with hlf
    cases hst
    exact ⟨b, [], hb, by rw [hlf]; simp⟩
  | endLf =>
    simp only [hs, reduceCtorEq, if_false, List.append_nil] at h hst ⊢
    obtain ⟨b, tail, hb, rfl⟩ := h
    cases hst
    simp only [Stands]
    exact ⟨b, tail ++ [c], hb, by simp⟩

/-- only state END_LF ends the loop -/
theorem scanByte_finish {str : Bytes} {c : UInt8} {i : ℕ} {s t : Scan} (hf : s.finish = false)
    (h : scanByte str c i s = .ok t) (ht : t.finish = true) : t.parseState = .endLf := by
  cases scanByte_moved h with
  | finish hs => exact hs
  | _ => exact absurd (hf.symm.trans ht) (by simp)

/-- **The loop over the rest of the text.** It takes all of it, or stops behind the empty line. -/
theorem stands_scan (text more : Bytes) {str rest : Bytes} {j : ℕ} {fs : List (Bytes × Bytes)} {s t : Scan}
    (hstr : str = text ++ rest ++ more) (h : Stands s text fs) (hf : s.finish = false)
    (hscan : scan str rest text.length s = .ok (t, j)) :
    ∃ taken left, rest = taken ++ left ∧ j = (text ++ taken).length ∧
      Stands t (text ++ taken) (fs ++ scanStores str rest text.length s) ∧
      (t.parseState ≠ .endLf → left = [] ∧ t.finish = false) := by
  induction rest generalizing text fs s with
  | nil =>
    cases hscan
    exact ⟨[], [], rfl, by simp, by simpa [scanStores] using h, fun _ => ⟨rfl, hf⟩⟩
  | cons c rest ih =>
    cases hb : scanByte str c text.length s with
    | error e => rw [scan_error hf hb] at hscan; cases hscan
    | ok u =>
      rw [scan_step hf hb] at hscan
      have hsplit : str = text ++ c :: (rest ++ more) := by rw [hstr]; simp
      have hu := stands_step hsplit h hb
      have hlen : text.length + 1 = (text ++ [c]).length := by simp
      have hstores : scanStores str (c :: rest) text.length s =
          stores str s ++ scanStores str rest (text ++ [c]).length u := by
        rw [← hlen]
        simp [scanStores, hf, hb]
      rw [hlen] at hscan
      rw [hstores, ← List.append_assoc]
      cases hfin : u.finish with
      | true =>
        have hnone : scanStores str rest (text ++ [c]).length u = [] := by cases rest <;> simp [scanStores, hfin]
        rw [scan_finish hfin] at hscan
        cases hscan
        refine ⟨[c], rest, rfl, rfl, by rw [hnone, List.append_nil]; exact hu, ?_⟩
        intro hend
        exact absurd (scanByte_finish hf hb hfin) hend
      | false =>
        obtain ⟨taken, left, hrest, hj, hstands, hend⟩ := ih (text ++ [c]) (by rw [hstr]; simp) hu hfin hscan
        exact ⟨c :: taken, left, by rw [hrest]; rfl, by simpa using hj, by simpa using hstands, hend⟩

/-- at the beginning of a call from START -/
theorem stands_start (headers : Headers) : Stands (Scan.start .start headers) [] [] := FieldsOf.breaks [] (by simp)

/-- the loop over a text that does not end it -/
theorem passed_scan (more : Bytes) {text : Bytes} {headers : Headers} {j : ℕ} {t : Scan}
    (hscan : scan (text ++ more) text 0 (Scan.start .start headers) = .ok (t, j)) (hend : t.parseState ≠ .endLf) :
    Passed t text ∧ t.finish = false := by
  obtain ⟨taken, left, htext, -, hstands, hall⟩ :=
    stands_scan [] more rfl (stands_start headers) rfl hscan
  obtain ⟨rfl, hf⟩ := hall hend
  rw [List.append_nil] at htext
  rw [htext]
  exact ⟨hstands.passed, hf⟩

/-- a text behind which the loop stands, other than its end, is one that hangs -/
theorem Passed.hangs {s : Scan} {text : Bytes} (h : Passed s text) (hend : s.parseState ≠ .endLf) : Hangs text := by
  unfold Passed at h
  have hvalue : TakesValue [0] := ⟨0, [], rfl, by simp, by simp⟩
  cases hs : s.parseState with
  | start => simp only [hs] at h; exact .boundary h
  | lf => simp only [hs] at h; exact .boundary h
  | endLf => exact absurd hs hend
  | endCr =>
    simp only [hs] at h
    obtain ⟨b, hb, rfl⟩ := h
    exact .cr hb
  | key =>
    simp only [hs] at h
    obtain ⟨any, b, n, hb, hn, rfl⟩ := h
    exact .field hb hn hvalue ⟨_, rfl⟩
  | colon =>
    simp only [hs] at h
    obtain ⟨any, b, n, hb, hn, rfl⟩ := h
    rw [List.append_assoc]
    exact .field hb hn hvalue ⟨SPACE :: [0, CR, LF], by simp [line]⟩
  | spacesAfterColon =>
    simp only [hs] at h
    obtain ⟨any, b, n, hb, hn, rfl⟩ := h
    rw [List.append_assoc]
    exact .field hb hn hvalue ⟨[0, CR, LF], by simp [line]⟩
  | value =>
    simp only [hs] at h
    obtain ⟨any, b, n, v, hb, hn, hv, rfl, -⟩ := h
    rw [List.append_assoc, List.append_assoc]
    exact .field hb hn hv ⟨[CR, LF], by simp [line]⟩
  | cr =>
    simp only [hs] at h
    obtain ⟨any, b, n, v, hb, hn, hv, rfl⟩ := h
    rw [List.append_assoc, List.append_assoc, List.append_assoc]
    exact .field hb hn hv ⟨[LF], by simp [line]⟩

/-! ## The texts that hang -/

/-- the loop stands at a line boundary: in START, or behind a field -/
structure AtBoundary (any : Bool) (s : Scan) : Prop where
  parseState : s.parseState = if any then .lf else .start
  finish : s.finish = false

/-- a field is passed, from boundary to boundary -/
theorem scan_field (str : Bytes) {n v : Bytes} {any : Bool} {i : ℕ} {s : Scan} (hs : AtBoundary any s) (hn : TakesName any n)
    (hv : TakesValue v) : ∃ t, scan str (line n v) i s = .ok (t, i + (line n v).length) ∧ AtBoundary true t := by
  obtain ⟨c, k, rfl, hcr, hlf, hk⟩ := hn
  obtain ⟨x, w, rfl, hw, hlen⟩ := hv
  obtain ⟨hstate, hf⟩ := hs
  -- the first character of the name
  obtain ⟨s1, h1, hs1, hf1, hk1⟩ : ∃ s1, scanByte str c i s = .ok s1 ∧ s1.parseState = .key ∧ s1.finish = false ∧
      s1.keyStart = i := by
    cases any with
    | false =>
      refine ⟨{ s with parseState := .key, keyStart := i, nowReadLineBegin := i }, ?_, rfl, hf, rfl⟩
      simp [scanByte, hstate, hlf rfl, hcr]
    | true =>
      refine ⟨{ s with keyStart := i, parseState := .key }, ?_, rfl, hf, rfl⟩
      simp [scanByte, hstate, hcr]
  have hkey : scan str k (i + 1) s1 = .ok (s1, i + 1 + k.length) := scan_key hk hs1 hf1
  set s2 : Scan := { s1 with keyEnd := i + 1 + k.length, parseState := .colon }
  have h2 : scanByte str COLON (i + 1 + k.length) s1 = .ok s2 := by
    have : ¬ sizeDiff (i + 1 + k.length) i ≤ 0 := by rw [sizeDiff_of_le (by omega)]; omega
    simp [scanByte, hs1, hk1, this, s2]
  set s3 : Scan := { s2 with parseState := .spacesAfterColon }
  have h3 : scanByte str SPACE (i + 1 + k.length + 1) s2 = .ok s3 := by simp [scanByte, s2, s3]
  set s4 : Scan := { s3 with parseState := .value, valueStart := i + 1 + k.length + 1 + 1 }
  have h4 : scanByte str x (i + 1 + k.length + 1 + 1) s3 = .ok s4 := by simp [scanByte, s3, s4]
  have hval : scan str w (i + 1 + k.length + 1 + 1 + 1) s4 =
      .ok (s4, i + 1 + k.length + 1 + 1 + 1 + w.length) :=
    scan_value hw rfl hf1 (by simp only [s4]; omega) (by simp only [s4]; omega)
  set e := i + 1 + k.length + 1 + 1 + 1 + w.length with he
  set s5 : Scan := { s4 with parseState := .cr, valueEnd := e }
  have h5 : scanByte str CR e s4 = .ok s5 := by
    have : ¬ sizeDiff e (i + 1 + k.length + 1 + 1) ≤ 0 := by rw [sizeDiff_of_le (by omega)]; omega
    simp [scanByte, s4, s5, this]
  set s6 : Scan := { s5 with
    parseState := .lf
    headers := Function.update s5.headers (slice str s5.keyStart s5.keyEnd) (some (slice str s5.valueStart s5.valueEnd))
    nowReadLineBegin := e + 1 }
  have h6 : scanByte str LF (e + 1) s5 = .ok s6 := by simp [scanByte, s5, s6]
  refine ⟨s6, ?_, rfl, hf1⟩
  rw [line, List.cons_append, scan_step hf h1, scan_append_ok hkey, scan_step hf1 h2, scan_step (by exact hf1) h3,
    List.cons_append, scan_step (by exact hf1) h4, scan_append_ok hval, scan_step (by exact hf1) h5,
    scan_step (by exact hf1) h6]
  simp only [scan, he, List.length_cons, List.length_append, List.length_nil]
  congr 2
  omega

theorem scan_breaks {str skip : Bytes} {i : ℕ} {s : Scan} (hs : AtBoundary false s) (h : ∀ c ∈ skip, c = LF ∨ c = CR) :
    scan str skip i s = .ok (s, i + skip.length) := by
  induction skip generalizing i with
  | nil => rfl
  | cons c skip ih =>
    obtain ⟨hc, hskip⟩ := List.forall_mem_cons.1 h
    have hb : scanByte str c i s = .ok s := by simp [scanByte, hs.parseState, hc]
    rw [scan_step hs.finish hb, ih hskip, List.length_cons]
    congr 2; omega

theorem scan_fields (str : Bytes) {b : Bytes} {any : Bool} {s : Scan} (hb : Fields any b) (hs : AtBoundary false s) :
    ∃ t, scan str b 0 s = .ok (t, b.length) ∧ AtBoundary any t := by
  induction hb with
  | breaks skip h => exact ⟨s, by rw [scan_breaks hs h, Nat.zero_add], hs⟩
  | field hb hn hv ih =>
    obtain ⟨t, ht, hat⟩ := ih
    obtain ⟨u, hu, hau⟩ := scan_field str hat hn hv
    refine ⟨u, ?_, hau⟩
    rw [scan_append_ok ht, hu, List.length_append]

/-- behind the empty line the state does not change any more -/
theorem scan_behind_end {str rest : Bytes} {i j : ℕ} {s t : Scan} (hs : s.parseState = .endLf)
    (h : scan str rest i s = .ok (t, j)) : t.parseState = .endLf := by
  cases rest with
  | nil => cases h; exact hs
  | cons c rest =>
    cases hf : s.finish with
    | true => rw [scan_finish hf] at h; cases h; exact hs
    | false =>
      rw [scan_step (t := { s with finish := true, keyStart := i, nowReadLineBegin := i }) hf (by simp [scanByte, hs]),
        scan_finish rfl] at h
      cases h
      exact hs

/-- within a field the loop neither rejects nor comes to its end -/
theorem scan_tail {str n v tail : Bytes} {any : Bool} {i : ℕ} {s : Scan} (hs : AtBoundary any s) (hn : TakesName any n)
    (hv : TakesValue v) (htail : tail <+: line n v) :
    ∃ t j, scan str tail i s = .ok (t, j) ∧ t.parseState ≠ .endLf := by
  obtain ⟨t, ht, hat⟩ := scan_field str (i := i) hs hn hv
  obtain ⟨more, hmore⟩ := htail
  rw [← hmore, scan_append] at ht
  cases hu : scan str tail i s with
  | error e => rw [hu] at ht; cases ht
  | ok p =>
    obtain ⟨u, j⟩ := p
    refine ⟨u, j, rfl, ?_⟩
    intro hend
    rw [hu] at ht
    have hstay := scan_behind_end hend (show scan str more j u = .ok (t, i + (tail ++ more).length) from ht)
    rw [hat.parseState] at hstay
    cases hstay

theorem scan_hangs (str : Bytes) {text : Bytes} {s : Scan} (h : Hangs text) (hs : AtBoundary false s) :
    ∃ t j, scan str text 0 s = .ok (t, j) ∧ t.parseState ≠ .endLf := by
  cases h with
  | @boundary any b hb =>
    obtain ⟨t, ht, hat⟩ := scan_fields str hb hs
    exact ⟨t, _, ht, by rw [hat.parseState]; cases any <;> simp⟩
  | @cr b hb =>
    obtain ⟨t, ht, hat⟩ := scan_fields str hb hs
    have hcr : scanByte str CR b.length t = .ok { t with parseState := .endCr } := by simp [scanByte, hat.parseState]
    refine ⟨{ t with parseState := .endCr }, b.length + 1, ?_, by simp⟩
    rw [scan_append_ok ht, scan_step hat.finish hcr]
    rfl
  | field hb hn hv htail =>
    obtain ⟨t, ht, hat⟩ := scan_fields str hb hs
    rw [scan_append_ok ht]
    exact scan_tail hat hn hv htail

/-- **From START, parseHeaders waits for more on exactly the texts that hang.** -/
theorem parseHeaders_again_iff {h : HttpData} (hs : h.parseState = .start) :
    h.parseHeaders.1 = .again ↔ Hangs h.inBuffer := by
  have hstart : AtBoundary false (Scan.start h.parseState h.headers) := ⟨hs, rfl⟩
  constructor
  · intro hagain
    have hdone := h.parseHeaders_cases
    generalize h.parseHeaders = r at hdone hagain
    cases hdone with
    | error _ => cases hagain
    | success _ _ => cases hagain
    | again hscan hend =>
      rw [hs] at hscan
      exact (passed_scan [] (by rwa [List.append_nil]) hend).1.hangs hend
  · intro hangs
    obtain ⟨t, j, hscan, hend⟩ := scan_hangs h.inBuffer hangs hstart
    unfold parseHeaders
    simp [hscan, hend]

/-! ## Empty lines -/

/-- the first turn of a loop that does not reject -/
theorem scan_cons_ok {str rest : Bytes} {c : UInt8} {i : ℕ} {s : Scan} {r : Scan × ℕ} (hf : s.finish = false)
    (h : scan str (c :: rest) i s = .ok r) : ∃ t, scanByte str c i s = .ok t ∧ scan str rest (i + 1) t = .ok r := by
  cases hb : scanByte str c i s with
  | error e => rw [scan_error hf hb] at h; cases h
  | ok t => exact ⟨t, rfl, by rwa [scan_step hf hb] at h⟩

/-- behind a field the empty line ends the loop -/
theorem scan_empty_line {str w : Bytes} {i j : ℕ} {s t : Scan} (hs : s.parseState = .lf) (hf : s.finish = false)
    (h : scan str (CR :: LF :: w) i s = .ok (t, j)) : t.parseState = .endLf := by
  have hcr : scanByte str CR i s = .ok { s with parseState := .endCr } := by simp [scanByte, hs]
  have hlf : scanByte str LF (i + 1) { s with parseState := .endCr } = .ok { s with parseState := .endLf } := by
    simp [scanByte]
  rw [scan_step hf hcr, scan_step (by exact hf) hlf] at h
  exact scan_behind_end rfl h

/-- an empty line that does not end the loop comes behind line breaks only, or directly behind ": " -/
theorem empty_line_of_scan {str u w : Bytes} {headers : Headers} {t : Scan} {j : ℕ}
    (hstr : str = u ++ ([CR, LF, CR, LF] ++ w)) (hscan : scan str str 0 (Scan.start .start headers) = .ok (t, j))
    (hend : t.parseState ≠ .endLf) : (∀ c ∈ u, c = LF ∨ c = CR) ∨ [COLON, SPACE] <:+ u := by
  nth_rewrite 2 [hstr] at hscan
  rw [scan_append] at hscan
  cases hu : scan str u 0 (Scan.start .start headers) with
  | error e => rw [hu] at hscan; cases hscan
  | ok p =>
    obtain ⟨x, i⟩ := p
    rw [hu] at hscan
    have hscan : scan str (CR :: LF :: CR :: LF :: w) i x = .ok (t, j) := hscan
    have hx : x.parseState ≠ .endLf := fun hx => hend (scan_behind_end hx hscan)
    obtain ⟨hpassed, hfx⟩ : Passed x u ∧ x.finish = false := passed_scan _ (by rwa [← hstr]) hx
    unfold Passed at hpassed
    obtain ⟨y, hcr, hrest⟩ := scan_cons_ok hfx hscan
    cases hs : x.parseState with
    | start =>
      simp only [hs] at hpassed
      cases hpassed with
      | breaks _ hskip => exact Or.inl hskip
    | spacesAfterColon =>
      simp only [hs] at hpassed
      obtain ⟨any, b, n, -, -, rfl⟩ := hpassed
      exact Or.inr ⟨b ++ n, rfl⟩
    | lf => exact absurd (scan_empty_line hs hfx hscan) hend
    | value =>
      -- the CR LF ends the value, and the empty line follows a field
      exfalso
      obtain ⟨hy, hfy⟩ : y.parseState = .cr ∧ y.finish = false := by
        simp only [scanByte, hs, if_true] at hcr
        split_ifs at hcr
        cases hcr
        exact ⟨rfl, hfx⟩
      obtain ⟨z, hlf, hrest⟩ := scan_cons_ok hfy hrest
      obtain ⟨hz, hfz⟩ : z.parseState = .lf ∧ z.finish = false := by
        simp only [scanByte, hy, if_true] at hlf
        cases hlf
        exact ⟨rfl, hfy⟩
      exact hend (scan_empty_line hz hfz hrest)
    | key =>
      exfalso
      simp only [scanByte, hs, if_neg (show CR ≠ COLON by decide), or_true, if_true] at hcr
      cases hcr
    | colon =>
      exfalso
      simp only [scanByte, hs, if_neg (show CR ≠ SPACE by decide)] at hcr
      cases hcr
    | cr | endCr =>
      exfalso
      simp only [scanByte, hs, if_neg (show CR ≠ LF by decide)] at hcr
      cases hcr
    | endLf => exact absurd hs hx

/-- **Every empty line of a text that hangs is passed over**: it comes behind line breaks only, where START passes over
it, or directly behind ": ", where it is taken as the beginning of a value. -/
theorem hangs_empty_line {u w : Bytes} (h : Hangs (u ++ [CR, LF, CR, LF] ++ w)) :
    (∀ c ∈ u, c = LF ∨ c = CR) ∨ [COLON, SPACE] <:+ u := by
  obtain ⟨t, j, hscan, hend⟩ := scan_hangs _ (s := Scan.start .start fun _ => none) h ⟨rfl, rfl⟩
  exact empty_line_of_scan (List.append_assoc _ _ _) hscan hend

/-! ## Requests with an empty line -/

/-- **A complete request hangs in the parser exactly when its empty lines are passed over.** For a buffer that begins
with a request line, and in which an empty line comes at or after the end of that line: running parseURI, whether it
accepts the line or not, and then parseHeaders from START ends in PARSE_HEADER_AGAIN if and only if what follows the request
line is a text that hangs, and then that empty line comes behind line breaks only or directly behind ": ". -/
theorem complete_request_iff (h : HttpData) (requestLine rest u w : Bytes) (hs : h.parseState = .start)
    (hpos : h.readpos = 0) (hcr : CR ∉ requestLine) (hbuf : h.inBuffer = requestLine ++ CR :: rest)
    (hempty : CR :: rest = u ++ [CR, LF, CR, LF] ++ w) :
    (h.parseURI.2.parseHeaders.1 ≠ .again ↔ ¬ Hangs rest) ∧
      (Hangs rest → (∀ c ∈ u, c = LF ∨ c = CR) ∨ [COLON, SPACE] <:+ u) := by
  rw [parseURI_line hcr hbuf hpos]
  refine ⟨?_, ?_⟩
  · exact not_congr (parseHeaders_again_iff (h := ({ h with inBuffer := rest } : HttpData).setRequestLine _) hs)
  · intro hangs
    cases u with
    | nil => exact Or.inl (by simp)
    | cons c u =>
      simp only [List.cons_append, List.cons.injEq] at hempty
      obtain ⟨rfl, rfl⟩ := hempty
      rcases hangs_empty_line hangs with hskip | hsuffix
      · left
        intro c hc
        rcases List.mem_cons.1 hc with rfl | hc
        · exact Or.inr rfl
        · exact hskip c hc
      · exact Or.inr (hsuffix.trans (List.suffix_cons _ _))

/-- a request with one header field -/
def oneField : HttpData := { new 5 with inBuffer := ascii "GET / HTTP/1.1\r\nHost: a\r\n\r\n" }

theorem complete_request_iff_one_field : oneField.parseURI.2.parseHeaders.1 = .success ∧
    ¬ Hangs (ascii "\nHost: a\r\n\r\n") := by
  have hsuccess : oneField.parseURI.2.parseHeaders.1 = .success := by decide +kernel
  refine ⟨hsuccess, ?_⟩
  refine (complete_request_iff oneField (ascii "GET / HTTP/1.1") (ascii "\nHost: a\r\n\r\n") (ascii "\r\nHost: a") [] rfl rfl
    (by decide +kernel) (by decide +kernel) (by decide +kernel)).1.1 ?_
  rw [hsuccess]
  decide

/-- a request without header fields -/
def bareRequest : HttpData := { new 5 with inBuffer := ascii "GET / HTTP/1.1\r\n\r\n" }

theorem bare_request_hangs : bareRequest.parseState = .start ∧ bareRequest.parseURI.1 = .success ∧
    [CR, LF, CR, LF] <:+: CR :: bareRequest.parseURI.2.inBuffer ∧
    bareRequest.parseURI.2.parseHeaders.1 = .again := by
  refine ⟨rfl, by decide +kernel, by decide +kernel, by decide +kernel⟩

end HttpData

end Glacier
