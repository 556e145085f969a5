/-
Resuming parseHeaders: a call that needs more data cuts the buffer at now_read_line_begin and keeps parse_state_, and the
next call reads the line again from there, in the old state and with all positions at 0.

Inside the first name this is harmless: the buffer then begins with the name. From the first ':' on it is not. The buffer
begins with the text before the ':' or, because now_read_line_begin is set on the line feed, with that line feed.
- `parseHeaders_blank`, `parseHeaders_name`: the calls that end before the first ':';
- `Cut`: the buffers and states that a later call leaves;
- `parseHeaders_first`: it is what remains once the first ':' has been read;
- `parseHeaders_cut`: the next call rejects the request, or stores a name that no field has, or leaves bytes in the buffer
  that no call without a cut leaves; and if it needs more data the buffer is cut again.
-/
import Glacier.Http.HeaderScan

namespace Glacier

open Cxx

namespace HttpData

/-- what a call that has passed the first ':' leaves in the buffer for each state -/
def Cut (b : Bytes) : ParseState → Prop
  | .start | .endLf => False
  | .colon | .spacesAfterColon | .value | .cr => b ≠ []
  | .key | .lf => ∃ rest, b = LF :: rest
  | .endCr => ∃ rest, b = LF :: CR :: rest

theorem Cut.ne_nil {b : Bytes} {p : ParseState} (h : Cut b p) : b ≠ [] := by
  cases p with
  | start | endLf => exact h.elim
  | colon | spacesAfterColon | value | cr => exact h
  | key | lf | endCr => obtain ⟨rest, rfl⟩ := h; simp

/-- the loop past the first ':' -/
structure Past (str : Bytes) (i : ℕ) (s : Scan) : Prop where
  begin_lt : s.nowReadLineBegin < str.length
  started : s.parseState ≠ .start
  cut : s.parseState ≠ .endLf → Cut (str.drop s.nowReadLineBegin) s.parseState
  lf : s.parseState = .lf → s.nowReadLineBegin = i ∨ s.nowReadLineBegin + 1 = i

theorem drop_ne_nil {str : Bytes} {n : ℕ} (h : n < str.length) : str.drop n ≠ [] := by
  simpa using h

theorem past_step {str : Bytes} (i : ℕ) (c : UInt8) (rest : Bytes) (s t : Scan) (hdrop : str.drop i = c :: rest)
    (h : Past str i s) (hm : Moved str c i s t) : Past str (i + 1) t := by
  have hi : i < str.length := by
    by_contra hge
    rw [List.drop_eq_nil_of_le (by omega)] at hdrop
    cases hdrop
  have hcut := h.cut
  cases hm with
  | skip hs => exact absurd hs h.started
  | first hs => exact absurd hs h.started
  | colon hs => exact ⟨h.begin_lt, by simp, fun _ => drop_ne_nil h.begin_lt, by simp⟩
  | name hs hc => exact ⟨h.begin_lt, h.started, h.cut, by simp [hs]⟩
  | blank hs => exact ⟨h.begin_lt, by simp, fun _ => drop_ne_nil h.begin_lt, by simp⟩
  | value hs => exact ⟨h.begin_lt, by simp, fun _ => drop_ne_nil h.begin_lt, by simp⟩
  | inValue hs => exact ⟨h.begin_lt, h.started, h.cut, by simp [hs]⟩
  | cr hs => exact ⟨h.begin_lt, by simp, fun _ => drop_ne_nil h.begin_lt, by simp⟩
  | lf hs hc => exact ⟨hi, by simp, fun _ => ⟨rest, by rw [hdrop, hc]⟩, fun _ => Or.inr rfl⟩
  | endCr hs hc =>
    rw [hs] at hcut
    obtain ⟨r, hr⟩ := hcut (by simp)
    refine ⟨h.begin_lt, by simp, ?_, by simp⟩
    intro _
    rcases h.lf hs with heq | heq
    · rw [heq, hdrop, hc] at hr
      cases hr
    · have hnext : str.drop (s.nowReadLineBegin + 1) = r := by rw [← List.drop_drop, hr]; rfl
      rw [heq, hdrop, hc] at hnext
      exact ⟨rest, hr.trans (by rw [hnext])⟩
  | next hs =>
    rw [hs] at hcut
    exact ⟨h.begin_lt, by simp, fun _ => hcut (by simp), by simp⟩
  | endLf hs => exact ⟨h.begin_lt, by simp, by simp, by simp⟩
  | finish hs => exact ⟨hi, h.started, fun hne => absurd hs hne, by simp [hs]⟩

/-! ## Before the first ':' -/

/-- nothing of the first name is there yet -/
theorem parseHeaders_blank {h : HttpData} (hs : h.parseState = .start) (hbuf : h.inBuffer = [] ∨ h.inBuffer = [LF]) :
    h.parseHeaders = (.again, h) := by
  have hscan : ∃ j, scan h.inBuffer h.inBuffer 0 (.start h.parseState h.headers) =
      .ok (.start h.parseState h.headers, j) := by
    rcases hbuf with hbuf | hbuf
    · exact ⟨0, by rw [hbuf]; rfl⟩
    · refine ⟨1, ?_⟩
      rw [hbuf, scan_step rfl]
      · rfl
      · simp [scanByte, Scan.start, hs]
  obtain ⟨j, hscan⟩ := hscan
  have hne : ¬ (Scan.start h.parseState h.headers).parseState = .endLf := by simp [Scan.start, hs]
  rw [parseHeaders, hscan]
  simp only [if_neg hne]
  rfl

/-- a part of the first name stays in the buffer, and the state says so -/
theorem parseHeaders_name {h : HttpData} {x : Bytes} {j : ℕ} (hx : ∀ c ∈ x, Plain c) (hne : x ≠ [])
    (ht : AtText h x j) : h.parseHeaders = (.again, { h with inBuffer := x, parseState := .key }) := by
  obtain ⟨c, tail, rfl⟩ := List.exists_cons_of_ne_nil hne
  have heq := ht.scan (hx c List.mem_cons_self)
  rw [scan_key hx rfl rfl] at heq
  rw [parseHeaders, heq]
  simp only [Scan.firstName, ht.drop]
  rfl

/-- from the first name on, a call that does not reject has cut off the line feed of the request line -/
theorem parseHeaders_length {h : HttpData} {c : UInt8} {tail : Bytes} {j : ℕ} (ht : AtText h (c :: tail) j)
    (hc : Plain c) :
    h.parseHeaders.2.inBuffer.length ≤ (c :: tail).length + if h.parseHeaders.1 = .error then 1 else 0 := by
  have hlen : h.inBuffer.length ≤ (c :: tail).length + j ∧ j ≤ 1 := by
    have hdrop := congrArg List.length ht.drop
    rw [List.length_drop] at hdrop
    cases ht <;> omega
  have hstep : ∀ (i : ℕ) (b : UInt8) (rest : Bytes) (s t : Scan), h.inBuffer.drop i = b :: rest →
      (j ≤ i ∧ j ≤ s.nowReadLineBegin) → Moved h.inBuffer b i s t → j ≤ i + 1 ∧ j ≤ t.nowReadLineBegin := by
    intro i b rest s t _ hinv hm
    cases hm with
    | first | lf | finish => exact ⟨by omega, hinv.1⟩
    | _ => exact ⟨by omega, hinv.2⟩
  rw [parseHeaders, ht.scan hc]
  cases hs : HttpData.scan h.inBuffer (c :: tail) j (.firstName h.headers j) with
  | error e => simp only [if_true]; omega
  | ok p =>
    obtain ⟨t, k⟩ := p
    obtain ⟨hk, hbegin⟩ := scan_inv (P := fun i s => j ≤ i ∧ j ≤ s.nowReadLineBegin) hstep ht.drop ⟨le_rfl, le_rfl⟩ hs
    dsimp only
    split_ifs <;> simp only [List.length_drop] <;> omega

/-! ## What a resumed call stores -/

/-- a name that no header field has: empty, or with a line feed -/
def BadKeys (m : Headers) : Prop := ∃ k, (k = [] ∨ LF ∈ k) ∧ m k ≠ none

theorem BadKeys.update {m : Headers} (h : BadKeys m) (k v : Bytes) : BadKeys (Function.update m k (some v)) := by
  obtain ⟨k', hk', hm⟩ := h
  refine ⟨k', hk', ?_⟩
  by_cases heq : k' = k
  · rw [heq, Function.update_self]; simp
  · rw [Function.update_of_ne heq]; exact hm

theorem badKeys_store {pairs : List (Bytes × Bytes)} (h : ∀ p ∈ pairs, Name p.1) :
    ¬ BadKeys (store (fun _ => none) pairs) := by
  have hfold : ∀ m : Headers, ¬ BadKeys m → ¬ BadKeys (store m pairs) := by
    induction pairs with
    | nil => exact fun m hm => hm
    | cons p pairs ih =>
      intro m hm
      obtain ⟨hp, hrest⟩ := List.forall_mem_cons.1 h
      apply ih hrest
      intro ⟨k, hk, hne⟩
      by_cases heq : k = p.1
      · rcases hk with hk | hk
        · exact hp.nonempty (heq ▸ hk)
        · exact (hp.plain LF (heq ▸ hk)).2.2 rfl
      · have hne : Function.update m p.1 (some p.2) k ≠ none := hne
        rw [Function.update_of_ne heq] at hne
        exact hm ⟨k, hk, hne⟩
  exact hfold _ fun ⟨_, _, hne⟩ => hne rfl

/-- the states of a resumed call before it stores anything; what it will store is empty or begins with a line feed -/
def FirstLine (str : Bytes) (i keyEnd : ℕ) : ParseState → Prop
  | .start | .endCr | .endLf => False
  | .colon | .spacesAfterColon | .value | .cr => keyEnd = 0 ∨ ∃ rest, str = LF :: rest
  | .key => ∃ rest, str = LF :: rest
  | .lf => i = 0 ∧ ∃ rest, str = LF :: rest

/-- the loop of a resumed call: a bad name is stored, or nothing is stored yet -/
def Taint (str : Bytes) (i : ℕ) (s : Scan) : Prop :=
  BadKeys s.headers ∨ (s.nowReadLineBegin = 0 ∧ s.keyStart = 0 ∧ FirstLine str i s.keyEnd s.parseState)

theorem taint_step {str : Bytes} (i : ℕ) (c : UInt8) (rest : Bytes) (s t : Scan) (hdrop : str.drop i = c :: rest)
    (h : Taint str i s) (hm : Moved str c i s t) : Taint str (i + 1) t := by
  rcases h with hbad | ⟨hbegin, hkey, hstate⟩
  · left
    cases hm with
    | lf _ _ => exact hbad.update _ _
    | _ => exact hbad
  · cases hm with
    | skip hs | first hs | endLf hs | finish hs => rw [hs] at hstate; exact hstate.elim
    | endCr hs hc =>
      -- the line feed in front is not the CR of a blank line
      rw [hs] at hstate
      obtain ⟨rfl, r, hr⟩ := hstate
      rw [List.drop_zero, hr, hc] at hdrop
      cases hdrop
    | colon hs => rw [hs] at hstate; exact Or.inr ⟨hbegin, hkey, Or.inr hstate⟩
    | name hs hc => rw [hs] at hstate; exact Or.inr ⟨hbegin, hkey, by rw [hs]; exact hstate⟩
    | blank hs => rw [hs] at hstate; exact Or.inr ⟨hbegin, hkey, hstate⟩
    | value hs => rw [hs] at hstate; exact Or.inr ⟨hbegin, hkey, hstate⟩
    | inValue hs => rw [hs] at hstate; exact Or.inr ⟨hbegin, hkey, by rw [hs]; exact hstate⟩
    | cr hs => rw [hs] at hstate; exact Or.inr ⟨hbegin, hkey, hstate⟩
    | next hs =>
      rw [hs] at hstate
      exact Or.inr ⟨hbegin, hstate.1, hstate.2⟩
    | lf hs hc =>
      rw [hs] at hstate
      left
      refine ⟨slice str s.keyStart s.keyEnd, ?_, by simp⟩
      rw [hkey]
      rcases hstate with hend | ⟨r, hr⟩
      · left; simp [slice, hend]
      · cases hend : s.keyEnd with
        | zero => left; simp [slice]
        | succ k => right; simp [slice, hr]

/-! ## The calls -/

/-- what a call leaves after the first ':': a rejected request, an accepted one, or a cut buffer -/
inductive Resumed (h : HttpData) (bad : HttpData → Prop) : HeaderState × HttpData → Prop where
  | error (h' : HttpData) (he : h.parseHeaders = (.error, h')) : Resumed h bad (.error, h')
  | success (h' : HttpData) (hb : BadKeys h'.headers ∨ h'.inBuffer ≠ []) : Resumed h bad (.success, h')
  | again (h' : HttpData) (hcut : Cut h'.inBuffer h'.parseState) (hb : bad h') : Resumed h bad (.again, h')

/-- a call that ends past the first ':' and needs more data has cut its buffer -/
theorem parseHeaders_past {h : HttpData} {s t : Scan} {rest : Bytes} {i j : ℕ} (hpast : Past h.inBuffer i s)
    (hrest : h.inBuffer.drop i = rest)
    (heq : scan h.inBuffer h.inBuffer 0 (.start h.parseState h.headers) = scan h.inBuffer rest i s)
    (ht : scan h.inBuffer rest i s = .ok (t, j)) (hne : t.parseState ≠ .endLf) :
    h.parseHeaders = (.again, { h with
        inBuffer := h.inBuffer.drop t.nowReadLineBegin, parseState := t.parseState, headers := t.headers }) ∧
      Cut (h.inBuffer.drop t.nowReadLineBegin) t.parseState := by
  have hend := scan_inv past_step hrest hpast ht
  refine ⟨?_, hend.cut hne⟩
  rw [parseHeaders, heq, ht]
  simp only [if_neg hne]

/-- **Resuming a cut buffer.** -/
theorem parseHeaders_cut {h : HttpData} {b d : Bytes} (hcut : Cut b h.parseState) (hd : d ≠ [])
    (hbuf : h.inBuffer = b ++ d) :
    Resumed h (fun h' => BadKeys h'.headers ∨ 2 ≤ h'.inBuffer.length) h.parseHeaders := by
  have hlen : 2 ≤ h.inBuffer.length := by
    have hb := List.length_pos_of_ne_nil hcut.ne_nil
    have hd := List.length_pos_of_ne_nil hd
    rw [hbuf, List.length_append]; omega
  by_cases hend : h.parseState = .endCr
  · -- END_CR takes the line feed for the end of the blank line, and END_LF the CR behind it
    rw [hend] at hcut
    obtain ⟨rest, rfl⟩ := hcut
    have hscan : scan h.inBuffer h.inBuffer 0 (.start h.parseState h.headers) =
        .ok ({ Scan.start .endLf h.headers with finish := true, keyStart := 1, nowReadLineBegin := 1 }, 2) := by
      conv_lhs => arg 2; rw [hbuf]
      simp [scan, scanByte, Scan.start, hend, scan_finish]
    have hparse : h.parseHeaders = (.success, { h with
        inBuffer := h.inBuffer.drop 2, parseState := .endLf, headers := h.headers }) := by
      rw [parseHeaders, hscan]; simp [Scan.start]
    rw [hparse]
    refine .success _ (Or.inr ?_)
    simp [hbuf, hd]
  · set s := Scan.start h.parseState h.headers with hs
    have hstr : ∀ r, b = LF :: r → h.inBuffer = LF :: (r ++ d) := fun r hr => by rw [hbuf, hr]; rfl
    have hpast : Past h.inBuffer 0 s := by
      refine ⟨by show 0 < _; omega, ?_, fun _ => ?_, fun _ => Or.inl rfl⟩
      · intro hst
        rw [show h.parseState = .start from hst] at hcut; exact hcut
      · show Cut h.inBuffer h.parseState
        cases hp : h.parseState with
        | start | endLf => rw [hp] at hcut; exact hcut.elim
        | colon | spacesAfterColon | value | cr => show h.inBuffer ≠ []; rw [hbuf]; simp [hd]
        | key | lf => rw [hp] at hcut; obtain ⟨r, hr⟩ := hcut; exact ⟨_, hstr r hr⟩
        | endCr => exact absurd hp hend
    have htaint : Taint h.inBuffer 0 s := by
      refine Or.inr ⟨rfl, rfl, ?_⟩
      show FirstLine h.inBuffer 0 0 h.parseState
      cases hp : h.parseState with
      | start | endLf => rw [hp] at hcut; exact hcut.elim
      | colon | spacesAfterColon | value | cr => exact Or.inl rfl
      | key => rw [hp] at hcut; obtain ⟨r, hr⟩ := hcut; exact ⟨_, hstr r hr⟩
      | lf => rw [hp] at hcut; obtain ⟨r, hr⟩ := hcut; exact ⟨rfl, _, hstr r hr⟩
      | endCr => exact absurd hp hend
    cases ht : scan h.inBuffer h.inBuffer 0 s with
    | error e =>
      have hparse : h.parseHeaders = (.error, { h with parseState := e.parseState, headers := e.headers }) := by
        rw [parseHeaders, ← hs, ht]
      rw [hparse]; exact .error _ hparse
    | ok p =>
      obtain ⟨t, j⟩ := p
      have hfinal := scan_inv taint_step rfl htaint ht
      by_cases hne : t.parseState = .endLf
      · have hparse : h.parseHeaders = (.success, { h with
            inBuffer := h.inBuffer.drop j, parseState := t.parseState, headers := t.headers }) := by
          rw [parseHeaders, ← hs, ht]; simp only [if_pos hne]
        rw [hparse]
        refine .success _ (Or.inl ?_)
        rcases hfinal with hbad | ⟨-, -, hstate⟩
        · exact hbad
        · rw [hne] at hstate; exact hstate.elim
      · obtain ⟨hparse, hcut'⟩ := parseHeaders_past hpast rfl rfl ht hne
        rw [hparse]
        apply Resumed.again _ hcut'
        rcases hfinal with hbad | ⟨hbegin, -, -⟩
        · exact Or.inl hbad
        · right; simpa [hbegin] using hlen

/-! ## The first call past the ':' -/

/-- where the loop goes does not depend on what it stores -/
theorem scanByte_str {str : Bytes} {c : UInt8} {i : ℕ} {s t : Scan} (h : scanByte str c i s = .ok t) (str' : Bytes)
    (m : Headers) : ∃ m', scanByte str' c i { s with headers := m } = .ok { t with headers := m' } := by
  obtain ⟨p, m0, ks, ke, vs, ve, nb, fin⟩ := s
  unfold scanByte at h ⊢
  cases p with
  | spacesAfterColon | endLf => cases h; exact ⟨m, rfl⟩
  | _ =>
    dsimp only at h ⊢
    split_ifs at h ⊢ <;> cases h <;> exact ⟨_, rfl⟩

theorem scan_str {str rest : Bytes} {i j : ℕ} {s t : Scan} (h : scan str rest i s = .ok (t, j)) (str' : Bytes)
    (m : Headers) : ∃ m', scan str' rest i { s with headers := m } = .ok ({ t with headers := m' }, j) := by
  induction rest generalizing i s m with
  | nil => cases h; exact ⟨m, rfl⟩
  | cons c rest ih =>
    by_cases hf : s.finish = true
    · rw [scan_finish hf] at h
      cases h
      exact ⟨m, scan_finish (by exact hf) _ _⟩
    · have hf : s.finish = false := by simpa using hf
      cases hb : scanByte str c i s with
      | error e => rw [scan_error hf hb] at h; cases h
      | ok u =>
        rw [scan_step hf hb] at h
        obtain ⟨m1, hm1⟩ := scanByte_str hb str' m
        obtain ⟨m2, hm2⟩ := ih h m1
        exact ⟨m2, by rw [scan_step (by exact hf) hm1, hm2]⟩

/-- once in END_LF the loop stays there -/
theorem scan_stays {str rest : Bytes} {i j : ℕ} {s t : Scan} (h : scan str rest i s = .ok (t, j))
    (hs : s.parseState = .endLf) : t.parseState = .endLf := by
  cases hf : s.finish with
  | true => rw [scan_finish hf] at h; cases h; exact hs
  | false =>
    obtain ⟨u, hu, hstate, -⟩ := scan_endLf hs hf str rest i
    rw [hu] at h; cases h; exact hstate

/-- the loop over a part of a text that it does not end on -/
theorem scan_part {str a b : Bytes} {i j : ℕ} {s t : Scan} (h : scan str (a ++ b) i s = .ok (t, j))
    (ht : t.parseState ≠ .endLf) : ∃ u k, scan str a i s = .ok (u, k) ∧ u.parseState ≠ .endLf := by
  rw [scan_append] at h
  cases ha : scan str a i s with
  | error e => rw [ha] at h; cases h
  | ok p => rw [ha] at h; exact ⟨p.1, p.2, rfl, fun hc => ht (scan_stays h hc)⟩

/-- a block up to the last byte of its blank line, or all of it if a value takes the blank line in -/
theorem absorb_open {fields : List Field} {pairs : List (Bytes × Bytes)} {blank : Bool} (hok : ∀ f ∈ fields, FieldOk f)
    (hne : fields ≠ []) (hab : absorb fields = some (pairs, blank)) {x e : Bytes} (hx : blockBytes fields = x ++ e)
    (he : e ≠ []) :
    ∃ text tail e', Lines text pairs ∧ text ≠ [] ∧ x ++ e' = text ++ tail ∧ (tail = [] ∨ tail = [CR]) := by
  obtain ⟨text, hlines, hblock, htext⟩ := absorb_some hok hab
  cases blank with
  | false => exact ⟨text, [], e, hlines, htext hne, by rw [← hx, hblock]; simp, Or.inl rfl⟩
  | true =>
    refine ⟨text, [CR], e.dropLast, hlines, htext hne, ?_, Or.inr rfl⟩
    have hdrop := congrArg List.dropLast (hx.symm.trans hblock)
    rw [List.dropLast_append_of_ne_nil he] at hdrop
    simpa using hdrop

/-- **The first cut.** A call that ends after the first ':' and before the end of the request needs more data, and leaves
a cut buffer. -/
theorem parseHeaders_first {h : HttpData} {fields : List Field} {pairs : List (Bytes × Bytes)} {blank : Bool}
    {n w e : Bytes} {j : ℕ} (hok : ∀ f ∈ fields, FieldOk f) (hne : fields ≠ [])
    (hab : absorb fields = some (pairs, blank)) (hn : Name n) (hx : blockBytes fields = (n ++ COLON :: w) ++ e)
    (he : e ≠ []) (ht : AtText h (n ++ COLON :: w) j) :
    ∃ h', h.parseHeaders = (.again, h') ∧ Cut h'.inBuffer h'.parseState := by
  -- the loop on the same text with the rest of the request behind it
  obtain ⟨t, k, hscan, hstate⟩ : ∃ t k, scan h.inBuffer (n ++ COLON :: w) j (.firstName h.headers j) = .ok (t, k) ∧
      t.parseState ≠ .endLf := by
    obtain ⟨text, last, e', hlines, htext, hwhole, hlast⟩ := absorb_open hok hne hab hx he
    have hall : AtText { h with inBuffer := h.inBuffer ++ e' } (text ++ last) j := by
      rw [← hwhole]
      cases ht with
      | start hs hbuf => exact .start hs (by rw [hbuf]; rfl)
      | key hs hbuf => exact .key hs (by rw [hbuf])
    obtain ⟨u, hu, -, hline⟩ := hall.scan_lines hlines htext
    have hend : ∃ v k, scan (h.inBuffer ++ e') (n ++ COLON :: w ++ e') j (.firstName h.headers j) = .ok (v, k) ∧
        v.parseState ≠ .endLf := by
      rw [hwhole, scan_append_ok hu]
      rcases hlast with rfl | rfl
      · exact ⟨u, _, rfl, by simp [hline.parseState]⟩
      · refine ⟨{ u with parseState := .endCr }, j + text.length + 1, ?_, by simp⟩
        exact scan_step hline.finish (by simp [scanByte, hline.parseState]) []
    obtain ⟨v, k, hv, hvstate⟩ := hend
    obtain ⟨t, k, ht, htstate⟩ := scan_part hv hvstate
    obtain ⟨m, hm⟩ := scan_str ht h.inBuffer h.headers
    exact ⟨_, k, hm, htstate⟩
  obtain ⟨c, tail, hc, hcons⟩ := hn.cons (COLON :: w)
  have heq : scan h.inBuffer h.inBuffer 0 (.start h.parseState h.headers) =
      scan h.inBuffer (n ++ COLON :: w) j (.firstName h.headers j) := by
    rw [hcons]; exact (hcons ▸ ht).scan hc
  have hcolon : scan h.inBuffer (n ++ COLON :: w) j (.firstName h.headers j) = scan h.inBuffer w (j + n.length + 1)
      { Scan.firstName h.headers j with keyEnd := j + n.length, parseState := .colon } := by
    rw [scan_append_ok (scan_key hn.plain rfl rfl)]
    exact scan_step rfl (by simp [scanByte, Scan.firstName, hn.nonempty]) _
  have hlt : j < h.inBuffer.length := by
    have hdrop := congrArg List.length ht.drop
    simp only [List.length_drop, List.length_append, List.length_cons] at hdrop
    omega
  have hrest : h.inBuffer.drop (j + n.length + 1) = w := by
    rw [← List.drop_drop, drop_add ht.drop]; rfl
  have hpast : Past h.inBuffer (j + n.length + 1)
      { Scan.firstName h.headers j with keyEnd := j + n.length, parseState := .colon } :=
    ⟨hlt, by simp, fun _ => drop_ne_nil hlt, by simp⟩
  obtain ⟨hparse, hcut⟩ := parseHeaders_past hpast hrest (heq.trans hcolon) (hcolon.symm.trans hscan) hstate
  exact ⟨_, hparse, hcut⟩

end HttpData

end Glacier
