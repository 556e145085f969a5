/-
What one call of parseHeaders makes of a header block.

A well-formed block is accepted, behind any line breaks. An accepted block need not be well formed: the loop does not look
at the first character of a name that follows a field, nor at the first character of a value, and in a value it looks for
CR only.
- `parseHeaders_valid`: every well-formed block is accepted in one call, and each name is bound to its last value;
- `headerLines_fields`: the lines of clean fields are these fields again;
- `blockLines_eq`: an accepting call takes the lines of the buffer up to the first empty one;
- `sound_iff`: an accepted text is bound line by line, with nothing smuggled into a name or a value, exactly when each line
  of the buffer is one clean field;
- `smuggled_line`: a line feed in a value.
-/
import Glacier.Http.HeaderEnd

namespace Glacier

open Cxx

namespace HttpData

/-- each name is bound to the value of its last occurrence -/
def lastOf (fields : List Field) : Headers := fun n => fields.reverse.lookup n

theorem store_eq_lastOf (fields : List Field) : store (fun _ => none) fields = lastOf fields := by
  induction fields using List.reverseRecOn with
  | nil => rfl
  | append_singleton fields f ih =>
    funext n
    have hstore : store (fun _ => none) (fields ++ [f]) = Function.update (store (fun _ => none) fields) f.1 (some f.2) := by
      rw [store, List.foldl_append]; rfl
    rw [hstore, ih, lastOf, List.reverse_append, List.reverse_singleton, List.singleton_append, List.lookup_cons]
    by_cases hn : n = f.1
    · subst hn; simp
    · rw [Function.update_of_ne hn, beq_eq_false_iff_ne.2 hn]
      rfl

/-! ## Well-formed blocks -/

/-- a value that parseHeaders takes as it stands -/
structure Value (v : Bytes) : Prop where
  nonempty : v ≠ []
  plain : CR ∉ v
  short : v.length ≤ 256

theorem lines_flatMap {fields : List Field} (hname : ∀ f ∈ fields, Name f.1) (hvalue : ∀ f ∈ fields, Value f.2) :
    Lines (fields.flatMap fun f => line f.1 f.2) fields := by
  induction fields with
  | nil => exact .nil
  | cons f fields ih =>
    obtain ⟨n, v⟩ := f
    obtain ⟨hn, hnames⟩ := List.forall_mem_cons.1 hname
    obtain ⟨hv, hvalues⟩ := List.forall_mem_cons.1 hvalue
    obtain ⟨x, w, rfl⟩ : ∃ x w, v = x :: w := List.exists_cons_of_ne_nil hv.nonempty
    exact .cons hn (fun hw => hv.plain (List.mem_cons_of_mem x hw)) hv.short (ih hnames hvalues)

/-- **Every well-formed header block is accepted in one call.** -/
theorem parseHeaders_valid (h : HttpData) (skip : Bytes) (fields : List Field) (hstart : h.parseState = .start)
    (hempty : h.headers = fun _ => none) (hskip : ∀ c ∈ skip, c = LF ∨ c = CR) (hne : fields ≠ [])
    (hname : ∀ f ∈ fields, Name f.1) (hvalue : ∀ f ∈ fields, Value f.2)
    (hbuf : h.inBuffer = skip ++ (fields.flatMap fun f => line f.1 f.2) ++ [CR, LF]) :
    h.parseHeaders.1 = .success ∧ h.parseHeaders.2.headers = lastOf fields ∧ h.parseHeaders.2.inBuffer = [] := by
  have hlines := lines_flatMap hname hvalue
  set text := fields.flatMap fun f => line f.1 f.2 with htext
  have htextne : text ≠ [] := by
    obtain ⟨f, fields, rfl⟩ := List.exists_cons_of_ne_nil hne
    simp [htext, line]
  obtain ⟨c, tail, hc, hcons⟩ := hlines.cons_of_ne htextne [CR, LF]
  -- the line breaks, and the first character of the first name
  have hbreaks : scan h.inBuffer skip 0 (Scan.start h.parseState h.headers) =
      .ok (Scan.start h.parseState h.headers, 0 + skip.length) := scan_breaks ⟨hstart, rfl⟩ hskip
  obtain ⟨hat, hfirst⟩ :=
    start_toName (s := Scan.start h.parseState h.headers) hstart rfl (0 + skip.length) h.inBuffer hc tail
  -- the fields and the empty line
  have hdrop : h.inBuffer.drop (0 + skip.length) = text ++ [CR, LF] := by
    rw [hbuf, Nat.zero_add, List.append_assoc, List.drop_left]
  obtain ⟨t, ht, hline⟩ := hlines.scan_atName htextne hat hdrop
  have hscan : scan h.inBuffer h.inBuffer 0 (Scan.start h.parseState h.headers) =
      .ok ({ t with parseState := .endLf }, h.inBuffer.length) := by
    have hlen : h.inBuffer.length = 0 + skip.length + text.length + 2 := by rw [hbuf]; simp; omega
    have hend := hline.scan_blank h.inBuffer []
    calc scan h.inBuffer h.inBuffer 0 (Scan.start h.parseState h.headers)
        = scan h.inBuffer (skip ++ (text ++ [CR, LF])) 0 (Scan.start h.parseState h.headers) := by
          conv_lhs => arg 2; rw [hbuf, List.append_assoc]
      _ = scan h.inBuffer (text ++ [CR, LF]) (0 + skip.length) (Scan.start h.parseState h.headers) := scan_append_ok hbreaks
      _ = _ := by rw [hcons, hfirst, ← hcons]
      _ = scan h.inBuffer [CR, LF] (0 + skip.length + text.length) t := scan_append_ok ht
      _ = _ := by rw [hend, hlen]; rfl
  have hheaders : t.headers = lastOf fields := by
    rw [hline.headers, ← store_eq_lastOf, ← hempty]; rfl
  unfold parseHeaders
  simp [hscan, hheaders]

/-- a repeated name, a value with ':' and a blank, and names and values of one character -/
theorem parseHeaders_valid_repeated :
    let h : HttpData := { new 5 with inBuffer := ascii "\nA: x\r\nHost: a:80 b\r\nA: y\r\n\r\n" }
    h.parseHeaders.1 = .success ∧
      h.parseHeaders.2.headers = lastOf [(ascii "A", ascii "x"), (ascii "Host", ascii "a:80 b"), (ascii "A", ascii "y")] ∧
      h.parseHeaders.2.inBuffer = [] := by
  refine parseHeaders_valid _ [LF] [(ascii "A", ascii "x"), (ascii "Host", ascii "a:80 b"), (ascii "A", ascii "y")] rfl rfl
    (by simp) (by decide) ?_ ?_ (by decide)
  · simp only [List.forall_mem_cons, List.not_mem_nil, false_implies, implies_true, and_true]
    have hplain : ∀ n ∈ [ascii "A", ascii "Host"], ∀ c ∈ n, Plain c := by simp [ascii, Plain, COLON, CR, LF]
    exact ⟨⟨by decide, hplain _ (by simp)⟩, ⟨by decide, hplain _ (by simp)⟩, ⟨by decide, hplain _ (by simp)⟩⟩
  · simp only [List.forall_mem_cons, List.not_mem_nil, false_implies, implies_true, and_true]
    exact ⟨⟨by decide, by decide, by decide⟩, ⟨by decide, by decide, by decide⟩, ⟨by decide, by decide, by decide⟩⟩

/-! ## Accepted blocks -/

/-- the name of a line, and the value behind its ": " -/
def fieldOf (l : Bytes) : Field := (l.takeWhile (· ≠ COLON), (l.dropWhile (· ≠ COLON)).drop 2)

/-- the lines that CR LF ends, up to the first empty one; `cur` is what the present line has so far -/
def headerLines (cur : Bytes) : Bytes → List Bytes
  | [] => []
  | c :: rest =>
    if c = LF ∧ cur.getLast? = some CR then
      if cur.dropLast = [] then [] else cur.dropLast :: headerLines [] rest
    else headerLines (cur ++ [c]) rest

/-- the text that parseHeaders takes from the buffer -/
def consumed (h : HttpData) : Bytes := h.inBuffer.take (h.inBuffer.length - h.parseHeaders.2.inBuffer.length)

/-- its lines, behind the line breaks in front of them -/
def blockLines (h : HttpData) : List Bytes := headerLines [] ((consumed h).dropWhile fun c => c = LF ∨ c = CR)

/-- the lines of the buffer as parseHeaders finds it -/
def bufferLines (h : HttpData) : List Bytes := headerLines [] (h.inBuffer.dropWhile fun c => c = LF ∨ c = CR)

/-- what the call stores, in order -/
def storedFields (h : HttpData) : List Field := scanStores h.inBuffer h.inBuffer 0 (Scan.start h.parseState h.headers)

/-- The block is bound as it is written: no name or value goes over a line break, no name over a ':', and the names are
those of the lines, each bound to the value of its last line. -/
structure Sound (h : HttpData) : Prop where
  names : ∀ f ∈ storedFields h, ∀ c ∈ f.1, Plain c
  values : ∀ f ∈ storedFields h, CR ∉ f.2 ∧ LF ∉ f.2
  headers : h.parseHeaders.2.headers = lastOf ((blockLines h).map fieldOf)

/-- a line that is one field: no stray CR or LF, a name in front of the ':', and a value -/
structure CleanLine (l : Bytes) : Prop where
  cr : CR ∉ l
  lf : LF ∉ l
  name : (fieldOf l).1 ≠ []
  value : (fieldOf l).2 ≠ []

/-- a field that its line can be read back from -/
structure CleanField (f : Field) : Prop where
  name : Name f.1
  nonempty : f.2 ≠ []
  cr : CR ∉ f.2
  lf : LF ∉ f.2

/-! ### Lines -/

/-- up to the first CR LF it is one line -/
theorem headerLines_line {cur l : Bytes} (hl : ∀ a b, cur ++ l ≠ a ++ CR :: LF :: b) (rest : Bytes) :
    headerLines cur (l ++ CR :: LF :: rest) = if cur ++ l = [] then [] else (cur ++ l) :: headerLines [] rest := by
  induction l generalizing cur with
  | nil =>
    have hcr : ¬ (CR = LF ∧ cur.getLast? = some CR) := fun h => absurd h.1 (by decide)
    simp [headerLines, hcr]
  | cons c l ih =>
    have hopen : ¬ (c = LF ∧ cur.getLast? = some CR) := by
      rintro ⟨rfl, hlast⟩
      obtain ⟨init, rfl⟩ := List.getLast?_eq_some_iff.1 hlast
      exact hl init l (by simp)
    have hcur : cur ++ [c] ++ l = cur ++ c :: l := by simp
    rw [List.cons_append, headerLines, if_neg hopen, ih (by rw [hcur]; exact hl), hcur]

/-- a line that a name in front of the first ':' divides -/
theorem fieldOf_append {n : Bytes} (hn : COLON ∉ n) (v : Bytes) : fieldOf (n ++ COLON :: SPACE :: v) = (n, v) := by
  rw [fieldOf, takeWhile_ne_append hn, dropWhile_ne_append hn]
  rfl

/-- the line of a field, without its CR LF -/
def lineText (f : Field) : Bytes := f.1 ++ COLON :: SPACE :: f.2

theorem CleanField.line {f : Field} (h : CleanField f) : CleanLine (lineText f) ∧ fieldOf (lineText f) = f := by
  have hcolon : COLON ∉ f.1 := fun hc => (h.name.plain _ hc).1 rfl
  have hcr : CR ∉ f.1 := fun hc => (h.name.plain _ hc).2.1 rfl
  have hlf : LF ∉ f.1 := fun hc => (h.name.plain _ hc).2.2 rfl
  have hfield : fieldOf (lineText f) = f := fieldOf_append hcolon f.2
  refine ⟨⟨?_, ?_, ?_, ?_⟩, hfield⟩
  · simp [lineText, hcr, h.cr]; decide
  · simp [lineText, hlf, h.lf]; decide
  · rw [hfield]; exact h.name.nonempty
  · rw [hfield]; exact h.nonempty

theorem flatMap_line_cons (f : Field) (fields : List Field) (rest : Bytes) :
    ((f :: fields).flatMap fun f => line f.1 f.2) ++ rest =
      lineText f ++ CR :: LF :: ((fields.flatMap fun f => line f.1 f.2) ++ rest) := by
  simp [line, lineText]

/-- the lines of clean fields are these fields -/
theorem headerLines_fields {fields : List Field} (h : ∀ f ∈ fields, CleanField f) (tail : Bytes) :
    headerLines [] ((fields.flatMap fun f => line f.1 f.2) ++ CR :: LF :: tail) = fields.map lineText := by
  induction fields with
  | nil => rfl
  | cons f fields ih =>
    obtain ⟨hf, hfields⟩ := List.forall_mem_cons.1 h
    have hcr : CR ∉ lineText f := hf.line.1.cr
    have hl : ∀ a b, [] ++ lineText f ≠ a ++ CR :: LF :: b := by
      intro a b heq
      exact hcr (by rw [← List.nil_append (lineText f), heq]; simp)
    rw [flatMap_line_cons, headerLines_line hl, ih hfields]
    simp [lineText]

/-- what follows a CR LF only matters by its own lines -/
theorem headerLines_congr {rest rest' : Bytes} (h : headerLines [] rest = headerLines [] rest') (cur l : Bytes) :
    headerLines cur (l ++ CR :: LF :: rest) = headerLines cur (l ++ CR :: LF :: rest') := by
  induction l generalizing cur with
  | nil =>
    have hcr : ¬ (CR = LF ∧ cur.getLast? = some CR) := fun h => absurd h.1 (by decide)
    simp [headerLines, hcr, h]
  | cons c l ih => simp only [List.cons_append, headerLines, ih]

/-- the empty line behind the fields ends the lines, if none before it does -/
theorem headerLines_end (fields : List Field) (tail tail' : Bytes) :
    headerLines [] ((fields.flatMap fun f => line f.1 f.2) ++ CR :: LF :: tail) =
      headerLines [] ((fields.flatMap fun f => line f.1 f.2) ++ CR :: LF :: tail') := by
  induction fields with
  | nil => rfl
  | cons f fields ih => rw [flatMap_line_cons, flatMap_line_cons, headerLines_congr ih]

/-- a field whose line is clean is clean itself -/
theorem CleanField.of_line {f : Field} (hn : TakesName true f.1) (hv : TakesValue f.2) (h : CleanLine (lineText f)) :
    CleanField f := by
  obtain ⟨n, v⟩ := f
  obtain ⟨c, k, rfl, hcr, -, hk⟩ := hn
  obtain ⟨x, w, rfl, -, -⟩ := hv
  have hcr' := h.cr
  have hlf := h.lf
  have hname := h.name
  simp only [lineText, List.mem_append, List.mem_cons, not_or] at hcr' hlf
  have hcolon : c ≠ COLON := by
    rintro rfl
    simp [fieldOf, lineText] at hname
  refine ⟨⟨by simp, ?_⟩, by simp, by simp [hcr'.2.2.2], by simp [hlf.2.2.2]⟩
  exact List.forall_mem_cons.2 ⟨⟨hcolon, hcr, Ne.symm hlf.1.1⟩, hk⟩

theorem TakesName.not_mem_cr {any : Bool} {n : Bytes} (hn : TakesName any n) : CR ∉ n := by
  obtain ⟨c, k, rfl, hcr, -, hk⟩ := hn
  intro hmem
  rcases List.mem_cons.1 hmem with heq | hmem
  · exact hcr heq.symm
  · exact (hk CR hmem).2.1 rfl

/-- a CR LF in the line of a field stands at the beginning of its value -/
theorem split_value {f : Field} (hn : TakesName true f.1) (hv : TakesValue f.2) {a b : Bytes}
    (h : lineText f = a ++ CR :: LF :: b) : a = f.1 ++ [COLON, SPACE] := by
  obtain ⟨n, v⟩ := f
  obtain ⟨x, w, rfl, hw, -⟩ := hv
  have hfront : CR ∉ n ++ [COLON, SPACE] := by
    have := hn.not_mem_cr
    simp only [List.mem_append, List.mem_cons, List.not_mem_nil, or_false, not_or]
    exact ⟨this, by decide, by decide⟩
  have hline : lineText (n, x :: w) = n ++ [COLON, SPACE] ++ x :: w := by simp [lineText]
  rw [hline] at h
  have hx : x = CR := by
    have hmem : CR ∈ n ++ [COLON, SPACE] ++ x :: w := by rw [h]; simp
    rcases List.mem_append.1 hmem with hmem | hmem
    · exact absurd hmem hfront
    · rcases List.mem_cons.1 hmem with heq | hmem
      · exact heq.symm
      · exact absurd hmem hw
  subst hx
  exact ((List.append_cons_inj_of_notMem hfront hw).1 h).1.symm

theorem not_clean_valueless {n : Bytes} (hn : TakesName true n) : ¬ CleanLine (n ++ [COLON, SPACE]) := by
  intro h
  obtain ⟨c, k, rfl, -, -, hk⟩ := hn
  have hname := h.name
  have hvalue := h.value
  by_cases hcolon : COLON ∈ c :: k
  · rcases List.mem_cons.1 hcolon with rfl | hmem
    · simp [fieldOf] at hname
    · exact (hk COLON hmem).1 rfl
  · rw [fieldOf_append hcolon []] at hvalue
    exact hvalue rfl

/-- **Fields whose lines are clean are clean.** A value that begins with a CR LF leaves a line without a value. -/
theorem clean_of_headerLines {fields : List Field} (htakes : ∀ f ∈ fields, TakesName true f.1 ∧ TakesValue f.2)
    {tail : Bytes}
    (h : ∀ l ∈ headerLines [] ((fields.flatMap fun f => line f.1 f.2) ++ CR :: LF :: tail), CleanLine l) :
    ∀ f ∈ fields, CleanField f := by
  induction fields with
  | nil => exact fun f hf => absurd hf List.not_mem_nil
  | cons f fields ih =>
    obtain ⟨⟨hn, hv⟩, htakes⟩ := List.forall_mem_cons.1 htakes
    rw [flatMap_line_cons] at h
    by_cases hsplit : ∃ a b, lineText f = a ++ CR :: LF :: b
    · exfalso
      obtain ⟨a, b, hab⟩ := hsplit
      have ha := split_value hn hv hab
      have hl : ∀ a' b', [] ++ a ≠ a' ++ CR :: LF :: b' := by
        intro a' b' heq
        have hcr : CR ∈ f.1 ++ [COLON, SPACE] := by rw [← ha, ← List.nil_append a, heq]; simp
        simp [hn.not_mem_cr] at hcr
        revert hcr; decide
      rw [hab, List.append_assoc, List.cons_append, List.cons_append, headerLines_line hl, if_neg (by simp [ha])] at h
      have hfirst := h a (by simp)
      rw [ha] at hfirst
      exact not_clean_valueless hn hfirst
    · have hl : ∀ a b, [] ++ lineText f ≠ a ++ CR :: LF :: b := fun a b heq => hsplit ⟨a, b, heq⟩
      rw [headerLines_line hl, if_neg (by simp [lineText])] at h
      obtain ⟨hline, hrest⟩ := List.forall_mem_cons.1 h
      exact List.forall_mem_cons.2 ⟨.of_line hn hv hline, ih htakes hrest⟩

/-! ### Accepted texts -/

/-- the fields behind the line breaks; the first name does not begin with one -/
theorem FieldsOf.split {any : Bool} {b : Bytes} {fs : List Field} (h : FieldsOf any b fs) :
    ∃ skip : Bytes, (∀ c ∈ skip, c = LF ∨ c = CR) ∧ b = skip ++ (fs.flatMap fun f => line f.1 f.2) ∧
      (∀ f ∈ fs, TakesName true f.1 ∧ TakesValue f.2) ∧ (any = true ↔ fs ≠ []) ∧
      ∀ c ∈ (fs.flatMap fun f => line f.1 f.2).head?, ¬ (c = LF ∨ c = CR) := by
  induction h with
  | breaks skip h => exact ⟨skip, h, by simp, by simp, by simp, by simp⟩
  | @field any b n v fs _ hn hv ih =>
    obtain ⟨skip, hskip, rfl, htakes, hany, hhead⟩ := ih
    obtain ⟨c, k, rfl, hcr, hlf, hk⟩ := hn
    refine ⟨skip, hskip, by simp, ?_, by simp, ?_⟩
    · intro f hf
      rcases List.mem_append.1 hf with hf | hf
      · exact htakes f hf
      · rw [List.mem_singleton.1 hf]
        exact ⟨⟨c, k, rfl, hcr, by simp, hk⟩, hv⟩
    · intro d hd
      by_cases hfs : fs = []
      · have hfirst : any = false := by simpa [hfs] using hany
        subst hfs
        have hd : c = d := by simpa [line] using hd
        subst hd
        simp [hcr, hlf hfirst]
      · obtain ⟨f, fs, rfl⟩ := List.exists_cons_of_ne_nil hfs
        have hne : (f :: fs).flatMap (fun f => line f.1 f.2) ≠ [] := by simp [line]
        rw [List.flatMap_append, List.head?_append_of_ne_nil _ hne] at hd
        exact hhead d hd

/-- headers_ behind the loop is what it has stored -/
theorem scan_headers {str rest : Bytes} {i j : ℕ} {s t : Scan} (h : scan str rest i s = .ok (t, j)) :
    t.headers = store s.headers (scanStores str rest i s) := by
  induction rest generalizing i s with
  | nil => cases h; rfl
  | cons c rest ih =>
    cases hf : s.finish with
    | true =>
      rw [scan_finish hf] at h
      cases h
      simp [scanStores, hf, store]
    | false =>
      cases hb : scanByte str c i s with
      | error e => rw [scan_error hf hb] at h; cases h
      | ok u =>
        rw [scan_step hf hb] at h
        have hu : u.headers = store s.headers (stores str s) := by
          cases scanByte_moved hb with
          | lf hs => simp [stores, hs, store]
          | _ hs => simp [stores, hs, store]
        have hstores : scanStores str (c :: rest) i s = stores str s ++ scanStores str rest (i + 1) u := by
          simp [scanStores, hf, hb]
        rw [ih h, hu, hstores, store, store, store, List.foldl_append]

/-- what an accepting call has taken and stored -/
theorem parseHeaders_accepted {h : HttpData} (hstart : h.parseState = .start) (hempty : h.headers = fun _ => none)
    (hsuccess : h.parseHeaders.1 = .success) :
    ∃ skip tail : Bytes, (∀ c ∈ skip, c = LF ∨ c = CR) ∧
      consumed h = skip ++ ((storedFields h).flatMap fun f => line f.1 f.2) ++ CR :: LF :: tail ∧
      h.inBuffer = consumed h ++ h.parseHeaders.2.inBuffer ∧
      (∀ f ∈ storedFields h, TakesName true f.1 ∧ TakesValue f.2) ∧ storedFields h ≠ [] ∧
      (∀ c ∈ ((storedFields h).flatMap fun f => line f.1 f.2).head?, ¬ (c = LF ∨ c = CR)) ∧
      h.parseHeaders.2.headers = lastOf (storedFields h) := by
  obtain ⟨t, j, hscan, hend, hafter⟩ : ∃ t j, scan h.inBuffer h.inBuffer 0 (Scan.start h.parseState h.headers) = .ok (t, j) ∧
      t.parseState = .endLf ∧ h.parseHeaders.2.inBuffer = h.inBuffer.drop j ∧ h.parseHeaders.2.headers = t.headers := by
    have hdone := h.parseHeaders_cases
    generalize h.parseHeaders = r at hdone hsuccess ⊢
    cases hdone with
    | error _ => cases hsuccess
    | again _ _ => cases hsuccess
    | success hscan hend => exact ⟨_, _, hscan, hend, rfl, rfl⟩
  have hstands : Stands (Scan.start h.parseState h.headers) [] [] := by rw [hstart]; exact stands_start h.headers
  obtain ⟨taken, left, htext, hj, hat, -⟩ :=
    stands_scan [] [] (by simp) hstands rfl hscan
  simp only [Stands, hend, List.nil_append] at hat
  obtain ⟨b, tail, hfields, rfl⟩ := hat
  obtain ⟨skip, hskip, rfl, htakes, hany, hhead⟩ := hfields.split
  have hle : j ≤ h.inBuffer.length := by
    rw [congrArg List.length htext, hj, List.nil_append, @List.length_append _ _ left]
    exact Nat.le_add_right _ _
  have hlen : h.inBuffer.length - h.parseHeaders.2.inBuffer.length = j := by
    rw [hafter.1, List.length_drop]
    omega
  refine ⟨skip, tail, hskip, ?_, ?_, htakes, hany.1 rfl, hhead, ?_⟩
  · rw [consumed, hlen, htext, hj, List.nil_append, List.take_left]
    rfl
  · rw [consumed, hlen, hafter.1, List.take_append_drop]
  · rw [hafter.2, scan_headers hscan, ← store_eq_lastOf, ← hempty]
    rfl

/-- behind the line breaks stands the first of the fields -/
theorem dropWhile_breaks {skip : Bytes} {fields : List Field} (hskip : ∀ c ∈ skip, c = LF ∨ c = CR) (hne : fields ≠ [])
    (hhead : ∀ c ∈ (fields.flatMap fun f => line f.1 f.2).head?, ¬ (c = LF ∨ c = CR)) (rest : Bytes) :
    (skip ++ (fields.flatMap fun f => line f.1 f.2) ++ rest).dropWhile (fun c => c = LF ∨ c = CR) =
      (fields.flatMap fun f => line f.1 f.2) ++ rest := by
  have hall : ∀ c ∈ skip, decide (c = LF ∨ c = CR) = true := fun c hc => decide_eq_true (hskip c hc)
  obtain ⟨f, fs, hfs⟩ := List.exists_cons_of_ne_nil hne
  obtain ⟨c, tail, hcons⟩ : ∃ c tail, (fields.flatMap fun f => line f.1 f.2) = c :: tail :=
    List.exists_cons_of_ne_nil (by simp [hfs, line])
  have hc : decide (c = LF ∨ c = CR) = false := decide_eq_false (hhead c (by simp [hcons]))
  rw [List.append_assoc, List.dropWhile_append_of_pos hall, hcons, List.cons_append,
    List.dropWhile_cons_of_neg (by rw [hc]; decide)]

/-- **The lines of the consumed text are those of the buffer**: an accepting call takes the text through its first empty
line. -/
theorem blockLines_eq {h : HttpData} (hstart : h.parseState = .start) (hempty : h.headers = fun _ => none)
    (hsuccess : h.parseHeaders.1 = .success) : blockLines h = bufferLines h := by
  obtain ⟨skip, tail, hskip, hconsumed, hsplit, -, hne, hhead, -⟩ := parseHeaders_accepted hstart hempty hsuccess
  rw [blockLines, bufferLines, hsplit, hconsumed, List.append_assoc _ (CR :: LF :: tail), dropWhile_breaks hskip hne hhead,
    dropWhile_breaks hskip hne hhead]
  exact headerLines_end _ _ _

/-- **What an accepted block binds is what it says, exactly when each of its lines is one clean field.** -/
theorem sound_iff (h : HttpData) (hstart : h.parseState = .start) (hempty : h.headers = fun _ => none)
    (hsuccess : h.parseHeaders.1 = .success) : Sound h ↔ ∀ l ∈ bufferLines h, CleanLine l := by
  obtain ⟨skip, tail, hskip, hconsumed, -, htakes, hne, hhead, hheaders⟩ := parseHeaders_accepted hstart hempty hsuccess
  have hlines : blockLines h = headerLines [] (((storedFields h).flatMap fun f => line f.1 f.2) ++ CR :: LF :: tail) := by
    rw [blockLines, hconsumed, dropWhile_breaks hskip hne hhead]
  rw [← blockLines_eq hstart hempty hsuccess]
  constructor
  · intro hsound
    have hclean : ∀ f ∈ storedFields h, CleanField f := by
      intro f hf
      obtain ⟨⟨c, k, hn, -⟩, ⟨x, w, hv, -⟩⟩ := htakes f hf
      exact ⟨⟨by simp [hn], hsound.names f hf⟩, by simp [hv], (hsound.values f hf).1, (hsound.values f hf).2⟩
    rw [hlines, headerLines_fields hclean]
    intro l hl
    obtain ⟨f, hf, rfl⟩ := List.mem_map.1 hl
    exact (hclean f hf).line.1
  · intro hclean
    rw [hlines] at hclean
    have hfields := clean_of_headerLines htakes hclean
    refine ⟨fun f hf => (hfields f hf).name.plain, fun f hf => ⟨(hfields f hf).cr, (hfields f hf).lf⟩, ?_⟩
    have hback : (storedFields h).map (fieldOf ∘ lineText) = storedFields h :=
      (List.map_congr_left fun f hf => (hfields f hf).line.2).trans (List.map_id' _)
    rw [hheaders, hlines, headerLines_fields hfields, List.map_map, hback]

/-- two fields -/
theorem sound_iff_two_fields : Sound { new 5 with inBuffer := ascii "\nHost: a:80\r\nAccept: */*\r\n\r\n" } := by
  refine (sound_iff _ rfl rfl (by decide +kernel)).2 ?_
  have hlines : bufferLines { new 5 with inBuffer := ascii "\nHost: a:80\r\nAccept: */*\r\n\r\n" } =
      [ascii "Host: a:80", ascii "Accept: */*"] := by decide +kernel
  rw [hlines]
  simp only [List.forall_mem_cons, List.not_mem_nil, false_implies, implies_true, and_true]
  exact ⟨⟨by decide, by decide, by decide, by decide⟩, ⟨by decide, by decide, by decide, by decide⟩⟩

/-- a line feed inside a value -/
def smuggled : HttpData := { new 5 with inBuffer := ascii "\nA: x\nB: y\r\n\r\n" }

theorem smuggled_line : smuggled.parseState = .start ∧ (smuggled.headers = fun _ => none) ∧
    smuggled.parseHeaders.1 = .success ∧ smuggled.parseHeaders.2.headers (ascii "A") = some (ascii "x\nB: y") ∧
    ¬ Sound smuggled := by
  refine ⟨rfl, rfl, by decide +kernel, by decide +kernel, ?_⟩
  intro hsound
  have hstored : storedFields smuggled = [(ascii "A", ascii "x\nB: y")] := by decide +kernel
  have hvalue := hsound.values (ascii "A", ascii "x\nB: y") (by rw [hstored]; exact List.mem_singleton_self _)
  exact hvalue.2 (by decide)

end HttpData

end Glacier
