/-
The request line: what parseURI makes of a well-formed one.

The method is the first of GET, POST and HEAD that occurs anywhere in the line; the path begins at the first '/' behind it.
A query is cut from the path, also where it leaves nothing.
- `parsePath_requestText`: from the right method on, a well-formed line gives its path and version;
- `occurs_requestText`: a keyword occurs in a line where it occurs in the method, in the path or in the query;
- `parseURI_recovers_iff`: parseURI recovers a well-formed line exactly when no keyword that it looks for earlier occurs in
  the path or the query, and the path is not empty in front of a query;
- `query_without_path`: a query behind an empty path.
-/
import Mathlib.Data.List.TakeWhile
import Glacier.Http.HttpData

namespace Glacier

open Cxx

def SLASH : UInt8 := 47
def QUESTION : UInt8 := 63

namespace HttpData

/-! ## Searches -/

theorem findText_slash (s : Bytes) (pos : ℕ) : findText s "/" pos = find s [SLASH] pos := rfl
theorem findText_blank (s : Bytes) (pos : ℕ) : findText s " " pos = find s [SPACE] pos := rfl
theorem findText_question (s : Bytes) (pos : ℕ) : findText s "?" pos = find s [QUESTION] pos := rfl

theorem drop_at {a b : Bytes} {n : ℕ} (h : n = a.length) : (a ++ b).drop n = b := by rw [h, List.drop_left]

/-- the name that is cut out between a '/' and the next blank -/
theorem pathName_eq (a t rest : Bytes) :
    pathName (a ++ SLASH :: (t ++ SPACE :: rest)) a.length (a.length + 1 + t.length) =
      if t = [] then ascii "index.html" else t.takeWhile (· ≠ QUESTION) := by
  have hdiff : sizeDiff (a.length + 1 + t.length) a.length = t.length + 1 := by
    rw [sizeDiff_of_le (by omega)]; omega
  have htext : substr (a ++ SLASH :: (t ++ SPACE :: rest)) (a.length + 1) (t.length + 1 - 1) = t := by
    have hcons : a ++ SLASH :: (t ++ SPACE :: rest) = (a ++ [SLASH]) ++ (t ++ SPACE :: rest) := by simp
    rw [substr, hcons, drop_at (by simp), Nat.add_sub_cancel, List.take_left]
  unfold pathName
  simp only [hdiff, htext]
  by_cases hne : t = []
  · simp [hne]
  · have hpos : t.length + 1 > 1 := by
      have := List.length_pos_of_ne_nil hne
      omega
    rw [if_pos hpos, if_neg hne, findText_question]
    cases hq : find t [QUESTION] 0 with
    | none =>
      have hno : QUESTION ∉ t := by simpa using find_byte_none_iff.1 hq
      exact (takeWhile_ne hno).symm
    | some k =>
      obtain ⟨u, v, hu, ht, hk⟩ := find_byte_some hq
      rw [List.drop_zero] at ht
      rw [ht, takeWhile_ne_append hu]
      simp [substr, hk]

/-! ## Well-formed lines -/

def methodText : HttpMethod → Bytes
  | .get => ascii "GET"
  | .post => ascii "POST"
  | .head => ascii "HEAD"

def versionText : HttpVersion → Bytes
  | .http10 => ascii "1.0"
  | .http11 => ascii "1.1"

/-- the line for a target -/
def requestText (m : HttpMethod) (target : Bytes) (v : HttpVersion) : Bytes :=
  methodText m ++ SPACE :: SLASH :: (target ++ SPACE :: (ascii "HTTP" ++ SLASH :: versionText v))

/-- a path, and a query behind a '?' -/
def targetText (path : Bytes) : Option Bytes → Bytes
  | some query => path ++ QUESTION :: query
  | none => path

/-- the file name that is cut out of a target -/
def targetName (target : Bytes) : Bytes := if target = [] then ascii "index.html" else target.takeWhile (· ≠ QUESTION)

/-- a version behind its '/' is read -/
theorem parseVersion_text (a : Bytes) (v : HttpVersion) (r : RequestLine) :
    parseVersion (a ++ SLASH :: versionText v) a.length r = (.success, { r with version := v }) := by
  have hthree : (versionText v).length = 3 := by cases v <;> rfl
  have hlen : (a ++ SLASH :: versionText v).length = a.length + 4 := by
    rw [List.length_append, List.length_cons, hthree]
  have hsub : substr (a ++ SLASH :: versionText v) (a.length + 1) 3 = versionText v := by
    have hcons : a ++ SLASH :: versionText v = (a ++ [SLASH]) ++ versionText v := by simp
    rw [substr, hcons, drop_at (by simp)]
    exact List.take_of_length_le hthree.le
  unfold parseVersion
  rw [hlen, sizeDiff_of_le (by omega), if_neg (by omega)]
  simp only [hsub]
  cases v
  · rw [if_pos (by rfl)]
  · rw [if_neg (by decide), if_pos (by rfl)]

/-- **From the method on**, which may be found anywhere in front of the path. -/
theorem parsePath_requestText {m : HttpMethod} {target : Bytes} (hblank : SPACE ∉ target) (v : HttpVersion)
    (r : RequestLine) :
    parsePath (requestText m target v) 0 r = (.success, ⟨r.method, v, targetName target⟩) := by
  set front := methodText m ++ [SPACE] with hfront
  have hno : SLASH ∉ front := by cases m <;> decide
  have hline : requestText m target v =
      front ++ SLASH :: (target ++ SPACE :: (ascii "HTTP" ++ SLASH :: versionText v)) := by
    simp [requestText, hfront]
  have hline' : requestText m target v =
      (front ++ SLASH :: target ++ SPACE :: ascii "HTTP") ++ SLASH :: versionText v := by
    simp [requestText, hfront]
  have hlen : front.length + 1 + target.length = (front ++ SLASH :: target).length := by simp; omega
  have hslash : find (requestText m target v) [SLASH] 0 = some front.length := by
    rw [hline]; exact find_append_byte SLASH front _ hno
  have hspace : find (requestText m target v) [SPACE] front.length = some (front.length + 1 + target.length) := by
    have hno' : SPACE ∉ SLASH :: target := by
      simp only [List.mem_cons, not_or]
      exact ⟨by decide, hblank⟩
    rw [hline, find, List.drop_left, ← List.cons_append, findFrom_append_byte SPACE _ _ _ hno', List.length_cons]
    congr 1; omega
  have hslash' : find (requestText m target v) [SLASH] (front.length + 1 + target.length) =
      some (front ++ SLASH :: target ++ SPACE :: ascii "HTTP").length := by
    rw [hlen, hline', List.append_assoc, find, List.drop_left,
      findFrom_append_byte SLASH _ _ _ (by decide)]
    simp only [List.length_append]
  have hname : pathName (requestText m target v) front.length (front.length + 1 + target.length) = targetName target := by
    rw [hline, pathName_eq]; rfl
  have hversion := parseVersion_text (front ++ SLASH :: target ++ SPACE :: ascii "HTTP") v
    { r with filename := targetName target }
  rw [← hline'] at hversion
  simp only [parsePath, findText_slash, findText_blank, hslash, hspace, hname, hslash', hversion]

/-! ## Keywords -/

/-- the methods whose keywords parseURI looks for before that of `m` -/
def soughtBefore : HttpMethod → List HttpMethod
  | .get => []
  | .post => [.get]
  | .head => [.get, .post]

/-- a keyword occurs in a line where it is the method, or occurs in the target -/
theorem occurs_requestText (k m : HttpMethod) (target : Bytes) (v : HttpVersion) :
    methodText k <:+: requestText m target v ↔ k = m ∨ methodText k <:+: target := by
  have hspace : SPACE ∉ methodText k := by cases k <;> decide
  have hslash : SLASH ∉ methodText k := by cases k <;> decide
  have hmethod : methodText k <:+: methodText m ↔ k = m := by cases k <;> cases m <;> decide
  have hversion : ¬ methodText k <:+: ascii "HTTP" ++ SLASH :: versionText v := by cases k <;> cases v <;> decide
  have hbehind : methodText k <:+: SLASH :: (target ++ SPACE :: (ascii "HTTP" ++ SLASH :: versionText v)) ↔
      methodText k <:+: target := by
    have hnil : ¬ methodText k <:+: [] := by cases k <;> decide
    rw [← List.nil_append (SLASH :: (target ++ _)), infix_append_cons hslash, infix_append_cons hspace]
    simp only [hnil, hversion, or_false, false_or]
  rw [requestText, infix_append_cons hspace, hmethod, hbehind]

theorem occurs_targetText (k : HttpMethod) (path : Bytes) (query : Option Bytes) :
    methodText k <:+: targetText path query ↔ methodText k <:+: path ∨ ∃ q ∈ query, methodText k <:+: q := by
  have hquestion : QUESTION ∉ methodText k := by cases k <;> decide
  cases query with
  | none => simp [targetText]
  | some q => simp [targetText, infix_append_cons hquestion]

/-- the search for a keyword that parseURI does -/
theorem findText_none_iff {k : HttpMethod} {line : Bytes} : find line (methodText k) 0 = none ↔ ¬ methodText k <:+: line :=
  find_none_iff (by cases k <;> decide)

/-- parsePath leaves the method -/
theorem parsePath_method (line : Bytes) (pos : ℕ) (r : RequestLine) : (parsePath line pos r).2.method = r.method := by
  have hversion : ∀ pos r, (parseVersion line pos r).2.method = r.method := by
    intro pos r
    unfold parseVersion
    dsimp only
    split_ifs <;> rfl
  unfold parsePath
  split
  · rfl
  · split
    · rfl
    · dsimp only
      split
      · rfl
      · exact hversion _ _

/-- **Without a keyword that is sought before** the method's, the line gives its parts. -/
theorem parseRequestLine_requestText {m : HttpMethod} {target : Bytes} (hblank : SPACE ∉ target) (v : HttpVersion)
    (r : RequestLine) (h : ∀ k ∈ soughtBefore m, ¬ methodText k <:+: target) :
    parseRequestLine (requestText m target v) r = (.success, ⟨m, v, targetName target⟩) := by
  have hfound : find (requestText m target v) (methodText m) 0 = some 0 :=
    find_prefix (List.prefix_append _ _) (by simp [requestText])
  have hnone : ∀ k ∈ soughtBefore m, find (requestText m target v) (methodText k) 0 = none := by
    intro k hk
    rw [findText_none_iff, occurs_requestText]
    rintro (rfl | hk')
    · cases k <;> simp [soughtBefore] at hk
    · exact h k hk hk'
  have hpath := fun r => parsePath_requestText hblank v r (m := m)
  unfold parseRequestLine findText
  cases m with
  | get =>
    rw [show find _ (ascii "GET") 0 = some 0 from hfound]
    exact hpath _
  | post =>
    rw [show find _ (ascii "GET") 0 = none from hnone .get (by simp [soughtBefore]),
      show find _ (ascii "POST") 0 = some 0 from hfound]
    exact hpath _
  | head =>
    rw [show find _ (ascii "GET") 0 = none from hnone .get (by simp [soughtBefore]),
      show find _ (ascii "POST") 0 = none from hnone .post (by simp [soughtBefore]),
      show find _ (ascii "HEAD") 0 = some 0 from hfound]
    exact hpath _

/-- a keyword that is sought before wins, wherever it stands -/
theorem parseRequestLine_shadowed {m k : HttpMethod} {line : Bytes} (hk : k ∈ soughtBefore m) (h : methodText k <:+: line)
    (r : RequestLine) : (parseRequestLine line r).2.method ≠ m := by
  have hfound : ∃ pos, find line (methodText k) 0 = some pos :=
    Option.ne_none_iff_exists'.1 fun hnone => findText_none_iff.1 hnone h
  unfold parseRequestLine findText
  cases hget : find line (ascii "GET") 0 with
  | some pos =>
    dsimp only
    rw [parsePath_method]
    rintro rfl
    simp [soughtBefore] at hk
  | none =>
    -- it is POST that is found, for HEAD
    have hpost : k = .post ∧ m = .head := by
      cases m with
      | get => simp [soughtBefore] at hk
      | post =>
        obtain rfl : k = .get := by simpa [soughtBefore] using hk
        obtain ⟨pos, hpos⟩ := hfound
        exact absurd (hget.symm.trans hpos) (by simp)
      | head =>
        rcases List.mem_cons.1 hk with rfl | hk
        · obtain ⟨pos, hpos⟩ := hfound
          exact absurd (hget.symm.trans hpos) (by simp)
        · exact ⟨List.mem_singleton.1 hk, rfl⟩
    obtain ⟨rfl, rfl⟩ := hpost
    obtain ⟨pos, hpos⟩ := hfound
    rw [show find line (ascii "POST") 0 = some pos from hpos]
    dsimp only
    rw [parsePath_method]
    simp

/-! ## parseURI -/

/-- parseURI has taken the line apart as it was put together -/
structure Recovers (h : HttpData) (m : HttpMethod) (path : Bytes) (v : HttpVersion) (rest : Bytes) : Prop where
  success : h.parseURI.1 = .success
  method : h.parseURI.2.method = m
  version : h.parseURI.2.version = v
  filename : h.parseURI.2.filename = if path = [] then ascii "index.html" else path
  inBuffer : h.parseURI.2.inBuffer = rest

theorem targetName_targetText {path : Bytes} (hpath : QUESTION ∉ path) (query : Option Bytes) :
    targetName (targetText path query) =
      if path = [] then (if query = none then ascii "index.html" else []) else path := by
  cases query with
  | none =>
    by_cases hne : path = []
    · simp [targetText, targetName, hne]
    · rw [targetText, targetName, if_neg hne, if_neg hne]
      exact takeWhile_ne hpath
  | some q =>
    rw [targetText, targetName, if_neg (by simp), takeWhile_ne_append hpath]
    by_cases hne : path = [] <;> simp [hne]

theorem targetText_unbroken {path : Bytes} {query : Option Bytes} (hpath : SPACE ∉ path ∧ CR ∉ path)
    (hquery : ∀ q ∈ query, SPACE ∉ q ∧ CR ∉ q) : SPACE ∉ targetText path query ∧ CR ∉ targetText path query := by
  cases query with
  | none => exact hpath
  | some q =>
    have hq := hquery q rfl
    simp only [targetText, List.mem_append, List.mem_cons, not_or]
    exact ⟨⟨hpath.1, by decide, hq.1⟩, hpath.2, by decide, hq.2⟩

theorem requestText_unbroken (m : HttpMethod) {target : Bytes} (v : HttpVersion) (htarget : CR ∉ target) :
    CR ∉ requestText m target v := by
  have hmethod : CR ∉ methodText m := by cases m <;> decide
  have hversion : CR ∉ ascii "HTTP" ++ SLASH :: versionText v := by cases v <;> decide
  simp only [requestText, List.mem_append, List.mem_cons, not_or] at hversion ⊢
  exact ⟨hmethod, by decide, by decide, htarget, by decide, hversion⟩

section Line

variable {h : HttpData} {m : HttpMethod} {path : Bytes} {query : Option Bytes} {v : HttpVersion} {rest : Bytes}

/-- a line whose method is the first keyword in it -/
theorem recovers_of_clear (hpath : QUESTION ∉ path)
    (htarget : SPACE ∉ targetText path query ∧ CR ∉ targetText path query) (hpos : h.readpos = 0)
    (hbuf : h.inBuffer = requestText m (targetText path query) v ++ CR :: rest)
    (hall : ∀ k ∈ soughtBefore m, ¬ methodText k <:+: targetText path query) :
    Recovers h m path v rest ↔ (path = [] → query = none) := by
  have hparse := parseURI_line (requestText_unbroken m v htarget.2) hbuf hpos
  rw [parseRequestLine_requestText htarget.1 v _ hall, targetName_targetText hpath query] at hparse
  constructor
  · intro hrec hempty
    have hfile := hrec.filename
    rw [hparse] at hfile
    by_contra hne
    simp [setRequestLine, hempty, hne] at hfile
    revert hfile; decide
  · intro hempty
    have hfile : (if path = [] then (if query = none then ascii "index.html" else []) else path) =
        if path = [] then ascii "index.html" else path := by
      by_cases hne : path = []
      · rw [if_pos hne, if_pos hne, if_pos (hempty hne)]
      · rw [if_neg hne, if_neg hne]
    rw [hfile] at hparse
    refine ⟨?_, ?_, ?_, ?_, ?_⟩ <;> rw [hparse] <;> rfl

/-- a line with a keyword in its target that is looked for before its method -/
theorem not_recovers_of_shadowed {k : HttpMethod} {target : Bytes} (htarget : CR ∉ target) (hpos : h.readpos = 0)
    (hbuf : h.inBuffer = requestText m target v ++ CR :: rest) (hk : k ∈ soughtBefore m)
    (hoccurs : methodText k <:+: target) :
    ¬ Recovers h m path v rest := by
  intro hrec
  have hmethod := hrec.method
  rw [parseURI_line (requestText_unbroken m v htarget) hbuf hpos] at hmethod
  exact parseRequestLine_shadowed hk ((occurs_requestText k m _ v).2 (Or.inr hoccurs)) _ hmethod

end Line

/-- **parseURI recovers the parts of a well-formed request line exactly when** no keyword that it looks for before that of
the method occurs in the path or in the query, and the path is not empty in front of a query. -/
theorem parseURI_recovers_iff (h : HttpData) (m : HttpMethod) (path : Bytes) (query : Option Bytes) (v : HttpVersion)
    (rest : Bytes) (hpath : SPACE ∉ path ∧ CR ∉ path ∧ QUESTION ∉ path) (hquery : ∀ q ∈ query, SPACE ∉ q ∧ CR ∉ q)
    (hpos : h.readpos = 0) (hbuf : h.inBuffer = requestText m (targetText path query) v ++ CR :: rest) :
    Recovers h m path v rest ↔
      (∀ k ∈ soughtBefore m, ¬ methodText k <:+: path ∧ ∀ q ∈ query, ¬ methodText k <:+: q) ∧
        (path = [] → query = none) := by
  have htarget := targetText_unbroken ⟨hpath.1, hpath.2.1⟩ hquery
  have hclear : (∀ k ∈ soughtBefore m, ¬ methodText k <:+: targetText path query) ↔
      ∀ k ∈ soughtBefore m, ¬ methodText k <:+: path ∧ ∀ q ∈ query, ¬ methodText k <:+: q := by
    refine forall₂_congr fun k _ => ?_
    rw [occurs_targetText]
    simp
  rw [← hclear]
  by_cases hall : ∀ k ∈ soughtBefore m, ¬ methodText k <:+: targetText path query
  · rw [recovers_of_clear hpath.2.2 htarget hpos hbuf hall]
    exact ⟨fun hempty => ⟨hall, hempty⟩, fun h => h.2⟩
  · have hshadowed := hall
    push Not at hshadowed
    obtain ⟨k, hk, hoccurs⟩ := hshadowed
    exact iff_of_false (not_recovers_of_shadowed htarget.2 hpos hbuf hk hoccurs) fun h => hall h.1

/-- a POST with a query -/
theorem parseURI_recovers_iff_post :
    Recovers { new 5 with inBuffer := ascii "POST /a/b.cgi?x=/HTTP/ HTTP/1.0\r\n" } .post (ascii "a/b.cgi") .http10 [LF] :=
  (parseURI_recovers_iff _ .post (ascii "a/b.cgi") (some (ascii "x=/HTTP/")) .http10 [LF] (by decide) (by decide) rfl
    (by decide)).2 (by decide)

/-- a query behind an empty path -/
def queryOnly : HttpData := { new 5 with inBuffer := ascii "GET /?q HTTP/1.1\r\n" }

theorem query_without_path : queryOnly.inBuffer = requestText .get (targetText [] (some (ascii "q"))) .http11 ++ CR :: [LF] ∧
    queryOnly.parseURI.1 = .success ∧ queryOnly.parseURI.2.filename = [] ∧ ¬ Recovers queryOnly .get [] .http11 [LF] := by
  refine ⟨by decide, by decide +kernel, by decide +kernel, ?_⟩
  intro hrec
  exact absurd hrec.filename (by decide +kernel)

end HttpData

end Glacier
