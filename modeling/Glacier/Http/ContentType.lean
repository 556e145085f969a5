/-
The Content-Type of a served file (httpdata.cc: analysisRequest, MimeType).

The suffix that is looked up begins at the first '.' of the whole path, not at the last one of its last component. A name
like jquery.min.js, or a directory with a '.', gives a suffix that is no key, and then the default type.
- `extension_append`: the extension of a path that ends with a key of the table;
- `sendsType_iff`: the type in the queued header is the one of fileType;
- `content_type_iff`: it is the one of the extension exactly when the first '.' of the path begins the extension.
-/
import Glacier.Http.FileAnswer

namespace Glacier

open Cxx HttpData

/-- the text of the last component of a path from its last '.' on -/
def extension (path : Bytes) : Option Bytes :=
  let name := afterLast 47 path
  if 46 ∈ name then some (46 :: afterLast 46 name) else none

theorem extension_some {path ext : Bytes} (h : extension path = some ext) :
    46 ∈ path ∧ ∃ rest, ext = 46 :: rest := by
  unfold extension at h
  dsimp only at h
  split_ifs at h with hdot
  exact ⟨(afterLast_suffix 47 path).subset hdot, _, (Option.some.inj h).symm⟩

/-- a suffix that has no slash is in the last component -/
theorem extension_append (stem : Bytes) {rest : Bytes} (hslash : 47 ∉ rest) :
    extension (stem ++ 46 :: rest) = some (46 :: afterLast 46 rest) := by
  obtain ⟨front, hname⟩ : ∃ front, afterLast 47 (stem ++ 46 :: rest) = front ++ 46 :: rest := by
    by_cases hstem : 47 ∈ stem
    · obtain ⟨dir, hsplit, hlast⟩ := split_afterLast hstem
      refine ⟨afterLast 47 stem, ?_⟩
      have hpath : stem ++ 46 :: rest = dir ++ 47 :: (afterLast 47 stem ++ 46 :: rest) := by
        conv_lhs => rw [hsplit]
        simp
      rw [hpath, afterLast_append (by simp [hlast, hslash])]
    · exact ⟨stem, afterLast_of_not_mem (by simp [hstem, hslash])⟩
  have hlast : afterLast 46 (front ++ 46 :: rest) = afterLast 46 rest := by
    by_cases hdot : 46 ∈ rest
    · obtain ⟨back, hsplit, hnone⟩ := split_afterLast hdot
      have hpath : front ++ 46 :: rest = (front ++ 46 :: back) ++ 46 :: afterLast 46 rest := by
        conv_lhs => rw [hsplit]
        simp
      rw [hpath, afterLast_append hnone]
    · rw [afterLast_append hdot, afterLast_of_not_mem hdot]
  unfold extension
  dsimp only
  rw [hname, if_pos (by simp), hlast]

/-! ## The table -/

/-- what the table has for an extension -/
structure TableEntry (key type : Bytes) : Prop where
  type : type ≠ ascii "text/html" ∧ CR ∉ type
  name : (0 : UInt8) ∉ key ∧ (47 : UInt8) ∉ key
  /-- a key with a second '.' is no extension, and neither is the part of it that would be -/
  single : 46 ∉ key.tail ∨ mime.lookup (46 :: afterLast 46 key.tail) = none

theorem mime_entry {key type : Bytes} (h : mime.lookup key = some type) (hkey : key.head? = some 46) :
    TableEntry key type := by
  obtain ⟨l₁, l₂, hmime, -⟩ := List.lookup_eq_some_iff.1 h
  have hmem : (key, type) ∈ mime := by
    rw [hmime]
    simp
  have htable : ∀ e ∈ mime, e.1.head? = some 46 → (e.2 ≠ ascii "text/html" ∧ CR ∉ e.2) ∧ ((0 : UInt8) ∉ e.1 ∧
      (47 : UInt8) ∉ e.1) ∧ (46 ∉ e.1.tail ∨ mime.lookup (46 :: afterLast 46 e.1.tail) = none) := by
    decide
  obtain ⟨htype, hname, hsingle⟩ := htable _ hmem hkey
  exact ⟨htype, hname, hsingle⟩

theorem getMime_of_lookup {key type : Bytes} (h : mime.lookup key = some type) : getMime key = type := by
  rw [getMime, h, Option.getD_some]

theorem getMime_default {key : Bytes} (h : mime.lookup key = none) : getMime key = ascii "text/html" := by
  rw [getMime, h]
  rfl

namespace Ctx

/-! ## Which suffix is looked up -/

theorem fileType_iff {filename ext type : Bytes} (hext : extension (cStr filename) = some ext)
    (htype : mime.lookup ext = some type) :
    fileType filename = type ↔ ∃ stem, filename = stem ++ ext ∧ 46 ∉ stem := by
  obtain ⟨hdot, rest, rfl⟩ := extension_some hext
  have hentry := mime_entry htype rfl
  have hdotted : 46 ∈ filename := (List.takeWhile_prefix _).subset hdot
  constructor
  · intro h
    obtain ⟨stem, suffix, hsplit, hstem⟩ := List.eq_append_cons_of_mem hdotted
    have hlook : fileType filename = getMime (46 :: suffix) := by
      have hfind : find filename (ascii ".") 0 = some stem.length := by
        rw [hsplit]
        exact find_append_byte 46 stem suffix hstem
      rw [fileType, hfind, hsplit]
      exact congrArg getMime List.drop_left
    rw [hlook] at h
    cases hsuffix : mime.lookup (46 :: suffix) with
    | none =>
      rw [getMime_default hsuffix] at h
      exact absurd h.symm hentry.type.1
    | some type' =>
      -- the suffix is a key, so the path ends with it and this is its extension
      have hkey := mime_entry hsuffix rfl
      have hpath : cStr filename = filename := by
        have hstem0 : 0 ∉ stem := by
          intro hmem
          obtain ⟨front, back, hstem', hfront⟩ := List.eq_append_cons_of_mem hmem
          have hcut : cStr filename = front := by
            rw [cStr, hsplit, hstem', List.append_assoc, List.cons_append]
            exact takeWhile_ne_append hfront _
          rw [hcut] at hdot
          exact hstem (by simp [hstem', hdot])
        exact takeWhile_ne (by simpa [hsplit, hstem0] using hkey.name.1)
      have hslash : 47 ∉ suffix := by simpa using hkey.name.2
      rw [hpath, hsplit, extension_append stem hslash, Option.some.injEq, List.cons.injEq] at hext
      refine ⟨stem, ?_, hstem⟩
      rcases hkey.single with hsingle | hnone
      · have hsingle : 46 ∉ suffix := hsingle
        rw [hsplit, ← hext.2, afterLast_of_not_mem hsingle]
      · rw [List.tail_cons, hext.2, htype] at hnone
        cases hnone
  · rintro ⟨stem, rfl, hstem⟩
    have hfind : find (stem ++ 46 :: rest) (ascii ".") 0 = some stem.length := find_append_byte 46 stem rest hstem
    rw [fileType, hfind]
    exact (congrArg getMime List.drop_left).trans (getMime_of_lookup htype)

/-! ## The header -/

/-- the response that is queued has a header with this Content-Type -/
def SendsType (c : Ctx) (type : Bytes) : Prop :=
  ∃ size body, c.analysisRequest.2.http.outBuffer =
    c.http.outBuffer ++ okHeader (connectionValue c.http) type size ++ body

/-- a GET that is answered with a 200 header -/
theorem served_queue {c : Ctx} (h : c.analysisRequest.1 = .success) :
    ∃ size body, c.analysisRequest.2.http.outBuffer =
      c.http.outBuffer ++ okHeader (connectionValue c.http) (fileType c.http.filename) size ++ body := by
  have hget : c.http.method = .get := by
    by_contra hmethod
    rw [analysisRequest, if_neg hmethod] at h
    cases h
  rw [analysisRequest_get hget] at h ⊢
  cases hfile : c.io.fs (cStr c.http.filename) with
  | absent => simp [hfile] at h
  | unreadable size => simp [hfile] at h
  | directory size => exact ⟨size, [], by simp⟩
  | regular content => exact ⟨content.length, content, by simp⟩

/-- the Content-Type ends with its line -/
theorem okHeader_type {keepAlive : Bool} {type type' : Bytes} {size size' : ℕ} {body body' : Bytes} (htype : CR ∉ type)
    (htype' : CR ∉ type') (h : okHeader keepAlive type size ++ body = okHeader keepAlive type' size' ++ body') :
    type = type' := by
  have hline : ∀ (t : Bytes) (n : ℕ) (b : Bytes), okHeader keepAlive t n ++ b =
      (ascii "HTTP/1.1 200 OK\r\n" ++ (if keepAlive then ascii "Connection: Keep-Alive\r\n" ++
        ascii "Keep-Alive: timeout=" ++ decimal DEFAULT_KEEP_ALIVE_TIME ++ ascii "\r\n" else []) ++
          ascii "Content-Type: ") ++
      (t ++ CR :: (LF :: ascii "Content-Length: " ++ decimal n ++ ascii "\r\n" ++
        ascii "Server: LiYansong's Web Server\r\n" ++ ascii "\r\n" ++ b)) := by
    intro t n b
    have hbreak : ascii "\r\n" = [CR, LF] := rfl
    simp only [okHeader, hbreak, List.append_assoc, List.cons_append, List.nil_append]
  rw [hline, hline] at h
  have htail := congrArg (List.takeWhile (· ≠ CR)) (List.append_cancel_left h)
  rwa [takeWhile_ne_append htype, takeWhile_ne_append htype'] at htail

theorem sendsType_iff {c : Ctx} {type : Bytes} (h : c.analysisRequest.1 = .success) (htype : CR ∉ type) :
    c.SendsType type ↔ fileType c.http.filename = type := by
  obtain ⟨size, body, hqueue⟩ := served_queue h
  constructor
  · intro ⟨size', body', hsends⟩
    rw [hqueue, List.append_assoc, List.append_assoc] at hsends
    exact okHeader_type (fileType_line c.http.filename).1 htype (List.append_cancel_left hsends)
  · rintro rfl
    exact ⟨size, body, hqueue⟩

/-- **The Content-Type follows the extension exactly when the first '.' of the path begins it.** For every GET that is
answered with a 200 header and every registered extension. -/
theorem content_type_iff (c : Ctx) (h : c.analysisRequest.1 = .success) (ext type : Bytes)
    (hext : extension (cStr c.http.filename) = some ext) (htype : mime.lookup ext = some type) :
    c.SendsType type ↔ ∃ stem, c.http.filename = stem ++ ext ∧ 46 ∉ stem := by
  obtain ⟨-, rest, hrest⟩ := extension_some hext
  have hentry := mime_entry htype (by rw [hrest]; rfl)
  rw [sendsType_iff h hentry.type.2]
  exact fileType_iff hext htype

/-- a style sheet in a directory -/
theorem content_type_iff_css :
    (getting (fun _ => .regular []) (ascii "css/a.css") []).SendsType (ascii "text/css") :=
  (content_type_iff (getting (fun _ => .regular []) (ascii "css/a.css") []) rfl (ascii ".css") (ascii "text/css")
    (by decide) (by decide)).2 ⟨ascii "css/a", rfl, by decide⟩

/-- a script with a version in its name is sent as text/html -/
theorem minified_script_html : ¬ ∀ (c : Ctx) (ext type : Bytes), c.analysisRequest.1 = .success →
    extension (cStr c.http.filename) = some ext → mime.lookup ext = some type → c.SendsType type := by
  intro hall
  have hsends := hall (getting (fun _ => .regular []) (ascii "jquery.min.js") []) (ascii ".js")
    (ascii "application/x-javascript") rfl (by decide) (by decide)
  rw [sendsType_iff rfl (by decide)] at hsends
  revert hsends
  decide

end Ctx

end Glacier
