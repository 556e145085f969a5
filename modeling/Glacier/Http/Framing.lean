/-
Request framing: what handleRead does with a buffer that holds n complete GET requests.

parseHeaders reaches END_LF on the line feed of the blank line. Its loop has then not finished: END_LF takes one more
character, sets `finish`, and the loop's increment steps over it. So a request takes the first byte of the next one.
- `handleReadOnce_request`: one activation accepts the first request and leaves the later bytes without their first;
- `framing_iff`: n requests are framed as they were sent exactly for n = 1.
-/
import Glacier.Http.Stages
import Glacier.Http.HeaderScan

namespace Glacier

open Cxx HttpData

/-- a well-formed GET request: `line` without its CR LF, and the names and values of its header fields -/
structure GetRequest where
  line : Bytes
  fields : List (Bytes × Bytes)
  target : RequestLine
  line_ok : CR ∉ line
  accepted : parseRequestLine line ⟨.get, .http11, []⟩ = (.success, target)
  get : target.method = .get
  fields_ne : fields ≠ []
  names_ok : ∀ f ∈ fields, Name f.1
  values_ok : ∀ f ∈ fields, f.2 ≠ [] ∧ CR ∉ f.2 ∧ f.2.length ≤ 256

namespace GetRequest

/-- a name and a value as "name: value" -/
def asField (f : Bytes × Bytes) : Field := (f.1, SPACE :: f.2)

/-- the request on the wire -/
def bytes (r : GetRequest) : Bytes := r.line ++ CR :: LF :: blockBytes (r.fields.map asField)

/-- the requests one after the other -/
def stream (rs : List GetRequest) : Bytes := rs.flatMap bytes

/-- what handleRead should accept for the requests in order: each with its own members, the later bytes untouched -/
def framed : List GetRequest → List Request
  | [] => []
  | r :: rs =>
    ⟨r.target.method, r.target.version, r.target.filename, store (fun _ => none) r.fields, stream rs⟩ :: framed rs

@[simp] theorem framed_length (rs : List GetRequest) : (framed rs).length = rs.length := by
  induction rs with
  | nil => rfl
  | cons r rs ih => simp [framed, ih]

theorem bytes_ne_nil (r : GetRequest) : r.bytes ≠ [] := by simp [bytes]

theorem fields_ok (r : GetRequest) : ∀ f ∈ r.fields.map asField, FieldOk f := by
  intro f hf
  obtain ⟨g, hg, rfl⟩ := List.mem_map.1 hf
  obtain ⟨-, hcr, -⟩ := r.values_ok g hg
  refine ⟨r.names_ok g hg, ?_⟩
  simp only [asField, List.mem_cons, not_or]
  exact ⟨by decide, hcr⟩

/-- names and values in bounds are stored as they are -/
theorem absorb_asField {fields : List (Bytes × Bytes)} (h : ∀ f ∈ fields, f.2 ≠ [] ∧ CR ∉ f.2 ∧ f.2.length ≤ 256) :
    absorb (fields.map asField) = some (fields, true) := by
  induction fields with
  | nil => rfl
  | cons f fields ih =>
    obtain ⟨⟨hne, -, hlen⟩, hrest⟩ := List.forall_mem_cons.1 h
    obtain ⟨n, v⟩ := f
    cases v with
    | nil => exact absurd rfl hne
    | cons x w =>
      rw [List.map_cons, asField, absorb, if_pos ⟨rfl, hlen⟩, ih hrest]
      rfl

end GetRequest

open GetRequest

namespace Ctx

/-- read(2) calls that bring no bytes -/
def Quiet (reads : List ReadResult) : Prop := ∀ r ∈ reads, r = .intr ∨ r = .again

theorem readIn_quiet {c : Ctx} (h : Quiet c.io.reads) :
    ∃ reads, c.readIn = (some 0, false, { c with io := { c.io with reads := reads } }) := by
  have hloop : ∀ rs : List ReadResult, Quiet rs →
      ∃ rest, readLoop rs 0 c.http.inBuffer = (some 0, false, c.http.inBuffer, rest) := by
    intro rs hrs
    induction rs with
    | nil => exact ⟨[], rfl⟩
    | cons r rs ih =>
      obtain ⟨hr, hrest⟩ := List.forall_mem_cons.1 hrs
      rcases hr with rfl | rfl
      · exact ih hrest
      · exact ⟨rs, rfl⟩
  obtain ⟨rest, hrest⟩ := hloop c.io.reads h
  exact ⟨rest, by simp only [readIn, readn, hrest]⟩

/-- **One activation accepts the first request** and takes one byte of what follows it. -/
theorem handleReadOnce_request {c : Ctx} (hidle : Idle c) (hquiet : Quiet c.io.reads) (hwrites : .fail ∉ c.io.writes)
    (r : GetRequest) {post content : Bytes} (hbuf : c.http.inBuffer = r.bytes ++ post)
    (hfile : c.io.fs (cStr r.target.filename) = .regular content) :
    c.handleReadOnce.1.io.requests = c.io.requests ++
        [⟨r.target.method, r.target.version, r.target.filename, store (fun _ => none) r.fields, post.tail⟩] ∧
      c.handleReadOnce.1.http.inBuffer = post.tail ∧ c.handleReadOnce.2 = decide (post.tail ≠ []) := by
  obtain ⟨reads, hread⟩ := readIn_quiet hquiet
  set d : Ctx := { c with io := { c.io with reads := reads } }
  have hbuf' : d.http.inBuffer = r.line ++ CR :: (LF :: (blockBytes (r.fields.map asField) ++ post)) := by
    rw [show d.http.inBuffer = c.http.inBuffer from rfl, hbuf, bytes]; simp
  have hprocess := process_accept (c := d) hidle.state hidle.readpos r.line_ok hbuf'
    (parseRequestLine_success r.accepted d.http.requestLine)
  set e := d.accepted r.target (LF :: (blockBytes (r.fields.map asField) ++ post))
  -- the header stage, with the byte that END_LF takes
  have hne : r.fields.map asField ≠ [] := by simpa using r.fields_ne
  have hparse := parseHeaders_block e.http r.fields_ok hne (absorb_asField r.values_ok) (.start hidle.parseState rfl)
  have hheader := headerStage_success rfl hparse
  have hpost : ¬ e.http.method = .post := by rw [show e.http.method = .get from r.get]; decide
  simp only [if_neg hpost] at hheader
  have hgo := process_header_go (uriStage_skip rfl) hheader
  set f : Ctx := logRequest { e with http := { e.http with
      inBuffer := post.tail
      parseState := .endLf
      headers := store e.http.headers r.fields
      state := .analysis } }
  obtain ⟨keep, out, hanalysis⟩ := analysisStage_regular (c := f) rfl r.get hfile
  have hreceive : c.receive = { f with http := { f.http with keepAlive := keep, outBuffer := out, state := .finish } } := by
    rw [receive_open hread hidle.connstate, hprocess, hgo, hanalysis]
  have hrespond := respond_finish (c := c.receive) (by rw [hreceive]; exact hwrites) (by rw [hreceive]; exact hidle.error)
    (by rw [hreceive]) (by rw [hreceive]; exact hidle.connstate)
  rw [handleReadOnce, hrespond.1, hrespond.2.1, hrespond.2.2, hreceive]
  refine ⟨?_, rfl, rfl⟩
  rw [← hidle.headers]
  rfl

/-- the requests that handleRead accepts from the buffer, and what it leaves there, are as they were sent -/
def Framed (c : Ctx) (rs : List GetRequest) : Prop :=
  c.handleRead.io.requests = c.io.requests ++ framed rs ∧ c.handleRead.http.inBuffer = []

/-- **Framing.** On an open connection whose files are served and whose writes do not fail, handleRead frames the n
requests in its buffer as they were sent if and only if n = 1. -/
theorem framing_iff (c : Ctx) (rs : List GetRequest) (hne : rs ≠ []) (hidle : Idle c) (hquiet : Quiet c.io.reads)
    (hwrites : .fail ∉ c.io.writes) (hbuf : c.http.inBuffer = stream rs)
    (hfiles : ∀ r ∈ rs, ∃ content, c.io.fs (cStr r.target.filename) = .regular content) :
    Framed c rs ↔ rs.length = 1 := by
  obtain ⟨r, rs, rfl⟩ := List.exists_cons_of_ne_nil hne
  obtain ⟨content, hfile⟩ := hfiles r List.mem_cons_self
  have hstream : stream (r :: rs) = r.bytes ++ stream rs := rfl
  obtain ⟨hreq, hleft, hagain⟩ := handleReadOnce_request hidle hquiet hwrites r (hbuf.trans hstream) hfile
  unfold Framed
  rw [handleRead_eq]
  cases rs with
  | nil =>
    have hstop : c.handleReadOnce.2 = false := hagain
    rw [hstop]
    exact ⟨fun _ => rfl, fun _ => ⟨hreq, hleft⟩⟩
  | cons r' rs =>
    refine ⟨?_, fun h => by simp at h⟩
    intro h
    exfalso
    have hnext : stream (r' :: rs) ≠ [] := by
      rw [show stream (r' :: rs) = r'.bytes ++ stream rs from rfl]
      simp [r'.bytes_ne_nil]
    -- the accepted requests begin with the first one, whose later bytes lack a byte
    obtain ⟨more, hmore⟩ : ∃ more, (if c.handleReadOnce.2 then c.handleReadOnce.1.handleRead
        else c.handleReadOnce.1).io.requests = c.handleReadOnce.1.io.requests ++ more := by
      split_ifs
      · exact handleRead_requests _
      · exact ⟨[], (List.append_nil _).symm⟩
    have heq := hmore.symm.trans h.1
    rw [hreq, List.append_assoc, List.append_cancel_left_eq] at heq
    have hfirst := congrArg Request.leftover (List.cons.inj heq).1
    have hlen := congrArg List.length (show (stream (r' :: rs)).tail = stream (r' :: rs) from hfirst)
    rw [List.length_tail] at hlen
    have := List.length_pos_of_ne_nil hnext
    omega

/-- GET / with one header field -/
def getIndex : GetRequest where
  line := ascii "GET / HTTP/1.1"
  fields := [(ascii "Host", ascii "a")]
  target := ⟨.get, .http11, ascii "index.html"⟩
  line_ok := by decide
  accepted := by decide +kernel
  get := rfl
  fields_ne := by decide
  names_ok := fun f hf => by
    obtain rfl := List.mem_singleton.1 hf
    exact ⟨by decide, by decide +kernel⟩
  values_ok := by decide

/-- a new connection with these requests in its buffer, on a system where every path is a readable file -/
def withRequests (rs : List GetRequest) : Ctx where
  http := { HttpData.new 5 with inBuffer := stream rs }
  io := ⟨[], List.replicate rs.length (.wrote 1000), fun _ => .regular (ascii "hello"), [], [], false⟩
  timers := []

theorem framing_iff_single : Framed (withRequests [getIndex]) [getIndex] :=
  (framing_iff (withRequests [getIndex]) [getIndex] (by decide) ⟨rfl, rfl, rfl, rfl, rfl, rfl⟩
    (fun r hr => absurd hr List.not_mem_nil) (by decide) rfl (fun _ _ => ⟨ascii "hello", rfl⟩)).2 rfl

/-- the second of two requests begins with "ET /" and is answered with 400 -/
theorem second_request_rejected :
    ¬ Framed (withRequests [getIndex, getIndex]) [getIndex, getIndex] ∧
      (withRequests [getIndex, getIndex]).handleRead.http.error = true := by
  have hone : (withRequests [getIndex, getIndex]).handleRead.io.requests.length = 1 := by decide +kernel
  refine ⟨?_, by decide +kernel⟩
  intro h
  rw [h.1, List.length_append, framed_length] at hone
  exact absurd hone (by decide)

end Ctx

end Glacier
