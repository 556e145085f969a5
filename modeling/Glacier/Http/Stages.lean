/-
The stages of handleRead on given text, and the history of accepted requests.
- `uriStage_none`, `uriStage_reject`, `uriStage_accept`: the request line stage on a buffer without a complete line, with
  a line that parseURI rejects, and with one that it accepts;
- `analysisStage_regular`, `respond_finish`: a GET request for a file that exists is finished, and handleRead goes on
  exactly if bytes are left;
- `handleRead_requests`: accepted requests are never taken back.
-/
import Glacier.Http.ReadLoop

namespace Glacier

open Cxx HttpData

namespace Ctx

/-- an open connection that waits for a request line -/
structure Idle (c : Ctx) : Prop where
  error : c.http.error = false
  connstate : c.http.connstate = .connected
  state : c.http.state = .parseUri
  parseState : c.http.parseState = .start
  headers : c.http.headers = fun _ => none
  readpos : c.http.readpos = 0

/-! ## The request line -/

/-- the connection once parseURI has accepted a line with the result `r`, and `rest` is left -/
def accepted (c : Ctx) (r : RequestLine) (rest : Bytes) : Ctx :=
  { c with http := { ({ c.http with inBuffer := rest } : HttpData).setRequestLine r with state := .parseHeaders } }

/-- the connection once parseURI has rejected a line; handleRead clears the buffer -/
def rejected (c : Ctx) (r : RequestLine) : Ctx :=
  ({ c with http := ({ c.http with inBuffer := [] } : HttpData).setRequestLine r } : Ctx).badRequest

theorem uriStage_none {c : Ctx} (hs : c.http.state = .parseUri) (hpos : c.http.readpos = 0)
    (hcr : CR ∉ c.http.inBuffer) : c.uriStage = (c, false) := by
  rw [uriStage, if_pos hs, parseURI_none hcr hpos]

theorem uriStage_accept {c : Ctx} {line rest : Bytes} {r : RequestLine} (hs : c.http.state = .parseUri)
    (hpos : c.http.readpos = 0) (hcr : CR ∉ line) (hbuf : c.http.inBuffer = line ++ CR :: rest)
    (hr : parseRequestLine line c.http.requestLine = (.success, r)) : c.uriStage = (c.accepted r rest, true) := by
  rw [uriStage, if_pos hs, parseURI_line hcr hbuf hpos, hr]
  rfl

theorem uriStage_reject {c : Ctx} {line rest : Bytes} {r : RequestLine} (hs : c.http.state = .parseUri)
    (hpos : c.http.readpos = 0) (hcr : CR ∉ line) (hbuf : c.http.inBuffer = line ++ CR :: rest)
    (hr : parseRequestLine line c.http.requestLine = (.error, r)) : c.uriStage = (c.rejected r, false) := by
  rw [uriStage, if_pos hs, parseURI_line hcr hbuf hpos, hr]
  rfl

theorem uriStage_skip {c : Ctx} (hs : c.http.state = .parseHeaders) : c.uriStage = (c, true) := by
  rw [uriStage, if_neg (by rw [hs]; decide)]

/-! ## The header fields -/

theorem headerStage_again {c : Ctx} {h : HttpData} (hs : c.http.state = .parseHeaders)
    (hp : c.http.parseHeaders = (.again, h)) : c.headerStage = ({ c with http := h }, false) := by
  rw [headerStage, if_pos hs, hp]

theorem headerStage_error {c : Ctx} {h : HttpData} (hs : c.http.state = .parseHeaders)
    (hp : c.http.parseHeaders = (.error, h)) :
    c.headerStage = (({ c with http := h } : Ctx).badRequest, false) := by
  rw [headerStage, if_pos hs, hp]

theorem headerStage_success {c : Ctx} {h : HttpData} (hs : c.http.state = .parseHeaders)
    (hp : c.http.parseHeaders = (.success, h)) :
    c.headerStage = (logRequest { c with http := { h with
      state := if h.method = .post then .recvBody else .analysis } }, true) := by
  rw [headerStage, if_pos hs, hp]

/-! ## process, by what its stages return -/

theorem process_uri_break {c d : Ctx} (h : c.uriStage = (d, false)) : c.process = d := by
  simp only [process, h]; rfl

theorem process_header_break {c d e : Ctx} (h : c.uriStage = (d, true)) (hh : d.headerStage = (e, false)) :
    c.process = e := by
  simp only [process, h, hh]; rfl

theorem process_header_go {c d e : Ctx} (h : c.uriStage = (d, true)) (hh : d.headerStage = (e, true)) :
    c.process = e.analysisStage := by
  simp only [process, h, hh]; rfl

theorem process_headers {c : Ctx} (hs : c.http.state = .parseHeaders) :
    c.process = if c.headerStage.2 then c.headerStage.1.analysisStage else c.headerStage.1 := by
  simp only [process, uriStage_skip hs]
  rfl

/-- the stages on an accepted request line are those of the connection behind it -/
theorem process_accept {c : Ctx} {line rest : Bytes} {r : RequestLine} (hs : c.http.state = .parseUri)
    (hpos : c.http.readpos = 0) (hcr : CR ∉ line) (hbuf : c.http.inBuffer = line ++ CR :: rest)
    (hr : parseRequestLine line c.http.requestLine = (.success, r)) : c.process = (c.accepted r rest).process := by
  have hu := uriStage_accept hs hpos hcr hbuf hr
  have hu' : (c.accepted r rest).uriStage = (c.accepted r rest, true) := uriStage_skip rfl
  simp only [process, hu, hu']

/-- a read that only meets EAGAIN or bytes goes on to the stages -/
theorem receive_open {c d : Ctx} {n : ℕ} (h : c.readIn = (some n, false, d)) (hconn : c.http.connstate = .connected) :
    c.receive = d.process := by
  have hd : d.http.connstate = .connected := by
    have hkeep : c.readIn.2.2.http.connstate = c.http.connstate := rfl
    rw [h] at hkeep
    exact hkeep.trans hconn
  simp only [receive, h, hd]
  rfl

/-! ## Serving a file -/

/-- analysisRequest on a GET request for a file that can be read -/
theorem analysisStage_regular {c : Ctx} {content : Bytes} (hs : c.http.state = .analysis) (hget : c.http.method = .get)
    (hfile : c.io.fs (cStr c.http.filename) = .regular content) :
    ∃ keep out, c.analysisStage =
      { c with http := { c.http with keepAlive := keep, outBuffer := out, state := .finish } } := by
  obtain ⟨keep, out, hreq⟩ : ∃ keep out, c.analysisRequest =
      (.success, { c with http := { c.http with keepAlive := keep, outBuffer := out } }) := by
    unfold analysisRequest
    rw [if_pos hget]
    cases connectionValue c.http <;> simp only [Bool.false_eq_true, if_false, if_true, hfile]
    · exact ⟨_, _, rfl⟩
    · exact ⟨_, _, rfl⟩
  refine ⟨keep, out, ?_⟩
  rw [analysisStage, if_pos hs, hreq]

/-- sending what is in outBuffer_ without a failing write -/
theorem flush_ok {c : Ctx} (h : .fail ∉ c.io.writes) (he : c.http.error = false) : c.flush.http.error = false := by
  obtain ⟨n, hn⟩ := writeLoop_ok h c.http.outBuffer 0
  unfold flush
  split_ifs with hout
  · unfold handleWrite
    split_ifs with hc
    · rcases hw : c.writeAll c.http.outBuffer with ⟨_ | m, d⟩
      · have hfail : (c.writeAll c.http.outBuffer).1 = none := by rw [hw]
        exact absurd (hn.symm.trans hfail) (by simp)
      · have hd : d.http = c.http := by
          have := c.writeAll_http c.http.outBuffer
          rw [hw] at this; exact this
        simp only [writeOut, hw]
        split_ifs <;> simpa [orEvents, hd] using he
    · exact he
  · exact he

/-- a finished request on a connection whose writes do not fail: handleRead goes on exactly if bytes are left -/
theorem respond_finish {c : Ctx} (h : .fail ∉ c.io.writes) (he : c.http.error = false) (hs : c.http.state = .finish)
    (hconn : c.http.connstate = .connected) :
    c.respond.1.io.requests = c.io.requests ∧ c.respond.1.http.inBuffer = c.http.inBuffer ∧
      c.respond.2 = decide (c.http.inBuffer ≠ []) := by
  obtain ⟨ev, err, out, hhttp, -, -, hreq, -⟩ := c.flush_frame
  have hstate : c.flush.http.state = .finish := by rw [hhttp]; exact hs
  have hconn' : c.flush.reset.http.connstate = .connected :=
    calc c.flush.reset.http.connstate = c.flush.http.connstate := rfl
      _ = c.http.connstate := by rw [hhttp]
      _ = .connected := hconn
  have hbuf : c.flush.reset.http.inBuffer = c.http.inBuffer :=
    calc c.flush.reset.http.inBuffer = c.flush.http.inBuffer := rfl
      _ = c.http.inBuffer := by rw [hhttp]
  rw [respond_open he, if_pos ⟨flush_ok h he, hstate⟩]
  refine ⟨hreq, hbuf, ?_⟩
  simp [hbuf, hconn']

/-! ## Accepted requests -/

theorem analysisStage_requests (c : Ctx) : c.analysisStage.io.requests = c.io.requests := by
  obtain ⟨-, -, -, h⟩ := c.analysisRequest_frame
  unfold analysisStage
  split_ifs
  · split
    · rename_i e he
      rw [he] at h; exact h
    · rename_i e he
      rw [he] at h; exact h
  · rfl

/-- the stages add at most one accepted request -/
theorem process_requests (c : Ctx) : ∃ more, c.process.io.requests = c.io.requests ++ more := by
  have huri : c.uriStage.1.io.requests = c.io.requests := by
    unfold uriStage
    split_ifs
    · split <;> rfl
    · rfl
  have hheader : ∀ d : Ctx, ∃ more, d.headerStage.1.io.requests = d.io.requests ++ more := by
    intro d
    unfold headerStage
    split_ifs
    · split
      · exact ⟨[], (List.append_nil _).symm⟩
      · exact ⟨[], (List.append_nil _).symm⟩
      · exact ⟨_, rfl⟩
    · exact ⟨[], (List.append_nil _).symm⟩
  unfold process
  rcases hu : c.uriStage with ⟨d, go⟩
  rw [hu] at huri
  cases go with
  | false => exact ⟨[], by simpa using huri⟩
  | true =>
    obtain ⟨more, hmore⟩ := hheader d
    rcases hh : d.headerStage with ⟨e, go⟩
    rw [hh] at hmore
    simp only [if_true, hh]
    have hstages : e.io.requests = c.io.requests ++ more :=
      calc e.io.requests = d.io.requests ++ more := hmore
        _ = c.io.requests ++ more := by rw [huri]
    refine ⟨more, ?_⟩
    cases go with
    | false => exact hstages
    | true => exact e.analysisStage_requests.trans hstages

theorem respond_requests (c : Ctx) : c.respond.1.io.requests = c.io.requests := by
  obtain ⟨-, -, -, -, -, -, hflush, -⟩ := c.flush_frame
  exact c.respond_ends (P := fun d => d.io.requests = c.io.requests) rfl hflush (fun _ => id) (fun _ _ => id)

theorem handleReadOnce_requests (c : Ctx) : ∃ more, c.handleReadOnce.1.io.requests = c.io.requests ++ more := by
  have hreceive : ∃ more, c.receive.io.requests = c.io.requests ++ more := by
    have hcases := c.receive_cases
    generalize c.receive = d at hcases ⊢
    cases hcases with
    | closing _ => exact ⟨[], (List.append_nil _).symm⟩
    | failed _ => exact ⟨[], (List.append_nil _).symm⟩
    | eof _ => exact ⟨[], (List.append_nil _).symm⟩
    | last _ => exact process_requests _
    | more _ => exact process_requests _
  obtain ⟨more, hmore⟩ := hreceive
  exact ⟨more, (respond_requests _).trans hmore⟩

/-- **Accepted requests stay accepted.** -/
theorem handleRead_requests (c : Ctx) : ∃ more, c.handleRead.io.requests = c.io.requests ++ more := by
  refine handleRead_rel (R := fun c d => ∃ more, d.io.requests = c.io.requests ++ more)
    (fun c => ⟨[], (List.append_nil _).symm⟩) ?_ handleReadOnce_requests c
  rintro c d e ⟨more, hmore⟩ ⟨more', hmore'⟩
  refine ⟨more ++ more', ?_⟩
  calc e.io.requests = d.io.requests ++ more' := hmore'
    _ = c.io.requests ++ more ++ more' := by rw [hmore]
    _ = c.io.requests ++ (more ++ more') := List.append_assoc _ _ _

end Ctx

end Glacier
