/-
A session: everything that the callbacks of one connection do from its accept on.

handleRead is taken apart into its activations, so that a state can be looked at between two requests of one call;
`run_handleRead` puts it together again. Between the callbacks the loop runs handleConn, which sends nothing and closes
the connection after an error; `handleEvents` then starts the next round with an empty mask.

`answer` says what a complete response to the request of an activation is, and `path` what the activation passes to stat
and open. Both are collected as history: `responses` and `paths`.
- `uriStage_cases`, `headerStage_cases`, `analysisStage_eq`: all that the stages of an activation can do;
- `Ready`: what holds between two activations, in every session.
-/
import Glacier.Http.Stages
import Glacier.Lib.Machine

namespace Glacier

open Cxx HttpData

/-- a complete response: an error page, or a file with the header of a 200 response -/
inductive Response where
  | page (errNum : ℕ) (shortMsg : String)
  | ok (keepAlive : Bool) (filetype : Bytes) (content : Bytes)
deriving DecidableEq

def Response.bytes : Response → Bytes
  | .page errNum shortMsg => Ctx.errorHeader errNum shortMsg ++ Ctx.errorBody errNum shortMsg
  | .ok keepAlive filetype content => Ctx.okHeader keepAlive filetype content.length ++ content

namespace Ctx

/-! ## The response that a request should get -/

/-- the connection when the stages begin; none if the activation ends before them -/
def staged (c : Ctx) : Option Ctx :=
  let (cnt, zero, c) := c.readIn
  if c.http.connstate = .disconnecting then none
  else
    match cnt with
    | none => none
    | some cnt =>
      if zero then
        if cnt = 0 then none else some { c with http := { c.http with connstate := .disconnecting } }
      else some c

/-- the connection when the stages reach analysisRequest; none if they do not -/
def analysed (c : Ctx) : Option Ctx :=
  let (d, go) := c.uriStage
  if go then
    let (e, go) := d.headerStage
    if go ∧ e.http.state = .analysis then some e else none
  else none

/-- one of the two parsers rejects what it is given -/
def rejects (c : Ctx) : Bool :=
  let (d, go) := c.uriStage
  if go then decide (d.http.state = .parseHeaders) && d.http.parseHeaders.1 == .error
  else decide (c.http.state = .parseUri) && c.http.parseURI.1 == .error

/-- analysisRequest: a file or the error page; a HEAD request gets nothing -/
def analysisAnswer (c : Ctx) : Option Response :=
  let h := c.http
  if h.method = .get then
    match c.io.fs (cStr h.filename) with
    | .absent | .unreadable _ => some (.page 404 "Not Found!")
    | .directory size => if size = 0 then some (.ok (connectionValue h) (fileType h.filename) []) else none
    | .regular content => some (.ok (connectionValue h) (fileType h.filename) content)
  else none

def stageAnswer (c : Ctx) : Option Response :=
  if c.rejects then some (.page 400 "Bad Request") else c.analysed.bind analysisAnswer

/-- the response to what the activation reads -/
def answer (c : Ctx) : Option Response :=
  match c.staged with
  | some d => d.stageAnswer
  | none =>
    if c.http.connstate ≠ .disconnecting ∧ c.readIn.1 = none then some (.page 400 "Bad Request") else none

/-- the path that the activation passes to stat, and to open if stat succeeds -/
def path (c : Ctx) : Option Bytes :=
  (c.staged.bind analysed).bind fun e => if e.http.method = .get then some (cStr e.http.filename) else none

/-! ## All that the stages can do -/

/-- a text is a first line with its CR, or has no CR -/
theorem line_cases (b : Bytes) : CR ∉ b ∨ ∃ line rest, CR ∉ line ∧ b = line ++ CR :: rest := by
  by_cases h : CR ∈ b
  · obtain ⟨line, rest, hb, hcr⟩ := List.eq_append_cons_of_mem h
    exact Or.inr ⟨line, rest, hcr, hb⟩
  · exact Or.inl h

/-- the stage of the request line: it waits, or takes the line, or rejects it -/
inductive UriDone (c : Ctx) : Ctx × Bool → Prop where
  | again (hcr : CR ∉ c.http.inBuffer) : UriDone c (c, false)
  | accept {line rest : Bytes} {r : RequestLine} (hcr : CR ∉ line) (hbuf : c.http.inBuffer = line ++ CR :: rest)
      (hr : parseRequestLine line c.http.requestLine = (.success, r)) : UriDone c (c.accepted r rest, true)
  | reject {line rest : Bytes} {r : RequestLine} (hcr : CR ∉ line) (hbuf : c.http.inBuffer = line ++ CR :: rest)
      (hr : parseRequestLine line c.http.requestLine = (.error, r)) : UriDone c (c.rejected r, false)

theorem uriStage_cases {c : Ctx} (hs : c.http.state = .parseUri) (hpos : c.http.readpos = 0) : UriDone c c.uriStage := by
  rcases line_cases c.http.inBuffer with hcr | ⟨line, rest, hcr, hbuf⟩
  · rw [uriStage_none hs hpos hcr]; exact .again hcr
  · rcases hr : parseRequestLine line c.http.requestLine with ⟨flag, r⟩
    have hflag := parseRequestLine_flag line c.http.requestLine
    rw [hr] at hflag
    rcases hflag with rfl | rfl
    · rw [uriStage_accept hs hpos hcr hbuf hr]; exact .accept hcr hbuf hr
    · rw [uriStage_reject hs hpos hcr hbuf hr]; exact .reject hcr hbuf hr

/-- the connection once parseHeaders has returned -/
def scanned (c : Ctx) (p : ParseState) (m : Headers) (b : Bytes) : Ctx :=
  { c with http := { c.http with inBuffer := b, parseState := p, headers := m } }

/-- the stage of the header fields -/
inductive HeaderDone (c : Ctx) : Ctx × Bool → Prop where
  | again {p : ParseState} {m : Headers} {b : Bytes} (h : c.http.parseHeaders = (.again, (c.scanned p m b).http)) :
      HeaderDone c (c.scanned p m b, false)
  | reject {p : ParseState} {m : Headers} {b : Bytes} (h : c.http.parseHeaders = (.error, (c.scanned p m b).http)) :
      HeaderDone c ((c.scanned p m b).badRequest, false)
  | accept {p : ParseState} {m : Headers} {b : Bytes} (h : c.http.parseHeaders = (.success, (c.scanned p m b).http)) :
      HeaderDone c (logRequest { c.scanned p m b with http := { (c.scanned p m b).http with
        state := if c.http.method = .post then .recvBody else .analysis } }, true)

theorem headerStage_cases {c : Ctx} (hs : c.http.state = .parseHeaders) : HeaderDone c c.headerStage := by
  obtain ⟨p, m, b, hframe, -⟩ := c.http.parseHeaders_frame
  rcases hp : c.http.parseHeaders with ⟨flag, h⟩
  rw [hp] at hframe
  obtain rfl : h = (c.scanned p m b).http := hframe
  cases flag with
  | again => rw [headerStage_again hs hp]; exact .again hp
  | error => rw [headerStage_error hs hp]; exact .reject hp
  | success => rw [headerStage_success hs hp]; exact .accept hp

/-- the connection once analysisRequest has looked for the Connection field -/
def kept (c : Ctx) : Ctx := { c with http := { c.http with keepAlive := c.http.keepAlive || connectionValue c.http } }

/-- analysisRequest on a GET request, by what its path names -/
theorem analysisRequest_get {c : Ctx} (hget : c.http.method = .get) :
    c.analysisRequest =
      match c.io.fs (cStr c.http.filename) with
      | .absent => (.error, c.kept.handleError 404 "Not Found!")
      | .unreadable _ => (.error, { c.kept with http := { c.kept.http with outBuffer := [] } }.handleError 404 "Not Found!")
      | .directory size =>
        (.success, { c.kept with
          http := { c.kept.http with
            outBuffer := c.http.outBuffer ++ okHeader (connectionValue c.http) (fileType c.http.filename) size }
          io := { c.io with fault := if size = 0 then c.io.fault else true } })
      | .regular content =>
        (.success, { c.kept with http := { c.kept.http with
          outBuffer := c.http.outBuffer ++
            (okHeader (connectionValue c.http) (fileType c.http.filename) content.length ++ content) } }) := by
  have hkept : (if connectionValue c.http then { c with http := { c.http with keepAlive := true } } else c) = c.kept := by
    cases hkeep : connectionValue c.http <;> simp [kept, hkeep]
  have hpath : c.kept.http.filename = c.http.filename := rfl
  have hfs : c.kept.io.fs = c.io.fs := rfl
  unfold analysisRequest
  rw [if_pos hget]
  dsimp only
  rw [hkept, hpath, hfs]
  cases c.io.fs (cStr c.http.filename) with
  | absent => rfl
  | unreadable size => rfl
  | regular content => rfl
  | directory size =>
    dsimp only
    split_ifs with hsize
    · rw [hsize]; rfl
    · rfl

/-- analysisRequest on a GET request, and what handleRead does with its result -/
def serve (c : Ctx) : Ctx :=
  let k := c.kept
  match c.io.fs (cStr c.http.filename) with
  | .absent => handleError { k with http := { k.http with error := true } } 404 "Not Found!"
  | .unreadable _ => handleError { k with http := { k.http with error := true, outBuffer := [] } } 404 "Not Found!"
  | .directory size =>
    let out := k.http.outBuffer ++ okHeader (connectionValue c.http) (fileType c.http.filename) size
    { k with
      http := { k.http with outBuffer := out, state := .finish }
      io := { k.io with fault := if size = 0 then k.io.fault else true } }
  | .regular content =>
    let out := k.http.outBuffer ++ (okHeader (connectionValue c.http) (fileType c.http.filename) content.length ++ content)
    { k with http := { k.http with outBuffer := out, state := .finish } }

theorem analysisStage_eq {c : Ctx} (hs : c.http.state = .analysis) :
    c.analysisStage = if c.http.method = .get then c.serve else { c with http := { c.http with error := true } } := by
  unfold analysisStage
  rw [if_pos hs]
  by_cases hget : c.http.method = .get
  · rw [analysisRequest_get hget, if_pos hget, serve]
    cases c.io.fs (cStr c.http.filename) with
    | absent => rfl
    | unreadable size => rfl
    | directory size => rfl
    | regular content => rfl
  · rw [if_neg hget, analysisRequest, if_neg hget]

/-- the body of a POST request is not received -/
theorem analysisStage_recvBody {c : Ctx} (hs : c.http.state = .recvBody) : c.analysisStage = c := by
  rw [analysisStage, if_neg (by rw [hs]; decide)]

theorem process_recvBody {c : Ctx} (hs : c.http.state = .recvBody) : c.process = c := by
  simp [process, uriStage, headerStage, analysisStage, hs]

/-- a request that gets no response ends the connection; a response is an error page, which ends it too, or a file, which
is added to outBuffer_ -/
inductive AnalysisDone (c : Ctx) : Option Response → Ctx → Prop where
  | noGet (h : c.http.method ≠ .get) : AnalysisDone c none { c with http := { c.http with error := true } }
  | absent (h : c.http.method = .get) : AnalysisDone c (some (.page 404 "Not Found!"))
      (handleError { c.kept with http := { c.kept.http with error := true } } 404 "Not Found!")
  | unreadable (h : c.http.method = .get) : AnalysisDone c (some (.page 404 "Not Found!"))
      (handleError { c.kept with http := { c.kept.http with error := true, outBuffer := [] } } 404 "Not Found!")
  | fault (h : c.http.method = .get) (d : Ctx) (hd : d.io.fault = true) : AnalysisDone c none d
  | file (h : c.http.method = .get) (content : Bytes) :
      AnalysisDone c (some (.ok (connectionValue c.http) (fileType c.http.filename) content))
        { c.kept with http := { c.kept.http with
          outBuffer := c.http.outBuffer ++
            (Response.ok (connectionValue c.http) (fileType c.http.filename) content).bytes
          state := .finish } }

theorem analysisStage_cases {c : Ctx} (hs : c.http.state = .analysis) :
    AnalysisDone c c.analysisAnswer c.analysisStage := by
  rw [analysisStage_eq hs, analysisAnswer, serve]
  dsimp only
  by_cases hget : c.http.method = .get
  · rw [if_pos hget, if_pos hget]
    cases c.io.fs (cStr c.http.filename) with
    | absent => exact .absent hget
    | unreadable size => exact .unreadable hget
    | regular content => exact .file hget content
    | directory size =>
      dsimp only
      by_cases hsize : size = 0
      · rw [if_pos hsize, if_pos hsize, hsize]
        have h := AnalysisDone.file hget []
        simp only [Response.bytes, List.append_nil, List.length_nil] at h
        exact h
      · rw [if_neg hsize, if_neg hsize]
        exact .fault hget _ rfl
  · rw [if_neg hget, if_neg hget]
    exact .noGet hget

/-- the stages, by what they do -/
theorem process_eq (c : Ctx) :
    c.process = if c.uriStage.2 then
        if c.uriStage.1.headerStage.2 then c.uriStage.1.headerStage.1.analysisStage else c.uriStage.1.headerStage.1
      else c.uriStage.1 := rfl

/-- the end of the `do … while (false)`, by the connection at the beginning of the stages -/
theorem receive_staged (c : Ctx) :
    (∃ d, c.staged = some d ∧ c.receive = d.process) ∨
      (c.staged = none ∧ c.http.connstate ≠ .disconnecting ∧ c.readIn.1 = none ∧ c.receive = c.readIn.2.2.badRequest) ∨
      (c.staged = none ∧ (c.http.connstate = .disconnecting ∨ c.readIn.1 ≠ none) ∧
        c.receive = { c.readIn.2.2 with http := { c.readIn.2.2.http with
          inBuffer := c.receive.http.inBuffer, connstate := .disconnecting } }) := by
  have hconn : c.readIn.2.2.http.connstate = c.http.connstate := rfl
  unfold staged receive
  rcases hr : c.readIn with ⟨cnt, zero, d⟩
  rw [hr] at hconn
  dsimp only at hconn ⊢
  by_cases hc : d.http.connstate = .disconnecting
  · simp only [hc, if_true]
    exact Or.inr (Or.inr ⟨trivial, Or.inl (hconn.symm.trans hc), trivial⟩)
  · simp only [hc, if_false]
    rw [hconn] at hc
    cases cnt with
    | none => exact Or.inr (Or.inl ⟨rfl, hc, rfl, rfl⟩)
    | some cnt =>
      cases zero with
      | false => exact Or.inl ⟨d, rfl, rfl⟩
      | true =>
        by_cases h0 : cnt = 0
        · simp only [h0, if_true]
          exact Or.inr (Or.inr ⟨trivial, Or.inr (by simp), trivial⟩)
        · simp only [h0, if_true, if_false]
          exact Or.inl ⟨_, rfl, rfl⟩

/-- the stages begin with what readn has read -/
theorem staged_some {c d : Ctx} (h : c.staged = some d) :
    ∃ cs, d = { c.readIn.2.2 with http := { c.readIn.2.2.http with connstate := cs } } ∧
      (cs = c.http.connstate ∨ cs = .disconnecting) := by
  unfold staged at h
  rcases hr : c.readIn with ⟨cnt, zero, e⟩
  have he : c.readIn.2.2.http.connstate = c.http.connstate := rfl
  rw [hr] at h he
  dsimp only at h he ⊢
  by_cases hc : e.http.connstate = .disconnecting
  · rw [if_pos hc] at h; cases h
  · rw [if_neg hc] at h
    cases cnt with
    | none => cases h
    | some cnt =>
      cases zero with
      | false =>
        obtain rfl : e = d := Option.some.inj h
        exact ⟨e.http.connstate, rfl, Or.inl he⟩
      | true =>
        dsimp only at h
        rw [if_pos rfl] at h
        split_ifs at h
        cases h
        exact ⟨.disconnecting, rfl, Or.inr rfl⟩

/-- after the `do … while (false)`: what is in outBuffer_ is sent, and a finished request is reset -/
theorem respond_eq {c : Ctx} (he : c.http.error = false) (hconn : c.http.connstate ≠ .disconnected) :
    c.respond.1 = if c.flush.http.error = false ∧ c.http.state = .finish then c.flush.reset else c.flush := by
  obtain ⟨ev, err, out, hhttp, -⟩ := c.flush_frame
  have hstate : c.flush.http.state = c.http.state := by rw [hhttp]
  have hconn' : c.flush.http.connstate ≠ .disconnected := by rw [hhttp]; exact hconn
  rw [respond_open he]
  rw [hstate, if_neg (fun h : c.flush.http.error = false ∧ _ => hconn' h.2)]
  split_ifs <;> rfl

/-! ## Between two activations -/

/-- an open connection waits for a request line with all members of the last request reset, or for header fields, or, after
a POST request, for nothing -/
structure Ready (c : Ctx) : Prop where
  connstate : c.http.connstate ≠ .disconnected
  readpos : c.http.readpos = 0
  state : c.http.error = false → c.http.state = .parseUri ∨ c.http.state = .parseHeaders ∨ c.http.state = .recvBody
  fresh : c.http.error = false → c.http.state = .parseUri →
    c.http.method = .get ∧ c.http.filename = [] ∧ c.http.parseState = .start ∧ c.http.headers = fun _ => none

/-- the stages leave an open connection ready, or with a finished GET request -/
structure Staged (d : Ctx) : Prop where
  connstate : d.http.connstate ≠ .disconnected
  readpos : d.http.readpos = 0
  state : d.http.error = false → d.http.state = .finish → d.http.method = .get
  ready : d.http.error = false → d.http.state ≠ .finish → Ready d

theorem Ready.staged {c : Ctx} (h : Ready c) : Staged c where
  connstate := h.connstate
  readpos := h.readpos
  state := by
    intro he hf
    rcases h.state he with hs | hs | hs <;> rw [hs] at hf <;> cases hf
  ready := fun _ _ => h

/-- a connection with an error -/
theorem Staged.failed {d : Ctx} (h : d.http.error = true) (hconn : d.http.connstate ≠ .disconnected)
    (hpos : d.http.readpos = 0) : Staged d where
  connstate := hconn
  readpos := hpos
  state := by
    intro he
    rw [h] at he; cases he
  ready := by
    intro he
    rw [h] at he; cases he

/-- a connection that does not wait for a request line -/
theorem Ready.of_state {d : Ctx} (hconn : d.http.connstate ≠ .disconnected) (hpos : d.http.readpos = 0)
    (hs : d.http.state = .parseHeaders ∨ d.http.state = .recvBody) : Ready d where
  connstate := hconn
  readpos := hpos
  state := fun _ => Or.inr hs
  fresh := by
    intro _ hu
    rcases hs with hs | hs <;> rw [hs] at hu <;> cases hu

theorem analysisStage_staged {c : Ctx} (hconn : c.http.connstate ≠ .disconnected) (hpos : c.http.readpos = 0)
    (hs : c.http.state = .analysis) (hfault : c.analysisStage.io.fault = false) : Staged c.analysisStage := by
  have hdone := analysisStage_cases hs
  generalize c.analysisStage = d at hdone hfault ⊢
  generalize c.analysisAnswer = r at hdone
  cases hdone with
  | noGet _ => exact .failed rfl hconn hpos
  | absent _ => exact .failed rfl hconn hpos
  | unreadable _ => exact .failed rfl hconn hpos
  | fault _ _ hd => rw [hd] at hfault; cases hfault
  | file hget content =>
    refine ⟨hconn, hpos, fun _ _ => hget, ?_⟩
    intro _ hne
    exact absurd rfl hne

/-- the stage of the header fields, and analysisRequest after it -/
theorem process_headers_staged {c : Ctx} (hconn : c.http.connstate ≠ .disconnected) (hpos : c.http.readpos = 0)
    (hs : c.http.state = .parseHeaders) (hfault : c.process.io.fault = false) : Staged c.process := by
  rw [process_headers hs] at hfault ⊢
  have hdone := headerStage_cases hs
  generalize c.headerStage = x at hdone hfault ⊢
  cases hdone with
  | @again p m b _ =>
    change Staged (c.scanned p m b)
    apply Ready.staged
    exact .of_state hconn hpos (Or.inl hs)
  | reject _ => exact .failed rfl hconn hpos
  | accept _ =>
    simp only [if_true] at hfault ⊢
    by_cases hpost : c.http.method = .post
    · simp only [hpost, if_true] at hfault ⊢
      apply Ready.staged
      exact .of_state hconn hpos (Or.inr rfl)
    · simp only [if_neg hpost] at hfault ⊢
      exact analysisStage_staged hconn hpos rfl hfault

/-- the stages together: what they leave, the connection on which analysisRequest runs, and the response -/
inductive ProcessDone (c : Ctx) : Ctx → Option Ctx → Option Response → Prop where
  | again (hs : c.http.state = .parseUri) : ProcessDone c c none none
  | reject {line rest : Bytes} {r : RequestLine} (hs : c.http.state = .parseUri) (hcr : CR ∉ line)
      (hbuf : c.http.inBuffer = line ++ CR :: rest) (hr : parseRequestLine line c.http.requestLine = (.error, r)) :
      ProcessDone c (c.rejected r) none (some (.page 400 "Bad Request"))
  /-- the request line is taken, and the stages go on as for a connection that waits for header fields -/
  | accept {line rest : Bytes} {r : RequestLine} (hs : c.http.state = .parseUri) (hcr : CR ∉ line)
      (hbuf : c.http.inBuffer = line ++ CR :: rest) (hr : parseRequestLine line c.http.requestLine = (.success, r)) :
      ProcessDone c (c.accepted r rest).process (c.accepted r rest).analysed (c.accepted r rest).stageAnswer
  | headers (hs : c.http.state = .parseHeaders) : ProcessDone c c.process c.analysed c.stageAnswer
  | body (hs : c.http.state = .recvBody) : ProcessDone c c none none

theorem process_cases {c : Ctx} (h : Ready c) (he : c.http.error = false) :
    ProcessDone c c.process c.analysed c.stageAnswer := by
  rcases h.state he with hs | hs | hs
  · have hdone := uriStage_cases hs h.readpos
    rcases hu : c.uriStage with ⟨d, go⟩
    rw [hu] at hdone
    cases hdone with
    | again hcr =>
      have hanalysed : c.analysed = none := by simp [analysed, hu]
      have hanswer : c.stageAnswer = none := by
        simp [stageAnswer, rejects, hanalysed, hu, parseURI_none hcr h.readpos, hs]
      rw [process_uri_break hu, hanalysed, hanswer]
      exact .again hs
    | reject hcr hbuf hr =>
      have hanalysed : c.analysed = none := by simp [analysed, hu]
      have hanswer : c.stageAnswer = some (.page 400 "Bad Request") := by
        simp [stageAnswer, rejects, hu, parseURI_line hcr hbuf h.readpos, hr, hs]
      rw [process_uri_break hu, hanalysed, hanswer]
      exact .reject hs hcr hbuf hr
    | @accept line rest r hcr hbuf hr =>
      have hu' : (c.accepted r rest).uriStage = (c.accepted r rest, true) := uriStage_skip rfl
      have hanalysed : c.analysed = (c.accepted r rest).analysed := by simp only [analysed, hu, hu', if_true]
      have hanswer : c.stageAnswer = (c.accepted r rest).stageAnswer := by
        simp only [stageAnswer, rejects, analysed, hu, hu', if_true]
      rw [process_accept hs h.readpos hcr hbuf hr, hanalysed, hanswer]
      exact .accept hs hcr hbuf hr
  · exact .headers hs
  · have hanalysed : c.analysed = none := by simp [analysed, uriStage, headerStage, hs]
    have hanswer : c.stageAnswer = none := by simp [stageAnswer, hanalysed, rejects, uriStage, hs]
    rw [process_recvBody hs, hanalysed, hanswer]
    exact .body hs

theorem process_staged {c : Ctx} (h : Ready c) (he : c.http.error = false) (hfault : c.process.io.fault = false) :
    Staged c.process := by
  have hdone := process_cases h he
  generalize c.process = d, c.analysed = e, c.stageAnswer = r at hdone hfault ⊢
  cases hdone with
  | again _ => exact h.staged
  | reject _ _ _ _ => exact .failed rfl h.connstate h.readpos
  | accept _ _ _ _ => exact process_headers_staged h.connstate h.readpos rfl hfault
  | headers hs => exact process_headers_staged h.connstate h.readpos hs hfault
  | body _ => exact h.staged

theorem staged_ready {c d : Ctx} (h : Ready c) (hd : c.staged = some d) : Ready d := by
  obtain ⟨cs, rfl, hcs⟩ := staged_some hd
  refine ⟨?_, h.readpos, h.state, h.fresh⟩
  rcases hcs with rfl | rfl
  · exact h.connstate
  · simp

theorem receive_ready {c : Ctx} (h : Ready c) (he : c.http.error = false) (hfault : c.receive.io.fault = false) :
    Staged c.receive := by
  have hcases := c.receive_cases
  generalize c.receive = d at hcases hfault ⊢
  cases hcases with
  | closing _ => exact Ready.staged ⟨h.connstate, h.readpos, h.state, h.fresh⟩
  | failed _ => exact .failed rfl h.connstate h.readpos
  | eof _ => exact Ready.staged ⟨by simp, h.readpos, h.state, h.fresh⟩
  | last _ => exact process_staged ⟨by simp, h.readpos, h.state, h.fresh⟩ he hfault
  | more _ => exact process_staged ⟨h.connstate, h.readpos, h.state, h.fresh⟩ he hfault

theorem handleWrite_fault (c : Ctx) : c.handleWrite.io.fault = c.io.fault := by
  unfold handleWrite
  by_cases hc : c.http.error = false ∧ c.http.connstate ≠ .disconnected
  · rw [if_pos hc]
    rcases c.writeOut_cases with hw | ⟨n, out, hw, -⟩
    · rw [hw]
      dsimp only
      split_ifs <;> rfl
    · rw [hw]
      dsimp only
      split_ifs <;> rfl
  · rw [if_neg hc]

theorem flush_fault (c : Ctx) : c.flush.io.fault = c.io.fault := by
  unfold flush
  split_ifs
  · exact c.handleWrite_fault
  · rfl

/-- handleWrite changes nothing that a connection waits with -/
theorem Wrote.ready {c d : Ctx} (h : Wrote c d) (hready : Ready c) : Ready d := by
  obtain ⟨ev, err, out, hhttp, -, -, -, himp⟩ := h
  have herr : d.http.error = false → c.http.error = false := by
    intro he
    exact (himp (by rw [hhttp] at he; exact he)).1
  refine ⟨?_, ?_, ?_, ?_⟩
  · rw [hhttp]; exact hready.connstate
  · rw [hhttp]; exact hready.readpos
  · intro he
    have hs := hready.state (herr he)
    rw [hhttp]; exact hs
  · intro he hu
    have hfresh := hready.fresh (herr he) (by rw [hhttp] at hu; exact hu)
    rw [hhttp]; exact hfresh

theorem respond_ready {c : Ctx} (h : Staged c) : Ready c.respond.1 := by
  by_cases he : c.http.error = false
  · rw [respond_eq he h.connstate]
    obtain ⟨ev, err, out, hhttp, -, -, -, himp⟩ := c.flush_frame
    by_cases hf : c.http.state = .finish
    · by_cases herr : c.flush.http.error = false
      · rw [if_pos ⟨herr, hf⟩]
        have hmethod : c.flush.reset.http.method = .get :=
          calc c.flush.reset.http.method = c.flush.http.method := rfl
            _ = c.http.method := by rw [hhttp]
            _ = .get := h.state he hf
        have hconn : c.flush.reset.http.connstate ≠ .disconnected := by
          have hkeep : c.flush.reset.http.connstate = c.flush.http.connstate := rfl
          rw [hkeep, hhttp]; exact h.connstate
        exact ⟨hconn, rfl, fun _ => Or.inl rfl, fun _ _ => ⟨hmethod, rfl, rfl, rfl⟩⟩
      · rw [if_neg (fun hc => herr hc.1)]
        refine ⟨?_, ?_, fun hc => absurd hc herr, fun hc => absurd hc herr⟩
        · rw [hhttp]; exact h.connstate
        · rw [hhttp]; exact h.readpos
    · rw [if_neg (fun hc => hf hc.2)]
      exact c.flush_frame.ready (h.ready he hf)
  · rw [respond_failed (by simpa using he)]
    exact ⟨h.connstate, h.readpos, fun hc => absurd hc he, fun hc => absurd hc he⟩

theorem respond_fault (c : Ctx) : c.respond.1.io.fault = c.io.fault :=
  c.respond_ends (P := fun d => d.io.fault = c.io.fault) rfl c.flush_fault (fun _ => id) (fun _ _ => id)

/-- handleRead calls itself on an open connection only -/
theorem respond_error {c : Ctx} (h : c.respond.2 = true) : c.respond.1.http.error = false := by
  have hcases := c.respond_cases
  generalize c.respond = r at hcases h ⊢
  cases hcases with
  | failed _ => cases h
  | waiting _ => cases h
  | closed _ _ => cases h
  | finished _ he _ _ _ => exact he

/-- a process that has died on a mapping stays so -/
theorem process_fault {c : Ctx} (h : c.io.fault = true) : c.process.io.fault = true := by
  have huri : c.uriStage.1.io.fault = c.io.fault := by
    unfold uriStage
    split_ifs
    · split <;> rfl
    · rfl
  have hheader : ∀ d : Ctx, d.headerStage.1.io.fault = d.io.fault := by
    intro d
    unfold headerStage
    split_ifs
    · split <;> rfl
    · rfl
  have hanalysis : ∀ d : Ctx, d.io.fault = true → d.analysisStage.io.fault = true := by
    intro d hd
    by_cases hs : d.http.state = .analysis
    · have hdone := analysisStage_cases hs
      generalize d.analysisStage = e at hdone ⊢
      generalize d.analysisAnswer = r at hdone
      cases hdone with
      | fault _ _ he => exact he
      | noGet _ | absent _ | unreadable _ | file _ _ => exact hd
    · rw [analysisStage, if_neg hs]; exact hd
  rw [process_eq]
  split_ifs
  · apply hanalysis
    rw [hheader, huri]; exact h
  · rw [hheader, huri]; exact h
  · rw [huri]; exact h

theorem handleReadOnce_fault {c : Ctx} (h : c.io.fault = true) : c.handleReadOnce.1.io.fault = true := by
  have hreceive : c.receive.io.fault = true := by
    have hcases := c.receive_cases
    generalize c.receive = d at hcases ⊢
    cases hcases with
    | closing _ | failed _ | eof _ => exact h
    | last _ => exact process_fault h
    | more _ => exact process_fault h
  rw [handleReadOnce, respond_fault]
  exact hreceive

theorem handleRead_fault {c : Ctx} (h : c.io.fault = true) : c.handleRead.io.fault = true :=
  handleRead_rel (R := fun c d => c.io.fault = true → d.io.fault = true) (fun _ => id) (fun _ _ _ h1 h2 => h2 ∘ h1)
    (fun _ => handleReadOnce_fault) c h

end Ctx

/-! ## The callbacks of one connection -/

structure Session where
  ctx : Ctx
  /-- handleRead is running, before an activation -/
  reading : Bool
  responses : List Response
  paths : List Bytes

namespace Session

inductive Op where
  /-- handleEvents begins -/
  | handleEvents
  /-- handleRead is called, with the results of its system calls -/
  | handleRead (reads : List ReadResult) (writes : List WriteResult) (fs : FileSystem)
  | activation
  | handleWrite (writes : List WriteResult)

/-- one activation; none if the process dies on a mapping that failed -/
def activate (s : Session) : Option Session :=
  let (c, again) := s.ctx.handleReadOnce
  if c.io.fault then none
  else some ⟨c, again, s.responses ++ s.ctx.answer.toList, s.paths ++ s.ctx.path.toList⟩

/-- after an error handleConn closes the connection, and handleRead is not called again -/
def step (s : Session) : Op → Option Session
  | .handleEvents =>
    if s.reading then none
    else some { s with ctx := { s.ctx with http := { s.ctx.http with channel := s.ctx.http.channel.setEvents 0 } } }
  | .handleRead reads writes fs =>
    if s.reading ∨ s.ctx.http.error then none
    else some { s with
      ctx := { s.ctx with io := { s.ctx.io with reads := reads, writes := writes, fs := fs } }
      reading := true }
  | .activation => if s.reading then s.activate else none
  | .handleWrite writes =>
    if s.reading then none
    else some { s with ctx := { s.ctx with io := { s.ctx.io with writes := writes } }.handleWrite }

/-- a connection that handleNewConn has made and newEvent has given to its loop -/
def accepted (fd : ℕ) (timer : Option ℕ) (timers : List Timer) : Session where
  ctx := ⟨{ HttpData.new fd with timer := timer }, ⟨[], [], fun _ => .absent, [], [], false⟩, timers⟩
  reading := false
  responses := []
  paths := []

/-! ## What holds in every session -/

structure Ok (s : Session) : Prop where
  ready : s.ctx.Ready
  reading : s.reading = true → s.ctx.http.error = false
  fault : s.ctx.io.fault = false

theorem ok_accepted (fd : ℕ) (timer : Option ℕ) (timers : List Timer) : Ok (accepted fd timer timers) := by
  refine ⟨⟨by simp [accepted, HttpData.new], rfl, fun _ => Or.inl rfl, fun _ _ => ⟨rfl, rfl, rfl, rfl⟩⟩, ?_, rfl⟩
  intro hr
  cases hr

/-- an activation that the process survives -/
theorem activate_some {s t : Session} (h : s.activate = some t) :
    s.ctx.receive.io.fault = false ∧ t = ⟨s.ctx.handleReadOnce.1, s.ctx.handleReadOnce.2,
      s.responses ++ s.ctx.answer.toList, s.paths ++ s.ctx.path.toList⟩ := by
  have hfault : s.ctx.handleReadOnce.1.io.fault = s.ctx.receive.io.fault := s.ctx.receive.respond_fault
  unfold activate at h
  dsimp only at h
  rw [hfault] at h
  by_cases hf : s.ctx.receive.io.fault = true
  · rw [if_pos hf] at h; cases h
  · rw [if_neg hf] at h
    cases h
    exact ⟨by simpa using hf, rfl⟩

theorem ok_step (s : Session) (o : Op) (t : Session) (h : Ok s) (hstep : step s o = some t) : Ok t := by
  cases o with
  | handleEvents =>
    simp only [step] at hstep
    split_ifs at hstep with hr
    cases hstep
    exact ⟨⟨h.ready.connstate, h.ready.readpos, h.ready.state, h.ready.fresh⟩, h.reading, h.fault⟩
  | handleRead reads writes fs =>
    simp only [step] at hstep
    split_ifs at hstep with hr
    cases hstep
    refine ⟨⟨h.ready.connstate, h.ready.readpos, h.ready.state, h.ready.fresh⟩, ?_, h.fault⟩
    intro _
    simpa using fun he => hr (Or.inr he)
  | activation =>
    simp only [step] at hstep
    split_ifs at hstep with hr
    obtain ⟨hfault, rfl⟩ := activate_some hstep
    have hready := s.ctx.receive.respond_ready (Ctx.receive_ready h.ready (h.reading hr) hfault)
    exact ⟨hready, fun hagain => Ctx.respond_error hagain, (s.ctx.receive.respond_fault).trans hfault⟩
  | handleWrite writes =>
    simp only [step] at hstep
    split_ifs at hstep with hr
    cases hstep
    have hready : Ctx.Ready { s.ctx with io := { s.ctx.io with writes := writes } } :=
      ⟨h.ready.connstate, h.ready.readpos, h.ready.state, h.ready.fresh⟩
    refine ⟨(Ctx.handleWrite_frame _).ready hready, ?_, ?_⟩
    · intro hc
      exact absurd hc hr
    · rw [Ctx.handleWrite_fault]; exact h.fault

theorem ok_run {s t : Session} {ops : List Op} (h : Ok s) (hrun : Machine.run step s ops = some t) : Ok t :=
  Machine.run_inv ok_step h hrun

/-! ## handleRead -/

/-- the activations of one call of handleRead, from a connection before one of them -/
theorem run_activations (n : ℕ) : ∀ s : Session, s.reading = true →
    2 * s.ctx.pending + (if s.ctx.http.state = .parseUri then 0 else 1) < n → s.ctx.handleRead.io.fault = false →
    ∃ k t, Machine.run step s (List.replicate (k + 1) .activation) = some t ∧ t.ctx = s.ctx.handleRead ∧
      t.reading = false := by
  induction n with
  | zero =>
    intro s _ hlt
    exact absurd hlt (Nat.not_lt_zero _)
  | succ n ih =>
    intro s hr hlt hfault
    have honce : s.ctx.handleReadOnce.1.io.fault = false := by
      by_contra hc
      rw [Bool.not_eq_false] at hc
      rw [Ctx.handleRead_eq] at hfault
      split_ifs at hfault with hagain
      · rw [Ctx.handleRead_fault hc] at hfault; cases hfault
      · rw [hc] at hfault; cases hfault
    obtain ⟨t, ht, hctx, htr⟩ : ∃ t, step s .activation = some t ∧ t.ctx = s.ctx.handleReadOnce.1 ∧
        t.reading = s.ctx.handleReadOnce.2 := by
      refine ⟨⟨s.ctx.handleReadOnce.1, s.ctx.handleReadOnce.2, s.responses ++ s.ctx.answer.toList,
        s.paths ++ s.ctx.path.toList⟩, ?_, rfl, rfl⟩
      simp only [step, hr, if_true, activate, honce, Bool.false_eq_true, if_false]
    have heq := s.ctx.handleRead_eq
    cases hagain : s.ctx.handleReadOnce.2 with
    | false =>
      rw [hagain] at heq
      refine ⟨0, t, Machine.run_cons.2 ⟨t, ht, rfl⟩, ?_, ?_⟩
      · rw [hctx]; exact heq.symm
      · rw [htr]; exact hagain
    | true =>
      rw [hagain] at heq
      have heq : s.ctx.handleRead = t.ctx.handleRead := by rw [hctx]; exact heq
      obtain ⟨hstate, hle, hcons⟩ := s.ctx.handleReadOnce_again hagain
      have hdec : 2 * t.ctx.pending + (if t.ctx.http.state = .parseUri then 0 else 1) < n := by
        rw [hctx, if_pos hstate]
        split_ifs at hlt with hu
        · have := hcons hu
          omega
        · omega
      obtain ⟨k, u, hrun, hu, hur⟩ := ih t (htr.trans hagain) hdec (by rw [← heq]; exact hfault)
      exact ⟨k + 1, u, Machine.run_cons.2 ⟨t, ht, hrun⟩, hu.trans heq.symm, hur⟩

/-- **handleRead is its activations.** Unless the process dies, a call of handleRead is a run of activations. -/
theorem run_handleRead {s : Session} (hr : s.reading = true) (hfault : s.ctx.handleRead.io.fault = false) :
    ∃ k t, Machine.run step s (List.replicate (k + 1) .activation) = some t ∧ t.ctx = s.ctx.handleRead ∧
      t.reading = false :=
  run_activations _ s hr (Nat.lt_succ_self _) hfault

end Session

end Glacier
