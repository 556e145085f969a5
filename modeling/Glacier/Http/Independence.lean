/-
Two connections after different histories, and the same next request.

`Own` is what a connection may differ in: what getActiveChannels and epoll keep in its channel, its descriptor, version_,
keepAlive_ and its timer. Everything else that handleRead and handleWrite do is the same for both (`handleReadOnce_withOwn`,
`handleWrite_withOwn`). reset() leaves version_ and keepAlive_ as they are: version_ is set again by an accepted request line
only, and keepAlive_ is never cleared.
-/
import Glacier.Http.Session

namespace Glacier

open Cxx HttpData

structure Own where
  revents : Events
  lastevents : Events
  fd : ℕ
  version : HttpVersion
  keepAlive : Bool
  timer : Option ℕ
  timers : List Timer

namespace HttpData

def withOwn (h : HttpData) (o : Own) : HttpData :=
  { h with
    channel := ⟨h.channel.events, o.revents, o.lastevents⟩
    fd := o.fd
    version := o.version
    keepAlive := o.keepAlive
    timer := o.timer }

/-! ## parseURI -/

/-- a result of the parser for the old version `v`, which an accepted line replaces -/
def withVersion (v : HttpVersion) : URIState × RequestLine → URIState × RequestLine
  | (.success, r) => (.success, r)
  | (flag, r) => (flag, { r with version := v })

theorem parseVersion_version (requestLine : Bytes) (pos : ℕ) (r : RequestLine) (v : HttpVersion) :
    parseVersion requestLine pos { r with version := v } = withVersion v (parseVersion requestLine pos r) := by
  unfold parseVersion
  dsimp only
  split_ifs <;> rfl

theorem parsePath_version (requestLine : Bytes) (pos : ℕ) (r : RequestLine) (v : HttpVersion) :
    parsePath requestLine pos { r with version := v } = withVersion v (parsePath requestLine pos r) := by
  unfold parsePath
  cases findText requestLine "/" pos with
  | none => rfl
  | some p =>
    dsimp only
    cases findText requestLine " " p with
    | none => rfl
    | some q =>
      dsimp only
      cases findText requestLine "/" q with
      | none => rfl
      | some u => exact parseVersion_version requestLine u { r with filename := pathName requestLine p q } v

theorem parseRequestLine_version (requestLine : Bytes) (r : RequestLine) (v : HttpVersion) :
    parseRequestLine requestLine { r with version := v } = withVersion v (parseRequestLine requestLine r) := by
  unfold parseRequestLine
  cases findText requestLine "GET" 0 with
  | some pos => exact parsePath_version requestLine pos { r with method := .get } v
  | none =>
    dsimp only
    cases findText requestLine "POST" 0 with
    | some pos => exact parsePath_version requestLine pos { r with method := .post } v
    | none =>
      cases findText requestLine "HEAD" 0 with
      | some pos => exact parsePath_version requestLine pos { r with method := .head } v
      | none => rfl

end HttpData

namespace Ctx

def withOwn (c : Ctx) (o : Own) : Ctx := { c with http := c.http.withOwn o, timers := o.timers }

/-- what is the connection's own -/
def own (c : Ctx) : Own :=
  ⟨c.http.channel.revents, c.http.channel.lastevents, c.http.fd, c.http.version, c.http.keepAlive, c.http.timer, c.timers⟩

/-! ## The request line -/

/-- the activation accepts a request line -/
def takesLine (c : Ctx) : Bool := decide (c.http.state = .parseUri) && c.uriStage.2

/-- the activation serves a GET request with "Connection: Keep-Alive" -/
def asks (c : Ctx) : Bool := c.analysed.any fun e => decide (e.http.method = .get) && connectionValue e.http

theorem uriStage_withOwn {c : Ctx} (hs : c.http.state = .parseUri) (hpos : c.http.readpos = 0) (o : Own) :
    (c.withOwn o).uriStage = (c.uriStage.1.withOwn (if c.uriStage.2 then
      { o with version := c.uriStage.1.http.version } else o), c.uriStage.2) := by
  have hs' : (c.withOwn o).http.state = .parseUri := hs
  have hpos' : (c.withOwn o).http.readpos = 0 := hpos
  have hbuf' : (c.withOwn o).http.inBuffer = c.http.inBuffer := rfl
  have hdone := uriStage_cases hs hpos
  rcases hu : c.uriStage with ⟨d, go⟩
  rw [hu] at hdone
  cases hdone with
  | again hcr =>
    rw [uriStage_none hs' hpos' hcr]
    rfl
  | @accept line rest r hcr hbuf hr =>
    have hr' : parseRequestLine line (c.withOwn o).http.requestLine = (.success, r) := parseRequestLine_success hr _
    rw [uriStage_accept hs' hpos' hcr hbuf hr']
    rfl
  | @reject line rest r hcr hbuf hr =>
    have hr' : parseRequestLine line (c.withOwn o).http.requestLine = (.error, { r with version := o.version }) := by
      have h := parseRequestLine_version line c.http.requestLine o.version
      rw [hr] at h
      exact h
    rw [uriStage_reject hs' hpos' hcr hbuf hr']
    rfl

/-! ## The header fields and analysisRequest -/

theorem parseHeaders_withOwn (h : HttpData) (o : Own) :
    (h.withOwn o).parseHeaders = (h.parseHeaders.1, h.parseHeaders.2.withOwn o) := by
  have hscan : scan (h.withOwn o).inBuffer (h.withOwn o).inBuffer 0
      (.start (h.withOwn o).parseState (h.withOwn o).headers) =
        scan h.inBuffer h.inBuffer 0 (.start h.parseState h.headers) := rfl
  unfold parseHeaders
  rw [hscan]
  cases scan h.inBuffer h.inBuffer 0 (.start h.parseState h.headers) with
  | error s => rfl
  | ok p =>
    dsimp only
    split_ifs <;> rfl

/-- a connection that waits for header fields logs its version -/
theorem headerStage_withOwn {c : Ctx} (hs : c.http.state = .parseHeaders) (o : Own) (hv : o.version = c.http.version) :
    (c.withOwn o).headerStage = (c.headerStage.1.withOwn o, c.headerStage.2) := by
  have hs' : (c.withOwn o).http.state = .parseHeaders := hs
  unfold headerStage
  rw [if_pos hs, if_pos hs']
  have hp : (c.withOwn o).http.parseHeaders = (c.http.parseHeaders.1, c.http.parseHeaders.2.withOwn o) :=
    parseHeaders_withOwn c.http o
  rw [hp]
  obtain ⟨p, m, b, hframe, -⟩ := c.http.parseHeaders_frame
  rcases hq : c.http.parseHeaders with ⟨flag, h⟩
  rw [hq] at hframe
  obtain rfl : h = _ := hframe
  cases flag with
  | again => rfl
  | error => rfl
  | success =>
    obtain ⟨rev, last, fd, v, k, t, ts⟩ := o
    obtain rfl : v = c.http.version := hv
    rfl

theorem serve_withOwn (c : Ctx) (o : Own) :
    (c.withOwn o).serve = c.serve.withOwn { o with keepAlive := o.keepAlive || connectionValue c.http } := by
  have hfile : (c.withOwn o).io.fs (cStr (c.withOwn o).http.filename) = c.io.fs (cStr c.http.filename) := rfl
  unfold serve
  rw [hfile]
  cases c.io.fs (cStr c.http.filename) with
  | absent => rfl
  | unreadable size => rfl
  | regular content => rfl
  | directory size =>
    dsimp only
    split_ifs <;> rfl

theorem analysisStage_withOwn {c : Ctx} (hs : c.http.state = .analysis) (o : Own) :
    (c.withOwn o).analysisStage = c.analysisStage.withOwn
      { o with keepAlive := o.keepAlive || (decide (c.http.method = .get) && connectionValue c.http) } := by
  have hs' : (c.withOwn o).http.state = .analysis := hs
  have hm' : (c.withOwn o).http.method = c.http.method := rfl
  rw [analysisStage_eq hs, analysisStage_eq hs', hm']
  by_cases hget : c.http.method = .get
  · rw [if_pos hget, if_pos hget, serve_withOwn, decide_eq_true hget, Bool.true_and]
  · rw [if_neg hget, if_neg hget, decide_eq_false hget, Bool.false_and, Bool.or_false]
    rfl

theorem analysisStage_version (c : Ctx) : c.analysisStage.http.version = c.http.version := by
  obtain ⟨⟨keep, out, hhttp⟩, -⟩ := c.analysisRequest_frame
  have hversion : c.analysisRequest.2.http.version = c.http.version := by rw [hhttp]
  unfold analysisStage
  split_ifs
  · rcases hr : c.analysisRequest with ⟨flag, e⟩
    rw [hr] at hversion
    cases flag <;> exact hversion
  · rfl

/-! ## The stages -/

/-- what becomes of the connection's own: keepAlive_ may be set, and version_ is that of an accepted line -/
structure Next (asks takes : Bool) (o : Own) (d : Ctx) (o' : Own) : Prop where
  keepAlive : o'.keepAlive = (o.keepAlive || asks)
  version : o'.version = if takes then d.http.version else o.version
  line : d.http.state ≠ .parseUri → o'.version = d.http.version

theorem process_headers_withOwn {c : Ctx} (hs : c.http.state = .parseHeaders) (o : Own) (hv : o.version = c.http.version) :
    ∃ o', (c.withOwn o).process = c.process.withOwn o' ∧ o'.keepAlive = (o.keepAlive || c.asks) ∧
      o'.version = c.process.http.version ∧ o'.version = o.version := by
  have hs' : (c.withOwn o).http.state = .parseHeaders := hs
  have hu : c.uriStage = (c, true) := uriStage_skip hs
  have hdone := headerStage_cases hs
  rw [process_headers hs, process_headers hs', headerStage_withOwn hs o hv]
  simp only [asks, analysed, hu, if_true]
  generalize c.headerStage = x at hdone ⊢
  cases hdone with
  | again _ => exact ⟨o, rfl, (Bool.or_false _).symm, hv, rfl⟩
  | reject _ => exact ⟨o, rfl, (Bool.or_false _).symm, hv, rfl⟩
  | @accept p m b _ =>
    simp only [if_true]
    by_cases hpost : c.http.method = .post
    · simp only [hpost, if_true]
      rw [analysisStage_recvBody rfl, analysisStage_recvBody rfl]
      exact ⟨o, rfl, (Bool.or_false _).symm, hv, rfl⟩
    · simp only [if_neg hpost]
      rw [analysisStage_withOwn rfl o]
      refine ⟨_, rfl, rfl, ?_, rfl⟩
      rw [analysisStage_version]
      exact hv

/-- a connection that stops at the request line keeps what is its own -/
theorem process_withOwn_break {c d : Ctx} {o : Own} (hu : c.uriStage = (d, false))
    (hown : (c.withOwn o).uriStage = (d.withOwn o, false)) (hd : d.http.state = .parseUri) :
    ∃ o', (c.withOwn o).process = c.process.withOwn o' ∧ Next c.asks c.takesLine o c.process o' := by
  rw [process_uri_break hu, process_uri_break hown]
  refine ⟨o, rfl, ?_, ?_, ?_⟩
  · simp [asks, analysed, hu]
  · simp [takesLine, hu]
  · exact fun hc => absurd hd hc

theorem process_withOwn {c : Ctx} (h : Ready c) (he : c.http.error = false) (o : Own)
    (hv : c.http.state ≠ .parseUri → o.version = c.http.version) :
    ∃ o', (c.withOwn o).process = c.process.withOwn o' ∧ Next c.asks c.takesLine o c.process o' := by
  rcases h.state he with hs | hs | hs
  · have hdone := uriStage_cases hs h.readpos
    have hown := uriStage_withOwn hs h.readpos o
    rcases hu : c.uriStage with ⟨d, go⟩
    rw [hu] at hdone hown
    cases hdone with
    | again _ => exact process_withOwn_break hu hown hs
    | reject _ _ _ => exact process_withOwn_break hu hown hs
    | @accept line rest r hcr hbuf hr =>
      have hu' : (c.accepted r rest).uriStage = (c.accepted r rest, true) := uriStage_skip rfl
      obtain ⟨o', hproc, hkeep, hver, -⟩ := process_headers_withOwn (c := c.accepted r rest) rfl
        { o with version := (c.accepted r rest).http.version } rfl
      have hown' : (c.withOwn o).process = ((c.accepted r rest).withOwn
          { o with version := (c.accepted r rest).http.version }).process := by
        rw [process_eq, hown, process_headers (c := (c.accepted r rest).withOwn _) rfl]
        rfl
      rw [process_accept hs h.readpos hcr hbuf hr, hown', hproc]
      refine ⟨o', rfl, ?_, ?_, fun _ => hver⟩
      · rw [hkeep]
        simp only [asks, analysed, hu, hu', if_true]
      · rw [hver]
        simp [takesLine, hs, hu]
  · obtain ⟨o', hproc, hkeep, hver, hsame⟩ := process_headers_withOwn hs o (hv (by rw [hs]; decide))
    refine ⟨o', hproc, hkeep, ?_, fun _ => hver⟩
    simp [takesLine, hs, hsame]
  · rw [process_recvBody (c := c) hs, process_recvBody (c := c.withOwn o) hs]
    refine ⟨o, rfl, ?_, ?_, ?_⟩
    · simp [asks, analysed, uriStage, headerStage, hs]
    · simp [takesLine, hs]
    · exact fun _ => hv (by rw [hs]; decide)

/-! ## The activation -/

/-- the activation accepts a request line -/
def takesRequestLine (c : Ctx) : Bool := c.staged.any takesLine

/-- the activation serves a GET request with "Connection: Keep-Alive" -/
def asksKeepAlive (c : Ctx) : Bool := c.staged.any asks

theorem receive_withOwn {c : Ctx} (h : Ready c) (he : c.http.error = false) (o : Own)
    (hv : c.http.state ≠ .parseUri → o.version = c.http.version) :
    ∃ o', (c.withOwn o).receive = c.receive.withOwn o' ∧ Next c.asksKeepAlive c.takesRequestLine o c.receive o' := by
  have hread : (c.withOwn o).readIn = (c.readIn.1, c.readIn.2.1, c.readIn.2.2.withOwn o) := rfl
  have hready := fun d => staged_ready (d := d) h
  simp only [asksKeepAlive, takesRequestLine]
  have hstate : c.readIn.2.2.http.state = c.http.state := rfl
  have hversion : c.readIn.2.2.http.version = c.http.version := rfl
  have herror : c.readIn.2.2.http.error = c.http.error := rfl
  unfold staged at hready ⊢
  unfold receive
  rw [hread]
  generalize c.readIn = x at hready hstate hversion herror ⊢
  obtain ⟨cnt, zero, d⟩ := x
  dsimp only at hready hstate hversion herror ⊢
  have hstill : ∀ e : Ctx, e.http.state = c.http.state → e.http.version = c.http.version →
      ∃ o', e.withOwn o = e.withOwn o' ∧ Next ((none : Option Ctx).any asks) ((none : Option Ctx).any takesLine) o e o' :=
    fun e hes hev => ⟨o, rfl, (Bool.or_false _).symm, rfl, fun hc => (hv (hes ▸ hc)).trans hev.symm⟩
  by_cases hc : d.http.connstate = .disconnecting
  · have hc' : (d.withOwn o).http.connstate = .disconnecting := hc
    rw [if_pos hc, if_pos hc', if_pos hc]
    exact hstill { d with http := { d.http with inBuffer := [] } } hstate hversion
  · have hc' : ¬ (d.withOwn o).http.connstate = .disconnecting := hc
    rw [if_neg hc] at hready
    rw [if_neg hc, if_neg hc', if_neg hc]
    cases cnt with
    | none => exact hstill d.badRequest hstate hversion
    | some cnt =>
      cases zero with
      | false =>
        exact process_withOwn (hready d rfl) (herror.trans he) o (fun hd => (hv (hstate ▸ hd)).trans hversion.symm)
      | true =>
        dsimp only at hready ⊢
        rw [if_pos rfl] at hready
        by_cases h0 : cnt = 0
        · simp only [h0, if_true]
          exact hstill { d with http := { d.http with connstate := .disconnecting } } hstate hversion
        · simp only [h0, if_true, if_false]
          rw [if_neg h0] at hready
          exact process_withOwn (hready _ rfl) (herror.trans he) o (fun hd => (hv (hstate ▸ hd)).trans hversion.symm)

/-- the string that is left in outBuffer_ is not the connection's own -/
theorem outBuffer_withOwn (c : Ctx) (o : Own) (n : ℕ) (out : Bytes) :
    (some n, { c.withOwn o with http := { (c.withOwn o).http with outBuffer := out } }) =
      (some n, { c with http := { c.http with outBuffer := out } }.withOwn o) := rfl

theorem writeOut_withOwn (c : Ctx) (o : Own) : (c.withOwn o).writeOut = (c.writeOut.1, c.writeOut.2.withOwn o) := by
  rcases hw : c.writeAll c.http.outBuffer with ⟨_ | n, d⟩
  · have hw' : (c.withOwn o).writeAll (c.withOwn o).http.outBuffer = (none, d.withOwn o) :=
      congrArg (fun x : Option ℕ × Ctx => (x.1, x.2.withOwn o)) hw
    rw [writeOut_none hw, writeOut_none hw']
  · have hw' : (c.withOwn o).writeAll (c.withOwn o).http.outBuffer = (some n, d.withOwn o) :=
      congrArg (fun x : Option ℕ × Ctx => (x.1, x.2.withOwn o)) hw
    have hbuf : (c.withOwn o).http.outBuffer = c.http.outBuffer := rfl
    rw [writeOut_some hw, writeOut_some hw', hbuf]
    exact outBuffer_withOwn d o n _

theorem handleWrite_withOwn (c : Ctx) (o : Own) : (c.withOwn o).handleWrite = c.handleWrite.withOwn o := by
  have hmask : ∀ d : Ctx, (if (d.withOwn o).http.outBuffer ≠ [] then (d.withOwn o).orEvents EPOLLOUT else d.withOwn o) =
      (if d.http.outBuffer ≠ [] then d.orEvents EPOLLOUT else d).withOwn o := by
    intro d
    change (if d.http.outBuffer ≠ [] then _ else _) = _
    split_ifs <;> rfl
  unfold handleWrite
  change (if c.http.error = false ∧ c.http.connstate ≠ .disconnected then _ else _) = _
  split_ifs
  · rw [writeOut_withOwn]
    rcases c.writeOut with ⟨_ | n, d⟩
    · exact hmask { d with http := { d.http with channel := d.http.channel.setEvents 0, error := true } }
    · exact hmask d
  · rfl

theorem flush_withOwn (c : Ctx) (o : Own) : (c.withOwn o).flush = c.flush.withOwn o := by
  unfold flush
  change (if c.http.outBuffer ≠ [] then _ else _) = _
  split_ifs
  · exact handleWrite_withOwn c o
  · rfl

theorem respond_withOwn (c : Ctx) (o : Own) :
    ∃ o', (c.withOwn o).respond = (c.respond.1.withOwn o', c.respond.2) ∧ o'.keepAlive = o.keepAlive ∧
      o'.version = o.version := by
  cases he : c.http.error with
  | true =>
    rw [respond_failed he, respond_failed (c := c.withOwn o) he]
    exact ⟨o, rfl, rfl, rfl⟩
  | false =>
    rw [respond_open he, respond_open (c := c.withOwn o) he, flush_withOwn]
    change ∃ o', (if c.flush.http.error = false ∧ c.flush.http.state = .finish then ((c.flush.withOwn o).reset, _)
      else if c.flush.http.error = false ∧ c.flush.http.connstate = .disconnected then
        ((c.flush.withOwn o).orEvents EPOLLIN, false)
      else (c.flush.withOwn o, false)) = _ ∧ _
    split_ifs
    · exact ⟨{ o with timer := none, timers := resetTimer o.timers o.timer }, rfl, rfl, rfl⟩
    · exact ⟨o, rfl, rfl, rfl⟩
    · exact ⟨o, rfl, rfl, rfl⟩

/-- handleRead ends in the state of the stages, or waits for a request line again -/
theorem respond_version (c : Ctx) : c.respond.1.http.version = c.http.version ∧
    (c.respond.1.http.state = c.http.state ∨ c.respond.1.http.state = .parseUri) ∧
      c.respond.1.http.keepAlive = c.http.keepAlive := by
  obtain ⟨ev, err, out, hhttp, -⟩ := c.flush_frame
  have hflush : c.flush.http.version = c.http.version ∧ c.flush.http.state = c.http.state ∧
      c.flush.http.keepAlive = c.http.keepAlive := by rw [hhttp]; exact ⟨rfl, rfl, rfl⟩
  obtain ⟨hv, hs, hk⟩ := hflush
  have hcases := c.respond_cases
  generalize c.respond = r at hcases ⊢
  cases hcases with
  | failed _ => exact ⟨rfl, Or.inl rfl, rfl⟩
  | finished _ _ _ _ _ => exact ⟨hv, Or.inr rfl, hk⟩
  | waiting _ => exact ⟨hv, Or.inl hs, hk⟩
  | closed _ _ => exact ⟨hv, Or.inl hs, hk⟩

/-- **One activation, on two connections that differ in what is their own.** -/
theorem handleReadOnce_withOwn {c : Ctx} (h : Ready c) (he : c.http.error = false) (o : Own)
    (hv : c.http.state ≠ .parseUri → o.version = c.http.version) :
    ∃ o', (c.withOwn o).handleReadOnce = (c.handleReadOnce.1.withOwn o', c.handleReadOnce.2) ∧
      Next c.asksKeepAlive c.takesRequestLine o c.handleReadOnce.1 o' := by
  obtain ⟨o₁, hrec, hnext⟩ := receive_withOwn h he o hv
  obtain ⟨o₂, hresp, hkeep, hver⟩ := c.receive.respond_withOwn o₁
  obtain ⟨hv', hs', -⟩ := c.receive.respond_version
  refine ⟨o₂, ?_, ?_, ?_, ?_⟩
  · rw [handleReadOnce, hrec, hresp]; rfl
  · rw [hkeep, hnext.keepAlive]
  · rw [hver, hnext.version]
    exact (congrArg (fun v => if c.takesRequestLine then v else o.version) hv').symm
  · intro hs
    rw [hver, handleReadOnce, hv']
    apply hnext.line
    rcases hs' with hs' | hs'
    · intro hc
      exact hs (hs'.trans hc)
    · exact absurd hs' hs

/-- what one activation leaves in keepAlive_ and version_ -/
theorem handleReadOnce_own {c : Ctx} (h : Ready c) (he : c.http.error = false) :
    c.handleReadOnce.1.http.keepAlive = (c.http.keepAlive || c.asksKeepAlive) ∧
      (c.takesRequestLine = false → c.handleReadOnce.1.http.version = c.http.version) := by
  obtain ⟨o', hown, hnext⟩ := handleReadOnce_withOwn h he c.own (fun _ => rfl)
  have hctx : c.handleReadOnce.1 = c.handleReadOnce.1.withOwn o' := congrArg Prod.fst hown
  have hkeep : c.handleReadOnce.1.http.keepAlive = o'.keepAlive := congrArg (fun d : Ctx => d.http.keepAlive) hctx
  have hver : c.handleReadOnce.1.http.version = o'.version := congrArg (fun d : Ctx => d.http.version) hctx
  refine ⟨hkeep.trans hnext.keepAlive, ?_⟩
  intro htakes
  rw [hver, hnext.version, htakes]
  rfl

end Ctx

/-! ## Two sessions -/

/-- the timeout that handleConn passes to updatePoller; none if it does not call it -/
def HttpData.connTimeout (h : HttpData) : Option ℕ :=
  if h.error = false ∧ h.connstate = .connected then
    if h.channel.events ≠ 0 then some (if h.keepAlive then DEFAULT_KEEP_ALIVE_TIME else DEFAULT_EXPIRED_TIME)
    else if h.keepAlive then some DEFAULT_KEEP_ALIVE_TIME
    else some (DEFAULT_KEEP_ALIVE_TIME >>> 1)
  else none

/-- both connections give the same result: the parse outcome with what is left to parse, the members of the request, the
response as far as it is sent and what waits, the interest mask, and the timeout that handleConn would pass on -/
structure Agree (c d : Ctx) : Prop where
  error : c.http.error = d.http.error
  connstate : c.http.connstate = d.http.connstate
  state : c.http.state = d.http.state
  parseState : c.http.parseState = d.http.parseState
  readpos : c.http.readpos = d.http.readpos
  inBuffer : c.http.inBuffer = d.http.inBuffer
  outBuffer : c.http.outBuffer = d.http.outBuffer
  method : c.http.method = d.http.method
  filename : c.http.filename = d.http.filename
  version : c.http.version = d.http.version
  headers : c.http.headers = d.http.headers
  events : c.http.channel.events = d.http.channel.events
  io : c.io = d.io
  keepAlive : c.http.keepAlive = d.http.keepAlive
  timeout : c.http.connTimeout = d.http.connTimeout

theorem agree_withOwn {c : Ctx} {o : Own} :
    Agree c (c.withOwn o) ↔ c.http.version = o.version ∧ c.http.keepAlive = o.keepAlive := by
  constructor
  · intro h
    exact ⟨h.version, h.keepAlive⟩
  · rintro ⟨hv, hk⟩
    refine ⟨rfl, rfl, rfl, rfl, rfl, rfl, rfl, rfl, rfl, hv, rfl, rfl, rfl, hk, ?_⟩
    simp only [HttpData.connTimeout, Ctx.withOwn, HttpData.withOwn, hk]
    rfl

theorem Agree.eq_withOwn {c d : Ctx} (h : Agree c d) : d = c.withOwn d.own := by
  obtain ⟨⟨⟨ev, rev, last⟩, fd, err, inb, outb, cs, m, v, f, rp, k, st, ps, hd, tm⟩, io, tms⟩ := c
  obtain ⟨⟨⟨ev', rev', last'⟩, fd', err', inb', outb', cs', m', v', f', rp', k', st', ps', hd', tm'⟩, io', tms'⟩ := d
  obtain ⟨h1, h2, h3, h4, h5, h6, h7, h8, h9, -, h11, h12, h13, -, -⟩ := h
  simp only at h1 h2 h3 h4 h5 h6 h7 h8 h9 h11 h12 h13
  subst h1 h2 h3 h4 h5 h6 h7 h8 h9 h11 h12 h13
  rfl

/-- what is done alike to both keeps them in agreement -/
theorem Agree.map {c d : Ctx} (h : Agree c d) (f : Ctx → Ctx) (hf : ∀ o, f (c.withOwn o) = (f c).withOwn o)
    (hv : (f c).http.version = c.http.version) (hk : (f c).http.keepAlive = c.http.keepAlive) : Agree (f c) (f d) := by
  have hown : f d = (f c).withOwn d.own :=
    calc f d = f (c.withOwn d.own) := congrArg f h.eq_withOwn
      _ = (f c).withOwn d.own := hf d.own
  rw [hown, agree_withOwn, hv, hk]
  exact ⟨h.version, h.keepAlive⟩

namespace Session

/-- two sessions at the same point with the same result -/
structure Twins (s t : Session) : Prop where
  ok : Ok s
  ok' : Ok t
  reading : s.reading = t.reading
  agree : Agree s.ctx t.ctx

theorem agree_handleWrite {c d : Ctx} (h : Agree c d) : Agree c.handleWrite d.handleWrite := by
  obtain ⟨ev, err, out, hhttp, -⟩ := c.handleWrite_frame
  exact h.map Ctx.handleWrite c.handleWrite_withOwn (by rw [hhttp]) (by rw [hhttp])

/-- an activation of each -/
theorem agree_activation {c d : Ctx} (h : Agree c d) (hready : c.Ready) (he : c.http.error = false) :
    Agree c.handleReadOnce.1 d.handleReadOnce.1 ∧ c.handleReadOnce.2 = d.handleReadOnce.2 := by
  obtain ⟨o', hown, hnext⟩ := Ctx.handleReadOnce_withOwn hready he d.own (fun _ => h.version.symm)
  obtain ⟨hkeep, hver⟩ := Ctx.handleReadOnce_own hready he
  rw [← h.eq_withOwn] at hown
  rw [hown]
  refine ⟨agree_withOwn.2 ⟨?_, ?_⟩, rfl⟩
  · rw [hnext.version]
    cases htakes : c.takesRequestLine with
    | true => rfl
    | false => exact (hver htakes).trans h.version
  · rw [hkeep, hnext.keepAlive, h.keepAlive]
    rfl

theorem twins_step {s t : Session} (h : Twins s t) (o : Op) : Option.Rel Twins (step s o) (step t o) := by
  have hok := ok_step s o
  have hok' := ok_step t o
  cases o with
  | handleEvents =>
    simp only [step, ← h.reading] at hok hok' ⊢
    split_ifs at hok hok' ⊢
    · exact .none
    · refine .some ⟨hok _ h.ok rfl, hok' _ h.ok' rfl, rfl, ?_⟩
      exact h.agree.map (fun c => { c with http := { c.http with channel := c.http.channel.setEvents 0 } }) (fun _ => rfl)
        rfl rfl
  | handleRead reads writes fs =>
    simp only [step, ← h.reading, ← h.agree.error] at hok hok' ⊢
    split_ifs at hok hok' ⊢
    · exact .none
    · refine .some ⟨hok _ h.ok rfl, hok' _ h.ok' rfl, rfl, ?_⟩
      exact h.agree.map (fun c => { c with io := { c.io with reads := reads, writes := writes, fs := fs } }) (fun _ => rfl)
        rfl rfl
  | activation =>
    simp only [step, ← h.reading] at hok hok' ⊢
    split_ifs at hok hok' ⊢ with hr
    · obtain ⟨hagree, hagain⟩ := agree_activation h.agree h.ok.ready (h.ok.reading hr)
      have hfault : s.ctx.handleReadOnce.1.io.fault = t.ctx.handleReadOnce.1.io.fault := by rw [hagree.io]
      simp only [activate, ← hfault] at hok hok' ⊢
      split_ifs at hok hok' ⊢
      · exact .none
      · exact .some ⟨hok _ h.ok rfl, hok' _ h.ok' rfl, hagain, hagree⟩
    · exact .none
  | handleWrite writes =>
    simp only [step, ← h.reading] at hok hok' ⊢
    split_ifs at hok hok' ⊢
    · exact .none
    · refine .some ⟨hok _ h.ok rfl, hok' _ h.ok' rfl, rfl, ?_⟩
      apply agree_handleWrite
      exact h.agree.map (fun c => { c with io := { c.io with writes := writes } }) (fun _ => rfl) rfl rfl

/-- **Once two sessions agree, they agree for good.** -/
theorem twins_run {s t : Session} (h : Twins s t) (ops : List Op) :
    Option.Rel Twins (Machine.run step s ops) (Machine.run step t ops) := by
  induction ops generalizing s t with
  | nil => exact .some h
  | cons o ops ih =>
    simp only [Machine.run]
    have hstep := twins_step h o
    generalize step s o = x at hstep ⊢
    generalize step t o = y at hstep ⊢
    cases hstep with
    | none => exact .none
    | some h' => exact ih h'

/-- two sessions at the same point give the same results for good if and only if they agree now -/
theorem agree_run_iff {s t : Session} (hs : Ok s) (ht : Ok t) (hr : s.reading = t.reading) :
    (∀ ops, Option.Rel (fun s t => Agree s.ctx t.ctx) (Machine.run step s ops) (Machine.run step t ops)) ↔
      Agree s.ctx t.ctx := by
  constructor
  · intro h
    have hnow := h []
    cases hnow with
    | some hagree => exact hagree
  · intro h ops
    have hrun := twins_run ⟨hs, ht, hr, h⟩ ops
    generalize Machine.run step s ops = x at hrun ⊢
    generalize Machine.run step t ops = y at hrun ⊢
    cases hrun with
    | none => exact .none
    | some h' => exact .some h'.agree

/-- an activation of each, and what follows: the same results if the process dies, or if the two agree after it -/
theorem agree_activation_iff {s t : Session} (hs : Ok s) (ht : Ok t) (hr : s.reading = true) (hr' : t.reading = true)
    (hfault : s.ctx.handleReadOnce.1.io.fault = t.ctx.handleReadOnce.1.io.fault)
    (hagain : s.ctx.handleReadOnce.2 = t.ctx.handleReadOnce.2) :
    (∀ ops, Option.Rel (fun s t => Agree s.ctx t.ctx) (Machine.run step s (.activation :: ops))
        (Machine.run step t (.activation :: ops))) ↔
      s.ctx.handleReadOnce.1.io.fault = true ∨ Agree s.ctx.handleReadOnce.1 t.ctx.handleReadOnce.1 := by
  have hok := ok_step s .activation
  have hok' := ok_step t .activation
  simp only [Machine.run, step, hr, hr', if_true, activate, ← hfault] at hok hok' ⊢
  split_ifs at hok hok' ⊢ with hdead
  · exact ⟨fun _ => Or.inl hdead, fun _ _ => .none⟩
  · rw [or_iff_right hdead]
    exact agree_run_iff (hok _ hs rfl) (hok' _ ht rfl) hagain

end Session

end Glacier
