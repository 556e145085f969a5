/-
A connection that is used again, after any history of completed requests.

What reset() leaves of the history is keepAlive_, which says whether any request has asked for Keep-Alive, and version_,
which is that of the last request (`Recorded`). The next request shows them unless it sets them itself.
- `firstLine`, `firstRequest`: the request at the front of a text, by the parsers;
- `Unaffected`: the next request, and all that follows, gives the same results on two connections;
- `unaffected_iff`: the histories and requests for which it does.
-/
import Glacier.Http.Independence
import Glacier.Http.ChunkIndependence
import Glacier.Net.Connections

namespace Glacier

open Cxx HttpData

/-! ## What a history leaves behind -/

/-- "Connection: Keep-Alive" in the header fields of a GET request -/
def Request.asks (r : Request) : Bool :=
  decide (r.method = .get) && Ctx.connectionValue { HttpData.new 0 with headers := r.headers }

/-- some request has asked for Keep-Alive -/
def asked (rs : List Request) : Bool := rs.any Request.asks

/-- the version of the last request -/
def lastVersion (rs : List Request) : HttpVersion := (rs.getLast?.map Request.version).getD .http11

theorem connectionValue_congr {h h' : HttpData} (hh : h.headers = h'.headers) :
    Ctx.connectionValue h = Ctx.connectionValue h' := by
  rw [Ctx.connectionValue, Ctx.connectionValue, hh]

theorem asked_append (rs : List Request) (r : Request) : asked (rs ++ [r]) = (asked rs || r.asks) := by
  simp [asked]

theorem lastVersion_append (rs : List Request) (r : Request) : lastVersion (rs ++ [r]) = r.version := by
  simp [lastVersion]

namespace Ctx

/-- keepAlive_ and version_ say what the requests so far have said -/
structure Recorded (c : Ctx) : Prop where
  keepAlive : c.http.error = false → c.http.state ≠ .recvBody → c.http.keepAlive = asked c.io.requests
  version : c.http.error = false → c.http.state = .parseUri ∨ c.http.state = .finish →
    c.http.version = lastVersion c.io.requests

/-- nothing is said about a connection with an error -/
theorem Recorded.failed {c : Ctx} (h : c.http.error = true) : Recorded c := by
  constructor
  · intro he
    rw [h] at he; cases he
  · intro he
    rw [h] at he; cases he

theorem Recorded.congr {c d : Ctx} (h : Recorded c) (he : d.http.error = false → c.http.error = false)
    (hs : d.http.state = c.http.state) (hk : d.http.keepAlive = c.http.keepAlive)
    (hv : d.http.version = c.http.version) (hr : d.io.requests = c.io.requests) : Recorded d := by
  constructor
  · intro hd
    rw [hs, hk, hr]; exact h.keepAlive (he hd)
  · intro hd
    rw [hs, hv, hr]; exact h.version (he hd)

theorem process_headers_recorded {c : Ctx} (hs : c.http.state = .parseHeaders) (h : Recorded c)
    (hfault : c.process.io.fault = false) : Recorded c.process := by
  have hdone := headerStage_cases hs
  rw [process_headers hs] at hfault ⊢
  generalize c.headerStage = x at hdone hfault ⊢
  cases hdone with
  | again _ => exact h.congr id rfl rfl rfl rfl
  | reject _ => exact .failed rfl
  | @accept p m b _ =>
    simp only [if_true] at hfault ⊢
    by_cases hpost : c.http.method = .post
    · simp only [hpost, if_true] at hfault ⊢
      constructor
      · intro _ hne
        exact absurd rfl hne
      · intro _ hc
        rcases hc with hc | hc <;> cases hc
    · simp only [if_neg hpost] at hfault ⊢
      set e : Ctx := logRequest { c.scanned p m b with http := { (c.scanned p m b).http with state := .analysis } }
      have hdone := analysisStage_cases (c := e) rfl
      generalize e.analysisStage = d at hdone hfault ⊢
      generalize e.analysisAnswer = r at hdone
      cases hdone with
      | noGet _ => exact .failed rfl
      | absent _ => exact .failed rfl
      | unreadable _ => exact .failed rfl
      | fault _ _ hd => rw [hd] at hfault; cases hfault
      | file hget content =>
        have hconn : connectionValue e.http = connectionValue { HttpData.new 0 with headers := m } :=
          connectionValue_congr rfl
        constructor
        · intro he _
          have hk : c.http.keepAlive = asked c.io.requests := h.keepAlive he (by rw [hs]; decide)
          have hasks : Request.asks ⟨e.http.method, e.http.version, e.http.filename, m, b⟩ = connectionValue e.http := by
            rw [Request.asks, hconn, decide_eq_true hget, Bool.true_and]
          calc (c.http.keepAlive || connectionValue e.http)
              = (asked c.io.requests || Request.asks ⟨e.http.method, e.http.version, e.http.filename, m, b⟩) := by
                rw [hk, hasks]
            _ = asked e.io.requests := (asked_append _ _).symm
        · intro _ _
          exact (lastVersion_append c.io.requests ⟨e.http.method, e.http.version, e.http.filename, m, b⟩).symm

theorem process_recorded {c : Ctx} (hready : Ready c) (he : c.http.error = false) (h : Recorded c)
    (hfault : c.process.io.fault = false) : Recorded c.process := by
  have hdone := process_cases hready he
  generalize c.process = d, c.analysed = e, c.stageAnswer = a at hdone hfault ⊢
  cases hdone with
  | again _ => exact h
  | reject _ _ _ _ => exact .failed rfl
  | @accept line rest r hs hcr hbuf hr =>
    have hlined : Recorded (c.accepted r rest) := by
      constructor
      · intro _ _
        exact h.keepAlive he (by rw [hs]; decide)
      · intro _ hc
        rcases hc with hc | hc <;> cases hc
    exact process_headers_recorded rfl hlined hfault
  | headers hs => exact process_headers_recorded hs h hfault
  | body _ => exact h

theorem receive_recorded {c : Ctx} (hready : Ready c) (he : c.http.error = false) (h : Recorded c)
    (hfault : c.receive.io.fault = false) : Recorded c.receive := by
  rcases c.receive_staged with ⟨d, hd, hrec⟩ | ⟨-, -, -, hrec⟩ | ⟨-, -, hrec⟩
  · rw [hrec] at hfault ⊢
    obtain ⟨he', h'⟩ : d.http.error = false ∧ Recorded d := by
      obtain ⟨cs, rfl, -⟩ := staged_some hd
      exact ⟨he, h.congr id rfl rfl rfl rfl⟩
    exact process_recorded (staged_ready hready hd) he' h' hfault
  · rw [hrec]; exact .failed rfl
  · rw [hrec]; exact h.congr id rfl rfl rfl rfl

/-- sending keeps what is recorded -/
theorem Wrote.recorded {c d : Ctx} (hw : Wrote c d) (h : Recorded c) : Recorded d := by
  obtain ⟨ev, err, out, hhttp, -, -, hreq, himp⟩ := hw
  refine h.congr ?_ ?_ ?_ ?_ hreq
  · intro hd
    exact (himp (by rw [hhttp] at hd; exact hd)).1
  · rw [hhttp]
  · rw [hhttp]
  · rw [hhttp]

theorem respond_recorded {c : Ctx} (h : Recorded c) (hconn : c.http.connstate ≠ .disconnected) : Recorded c.respond.1 := by
  by_cases he : c.http.error = false
  · have hflush := c.flush_frame.recorded h
    have hstate : c.flush.http.state = c.http.state := by
      obtain ⟨ev, err, out, hhttp, -⟩ := c.flush_frame
      rw [hhttp]
    rw [respond_eq he hconn]
    split_ifs with hf
    · have hfin : c.flush.http.state = .finish := hstate.trans hf.2
      constructor
      · intro _ _
        exact hflush.keepAlive hf.1 (by rw [hfin]; decide)
      · intro _ _
        exact hflush.version hf.1 (Or.inr hfin)
    · exact hflush
  · rw [respond_failed (by simpa using he)]; exact h

end Ctx

namespace Session

structure History (s : Session) : Prop extends Ok s where
  recorded : s.ctx.Recorded

theorem history_step (s : Session) (o : Op) (t : Session) (h : History s) (hstep : step s o = some t) : History t := by
  have hkeep : Ok t := ok_step s o t h.toOk hstep
  refine ⟨hkeep, ?_⟩
  cases o with
  | handleEvents =>
    simp only [step] at hstep
    split_ifs at hstep
    cases hstep
    exact h.recorded.congr id rfl rfl rfl rfl
  | handleRead reads writes fs =>
    simp only [step] at hstep
    split_ifs at hstep
    cases hstep
    exact h.recorded.congr id rfl rfl rfl rfl
  | handleWrite writes =>
    simp only [step] at hstep
    split_ifs at hstep
    cases hstep
    apply (Ctx.handleWrite_frame _).recorded
    exact h.recorded.congr id rfl rfl rfl rfl
  | activation =>
    simp only [step] at hstep
    split_ifs at hstep with hr
    obtain ⟨hfault, rfl⟩ := activate_some hstep
    have hconn := (Ctx.receive_ready h.ready (h.reading hr) hfault).connstate
    exact Ctx.respond_recorded (Ctx.receive_recorded h.ready (h.reading hr) h.recorded hfault) hconn

theorem history_run {fd : ℕ} {timer : Option ℕ} {timers : List Timer} {ops : List Op} {t : Session}
    (hrun : Machine.run step (accepted fd timer timers) ops = some t) : History t := by
  apply Machine.run_inv history_step _ hrun
  exact ⟨ok_accepted fd timer timers, fun _ _ => rfl, fun _ _ => rfl⟩

end Session

/-! ## The next request -/

/-- the request line at the front of a text, if it is complete and accepted, and what follows its CR -/
def firstLine (text : Bytes) : Option (RequestLine × Bytes) :=
  match find text [CR] 0 with
  | none => none
  | some pos =>
    match parseRequestLine (substr text 0 pos) ⟨.get, .http11, []⟩ with
    | (.success, r) => some (r, text.drop (pos + 1))
    | _ => none

/-- the request at the front of a text, if it is complete and accepted -/
def firstRequest (text : Bytes) : Option Request :=
  (firstLine text).bind fun x =>
    match ({ HttpData.new 0 with inBuffer := x.2 }.setRequestLine x.1).parseHeaders with
    | (.success, h) => some ⟨h.method, h.version, h.filename, h.headers, h.inBuffer⟩
    | _ => none

/-- the file of a GET request is a directory, of which no mapping can be made -/
def Request.dies (fs : FileSystem) (r : Request) : Bool :=
  decide (r.method = .get) &&
    match fs (cStr r.filename) with
    | .directory size => decide (size ≠ 0)
    | _ => false

/-- what read(2) delivers to the parsers -/
def delivered (reads : List ReadResult) : Bytes :=
  match readn reads [] with
  | (some _, _, text, _) => text
  | (none, _) => []

theorem firstLine_none {text : Bytes} (h : CR ∉ text) : firstLine text = none := by
  rw [firstLine, find_byte_none CR text h]

theorem firstLine_line {line rest : Bytes} (h : CR ∉ line) :
    firstLine (line ++ CR :: rest) =
      match parseRequestLine line ⟨.get, .http11, []⟩ with
      | (.success, r) => some (r, rest)
      | _ => none := by
  have hline : substr (line ++ CR :: rest) 0 line.length = line := by simp [substr]
  have hrest : (line ++ CR :: rest).drop (line.length + 1) = rest := by
    rw [← List.drop_drop, List.drop_left]; rfl
  rw [firstLine, find_append_byte CR line rest h]
  simp only [hline, hrest]

namespace HttpData

/-- parseHeaders reads parse_state_, headers_ and the buffer only -/
theorem parseHeaders_congr {h g : HttpData} (hs : h.parseState = g.parseState) (hm : h.headers = g.headers)
    (hb : h.inBuffer = g.inBuffer) :
    h.parseHeaders.1 = g.parseHeaders.1 ∧ h.parseHeaders.2.headers = g.parseHeaders.2.headers := by
  unfold parseHeaders
  rw [hs, hm, hb]
  cases scan g.inBuffer g.inBuffer 0 (.start g.parseState g.headers) with
  | error s => exact ⟨rfl, rfl⟩
  | ok p =>
    dsimp only
    split_ifs <;> exact ⟨rfl, rfl⟩

end HttpData

namespace Ctx

theorem serve_fault (c : Ctx) : c.serve.io.fault = (c.io.fault ||
    match c.io.fs (cStr c.http.filename) with
    | .directory size => decide (size ≠ 0)
    | _ => false) := by
  unfold serve
  cases c.io.fs (cStr c.http.filename) with
  | absent => exact (Bool.or_false _).symm
  | unreadable size => exact (Bool.or_false _).symm
  | regular content => exact (Bool.or_false _).symm
  | directory size =>
    by_cases hsize : size = 0
    · simp [hsize, kept]
    · simp [hsize]

/-- the process dies in analysisRequest for the file of a GET request only -/
theorem analysisStage_fault {c : Ctx} (hs : c.http.state = .analysis) (hfault : c.io.fault = false) {r : Request}
    (hmethod : r.method = c.http.method) (hfilename : r.filename = c.http.filename) :
    c.analysisStage.io.fault = r.dies c.io.fs := by
  rw [analysisStage_eq hs, Request.dies, hmethod, hfilename]
  by_cases hget : c.http.method = .get
  · rw [if_pos hget, serve_fault, hfault, decide_eq_true hget, Bool.false_or, Bool.true_and]
  · rw [if_neg hget, decide_eq_false hget, Bool.false_and]
    exact hfault

/-- the header fields behind an accepted request line are parsed as those of a new connection -/
theorem process_accepted {c : Ctx} {r : RequestLine} {rest text : Bytes} (hfirst : firstLine text = some (r, rest))
    (hstart : c.http.parseState = .start) (hheaders : c.http.headers = fun _ => none) (hfault : c.io.fault = false) :
    (c.accepted r rest).asks = (firstRequest text).any Request.asks ∧
      (c.accepted r rest).process.io.fault = (firstRequest text).any (Request.dies c.io.fs) := by
  have hskip : (c.accepted r rest).uriStage = (c.accepted r rest, true) := uriStage_skip rfl
  rw [firstRequest, hfirst, Option.bind_some]
  set h₀ : HttpData := { HttpData.new 0 with inBuffer := rest }.setRequestLine r
  have hframe₀ := h₀.parseHeaders_frame
  obtain ⟨hflag, hfields⟩ := parseHeaders_congr (h := (c.accepted r rest).http) (g := h₀) hstart hheaders rfl
  have hdone := headerStage_cases (c := c.accepted r rest) rfl
  rw [process_headers (c := c.accepted r rest) rfl]
  simp only [asks, analysed, hskip, if_true]
  generalize (c.accepted r rest).headerStage = x at hdone ⊢
  obtain ⟨p₀, m₀, b₀, hframe₀, -⟩ := hframe₀
  rcases hp₀ : h₀.parseHeaders with ⟨flag, h₁⟩
  rw [hp₀] at hflag hfields hframe₀
  cases hdone with
  | again hp =>
    rw [hp] at hflag
    obtain rfl : flag = .again := hflag.symm
    exact ⟨rfl, hfault⟩
  | reject hp =>
    rw [hp] at hflag
    obtain rfl : flag = .error := hflag.symm
    exact ⟨rfl, hfault⟩
  | @accept p m b hp =>
    rw [hp] at hflag hfields
    obtain rfl : flag = .success := hflag.symm
    obtain rfl : h₁ = _ := hframe₀
    obtain rfl : m = m₀ := hfields
    simp only [if_true, Option.any_some]
    by_cases hpost : (c.accepted r rest).http.method = .post
    · have hpost' : h₀.method = .post := hpost
      simp only [hpost, if_true, hpost', Request.asks, Request.dies]
      rw [analysisStage_recvBody rfl]
      exact ⟨rfl, hfault⟩
    · simp only [if_neg hpost]
      set e : Ctx := logRequest { (c.accepted r rest).scanned p m b with http :=
        { ((c.accepted r rest).scanned p m b).http with state := .analysis } }
      have hlive : e.io.fault = false := hfault
      exact ⟨rfl, analysisStage_fault (c := e) rfl hlive rfl rfl⟩

/-- the stages, on a connection that waits for a request line -/
theorem process_first {c : Ctx} (hs : c.http.state = .parseUri) (hpos : c.http.readpos = 0)
    (hstart : c.http.parseState = .start) (hheaders : c.http.headers = fun _ => none) (hfault : c.io.fault = false) :
    c.takesLine = (firstLine c.http.inBuffer).isSome ∧ c.asks = (firstRequest c.http.inBuffer).any Request.asks ∧
      c.process.io.fault = (firstRequest c.http.inBuffer).any (Request.dies c.io.fs) := by
  have hdone := uriStage_cases hs hpos
  rcases hu : c.uriStage with ⟨d, go⟩
  rw [hu] at hdone
  cases hdone with
  | again hcr =>
    rw [process_uri_break hu, firstRequest, firstLine_none hcr]
    simp [takesLine, asks, analysed, hu, hfault]
  | @reject line rest r hcr hbuf hr =>
    have hfirst : firstLine c.http.inBuffer = none := by
      rw [hbuf, firstLine_line hcr]
      rcases hp : parseRequestLine line ⟨.get, .http11, []⟩ with ⟨flag, r'⟩
      cases flag with
      | success =>
        have := parseRequestLine_success hp c.http.requestLine
        rw [hr] at this
        cases this
      | again => rfl
      | error => rfl
    rw [process_uri_break hu, firstRequest, hfirst]
    have hbad : (c.rejected r).io.fault = false := hfault
    simp [takesLine, asks, analysed, hu, hbad]
  | @accept line rest r hcr hbuf hr =>
    have hfirst : firstLine c.http.inBuffer = some (r, rest) := by
      rw [hbuf, firstLine_line hcr, parseRequestLine_success hr ⟨.get, .http11, []⟩]
    have hskip : (c.accepted r rest).uriStage = (c.accepted r rest, true) := uriStage_skip rfl
    have hasks : c.asks = (c.accepted r rest).asks := by simp only [asks, analysed, hu, hskip, if_true]
    have htakes : c.takesLine = true := by simp [takesLine, hs, hu]
    rw [process_accept hs hpos hcr hbuf hr, hasks, htakes]
    refine ⟨?_, process_accepted hfirst hstart hheaders hfault⟩
    rw [hfirst]; rfl

/-- readn counts the bytes that it appends -/
theorem readLoop_count (rs : List ReadResult) (sum n : ℕ) (buf : Bytes) (h : (readLoop rs sum buf).1 = some n) :
    (readLoop rs sum buf).2.2.1.length + sum = buf.length + n := by
  induction rs generalizing sum buf with
  | nil =>
    obtain rfl : sum = n := Option.some.inj h
    rfl
  | cons r rs ih =>
    cases r with
    | intr => exact ih sum buf h
    | again =>
      obtain rfl : sum = n := Option.some.inj h
      rfl
    | fail => cases h
    | data bs =>
      cases bs with
      | nil =>
        obtain rfl : sum = n := Option.some.inj h
        rfl
      | cons b bs =>
        have hcount := ih (sum + (b :: bs).length) (buf ++ b :: bs) h
        rw [List.length_append] at hcount
        rw [readLoop]
        omega

/-- the stages begin with what is delivered, or nothing is -/
theorem staged_delivered {c : Ctx} (hconn : c.http.connstate = .connected) (hbuf : c.http.inBuffer = []) :
    (c.staged = none ∧ delivered c.io.reads = []) ∨
      ∃ d, c.staged = some d ∧ d.http.inBuffer = delivered c.io.reads := by
  unfold staged delivered
  have hopen : ¬ c.readIn.2.2.http.connstate = .disconnecting := by
    rw [show c.readIn.2.2.http.connstate = c.http.connstate from rfl, hconn]; decide
  have hcount := fun n => readLoop_count c.io.reads 0 n []
  have hread : c.readIn = ((readn c.io.reads []).1, (readn c.io.reads []).2.1, c.readIn.2.2) := by
    rw [← hbuf]; rfl
  have htext : c.readIn.2.2.http.inBuffer = (readn c.io.reads []).2.2.1 := by rw [← hbuf]; rfl
  rw [hread]
  change ∀ n, (readn c.io.reads []).1 = some n → (readn c.io.reads []).2.2.1.length + 0 = 0 + n at hcount
  generalize readn c.io.reads [] = x at hcount htext ⊢
  obtain ⟨cnt, zero, text, rest⟩ := x
  dsimp only at hcount htext ⊢
  rw [if_neg hopen]
  cases cnt with
  | none => exact Or.inl ⟨rfl, rfl⟩
  | some cnt =>
    cases zero with
    | false => exact Or.inr ⟨c.readIn.2.2, rfl, htext⟩
    | true =>
      dsimp only
      rw [if_pos rfl]
      by_cases h0 : cnt = 0
      · left
        have hlen := hcount cnt rfl
        exact ⟨if_pos h0, List.eq_nil_of_length_eq_zero (by omega)⟩
      · right
        exact ⟨{ c.readIn.2.2 with http := { c.readIn.2.2.http with connstate := .disconnecting } }, if_neg h0, htext⟩

/-- **The next request on an open connection with empty buffers**, by what is delivered of it -/
theorem next_request {c : Ctx} (hidle : Idle c) (hbuf : c.http.inBuffer = []) (hfault : c.io.fault = false) :
    c.takesRequestLine = (firstLine (delivered c.io.reads)).isSome ∧
      c.asksKeepAlive = (firstRequest (delivered c.io.reads)).any Request.asks ∧
      c.receive.io.fault = (firstRequest (delivered c.io.reads)).any (Request.dies c.io.fs) := by
  simp only [takesRequestLine, asksKeepAlive]
  rcases staged_delivered hidle.connstate hbuf with ⟨hnone, htext⟩ | ⟨d, hd, htext⟩
  · have hlive : c.receive.io.fault = false := by
      rcases c.receive_staged with ⟨d, hd, -⟩ | ⟨-, -, -, hrec⟩ | ⟨-, -, hrec⟩
      · rw [hnone] at hd; cases hd
      · rw [hrec]; exact hfault
      · rw [hrec]; exact hfault
    rw [hnone, htext, hlive]
    exact ⟨rfl, rfl, rfl⟩
  · rcases c.receive_staged with ⟨e, he, hrec⟩ | ⟨hnone, -⟩ | ⟨hnone, -⟩
    · obtain rfl : d = e := Option.some.inj (hd.symm.trans he)
      rw [hd, hrec, ← htext]
      obtain ⟨cs, rfl, -⟩ := staged_some hd
      exact process_first hidle.state hidle.readpos hidle.parseState hidle.headers hfault
    · rw [hd] at hnone; cases hnone
    · rw [hd] at hnone; cases hnone

end Ctx

namespace Session

/-! ## Two histories, and one next request -/

/-- the session with its history so far set aside -/
def afresh (s : Session) : Session :=
  { s with
    ctx := { s.ctx with io := { s.ctx.io with sent := [], requests := [] } }
    responses := []
    paths := [] }

/-- the round that handles the next request -/
def round (reads : List ReadResult) (writes : List WriteResult) (fs : FileSystem) : List Op :=
  [.handleEvents, .handleRead reads writes fs, .activation]

/-- the next request, and whatever is done then, gives the same results -/
def Unaffected (s t : Session) (reads : List ReadResult) (writes : List WriteResult) (fs : FileSystem) : Prop :=
  ∀ ops, Option.Rel (fun s t => Agree s.ctx t.ctx) (Machine.run step s.afresh (round reads writes fs ++ ops))
    (Machine.run step t.afresh (round reads writes fs ++ ops))

/-- the session when the activation for the next request begins -/
def begun (s : Session) (reads : List ReadResult) (writes : List WriteResult) (fs : FileSystem) : Session where
  ctx := { s.ctx with
    http := { s.ctx.http with channel := s.ctx.http.channel.setEvents 0 }
    io := ⟨reads, writes, fs, [], [], s.ctx.io.fault⟩ }
  reading := true
  responses := []
  paths := []

theorem run_round {s : Session} (hr : s.reading = false) (he : s.ctx.http.error = false) (reads : List ReadResult)
    (writes : List WriteResult) (fs : FileSystem) (ops : List Op) :
    Machine.run step s.afresh (round reads writes fs ++ ops) =
      Machine.run step (s.begun reads writes fs) (.activation :: ops) := by
  simp only [round, List.cons_append, List.nil_append, Machine.run, step, afresh, hr, he, begun, Bool.false_eq_true,
    if_false, or_self, Option.bind_some]

/-- two connections that wait for a request line with empty buffers differ in what is their own -/
theorem begun_withOwn {s t : Session} (hs : Ok s) (ht : Ok t) (hn : s.ctx.New) (hn' : t.ctx.New)
    (reads : List ReadResult) (writes : List WriteResult) (fs : FileSystem) :
    (t.begun reads writes fs).ctx = (s.begun reads writes fs).ctx.withOwn (t.begun reads writes fs).ctx.own := by
  obtain ⟨hm, hf, -, -⟩ := hs.ready.fresh hn.error hn.state
  obtain ⟨hm', hf', -, -⟩ := ht.ready.fresh hn'.error hn'.state
  have hhttp : (t.begun reads writes fs).ctx.http =
      (s.begun reads writes fs).ctx.http.withOwn (t.begun reads writes fs).ctx.own := by
    simp only [begun, HttpData.withOwn, Ctx.own, hn.error, hn'.error, hn.inBuffer, hn'.inBuffer, hn.outBuffer,
      hn'.outBuffer, hn.connstate, hn'.connstate, hm, hm', hf, hf', hn.readpos, hn'.readpos, hn.state, hn'.state,
      hn.parseState, hn'.parseState, hn.headers, hn'.headers, Channel.setEvents]
  have hio : (t.begun reads writes fs).ctx.io = (s.begun reads writes fs).ctx.io := by
    simp only [begun, hs.fault, ht.fault]
  exact congrArg₂ (fun h io => (⟨h, io, t.ctx.timers⟩ : Ctx)) hhttp hio

/-- the activation for the next request, on both connections -/
theorem agree_begun {s t : Session} (hs : Ok s) (ht : Ok t) (hn : s.ctx.New) (hn' : t.ctx.New)
    (reads : List ReadResult) (writes : List WriteResult) (fs : FileSystem) :
    let c := (s.begun reads writes fs).ctx
    let d := (t.begun reads writes fs).ctx
    c.handleReadOnce.1.io.fault = d.handleReadOnce.1.io.fault ∧ c.handleReadOnce.2 = d.handleReadOnce.2 ∧
      (Agree c.handleReadOnce.1 d.handleReadOnce.1 ↔
        (s.ctx.http.keepAlive = t.ctx.http.keepAlive ∨ c.asksKeepAlive = true) ∧
          (s.ctx.http.version = t.ctx.http.version ∨ c.takesRequestLine = true)) := by
  intro c d
  have hready : c.Ready := ⟨hs.ready.connstate, hs.ready.readpos, hs.ready.state, hs.ready.fresh⟩
  obtain ⟨o', hown, hnext⟩ := Ctx.handleReadOnce_withOwn hready hn.error d.own (fun hne => absurd hn.state hne)
  obtain ⟨hkeep, hver⟩ := Ctx.handleReadOnce_own hready hn.error
  rw [← begun_withOwn hs ht hn hn'] at hown
  change d.handleReadOnce = _ at hown
  rw [hown, agree_withOwn, hnext.keepAlive, hnext.version, hkeep]
  refine ⟨rfl, rfl, ?_⟩
  change (_ ∧ (s.ctx.http.keepAlive || c.asksKeepAlive) = (t.ctx.http.keepAlive || c.asksKeepAlive)) ↔ _
  have hversion : (c.handleReadOnce.1.http.version = if c.takesRequestLine then c.handleReadOnce.1.http.version
      else d.own.version) ↔ s.ctx.http.version = t.ctx.http.version ∨ c.takesRequestLine = true := by
    cases htakes : c.takesRequestLine with
    | true => simp
    | false =>
      rw [hver htakes]
      simp only [Bool.false_eq_true, if_false, or_false]
      rfl
  have hkeepAlive : (s.ctx.http.keepAlive || c.asksKeepAlive) = (t.ctx.http.keepAlive || c.asksKeepAlive) ↔
      s.ctx.http.keepAlive = t.ctx.http.keepAlive ∨ c.asksKeepAlive = true := by
    cases c.asksKeepAlive <;> simp
  rw [hversion, hkeepAlive]
  exact and_comm

theorem ok_begun {s : Session} (h : Ok s) (hn : s.ctx.New) (reads : List ReadResult) (writes : List WriteResult)
    (fs : FileSystem) : Ok (s.begun reads writes fs) :=
  ⟨⟨h.ready.connstate, h.ready.readpos, h.ready.state, h.ready.fresh⟩, fun _ => hn.error, h.fault⟩

/-- **Requests on a reused connection.** Take any two connections after histories of completed requests, waiting for a
request line with both buffers empty, and the same results of read(2) and write(2) and the same files. The next request and
all that follows give the same results on both if and only if both histories have asked for Keep-Alive or neither has, or the
next request asks for it; and both have ended with the same version, or the next request line is accepted; or the process
dies on the next request. -/
theorem unaffected_iff {fd₁ fd₂ : ℕ} {timer₁ timer₂ : Option ℕ} {timers₁ timers₂ : List Timer} {ops₁ ops₂ : List Op}
    {s₁ s₂ : Session} (h₁ : Machine.run step (accepted fd₁ timer₁ timers₁) ops₁ = some s₁)
    (h₂ : Machine.run step (accepted fd₂ timer₂ timers₂) ops₂ = some s₂) (hr₁ : s₁.reading = false)
    (hr₂ : s₂.reading = false) (hn₁ : s₁.ctx.New) (hn₂ : s₂.ctx.New) (reads : List ReadResult)
    (writes : List WriteResult) (fs : FileSystem) :
    Unaffected s₁ s₂ reads writes fs ↔
      (firstRequest (delivered reads)).any (Request.dies fs) = true ∨
        ((asked s₁.ctx.io.requests = asked s₂.ctx.io.requests ∨
            (firstRequest (delivered reads)).any Request.asks = true) ∧
          (lastVersion s₁.ctx.io.requests = lastVersion s₂.ctx.io.requests ∨
            (firstLine (delivered reads)).isSome = true)) := by
  have hist₁ := history_run h₁
  have hist₂ := history_run h₂
  have hk₁ := hist₁.recorded.keepAlive hn₁.error (by rw [hn₁.state]; decide)
  have hk₂ := hist₂.recorded.keepAlive hn₂.error (by rw [hn₂.state]; decide)
  have hv₁ := hist₁.recorded.version hn₁.error (Or.inl hn₁.state)
  have hv₂ := hist₂.recorded.version hn₂.error (Or.inl hn₂.state)
  have hrun₁ := run_round hr₁ hn₁.error reads writes fs
  have hrun₂ := run_round hr₂ hn₂.error reads writes fs
  obtain ⟨hfault, hagain, hagree⟩ := agree_begun hist₁.toOk hist₂.toOk hn₁ hn₂ reads writes fs
  set s := s₁.begun reads writes fs
  set t := s₂.begun reads writes fs
  obtain ⟨htakes, hasks, hdies⟩ := Ctx.next_request (c := s.ctx)
    ⟨hn₁.error, hn₁.connstate, hn₁.state, hn₁.parseState, hn₁.headers, hn₁.readpos⟩ hn₁.inBuffer hist₁.fault
  have hreads : s.ctx.io.reads = reads := rfl
  rw [hreads] at htakes hasks
  have hdies : s.ctx.handleReadOnce.1.io.fault = (firstRequest (delivered reads)).any (Request.dies fs) :=
    (s.ctx.receive.respond_fault).trans hdies
  rw [hk₁, hk₂, hv₁, hv₂, hasks, htakes] at hagree
  unfold Unaffected
  simp only [hrun₁, hrun₂]
  rw [agree_activation_iff (ok_begun hist₁.toOk hn₁ _ _ _) (ok_begun hist₂.toOk hn₂ _ _ _) rfl rfl hfault hagain, hdies,
    hagree]

/-- a connection that waits for a request line with empty buffers -/
theorem new_of_ok {s : Session} (h : Ok s) (he : s.ctx.http.error = false) (hconn : s.ctx.http.connstate = .connected)
    (hs : s.ctx.http.state = .parseUri) (hin : s.ctx.http.inBuffer = []) (hout : s.ctx.http.outBuffer = []) :
    s.ctx.New := by
  obtain ⟨-, -, hstart, hheaders⟩ := h.ready.fresh he hs
  exact ⟨⟨he, hconn, hs, hstart, hheaders, h.ready.readpos⟩, hin, hout⟩

def file : FileSystem := fun _ => .regular (ascii "hi")

/-- a request that asks for Keep-Alive, answered in full -/
def keepAliveRead : List ReadResult := [.data (ascii "GET /a HTTP/1.1\r\nConnection: Keep-Alive\r\n\r\n"), .again]

/-- a request that does not ask for it -/
def plainRead : List ReadResult := [.data (ascii "GET /a HTTP/1.1\r\nHost: x\r\n\r\n"), .again]

/-- a session with one request answered -/
theorem after_keepAlive : ∃ s, Machine.run step (accepted 5 none []) (round keepAliveRead [.wrote 4096] file) = some s ∧
    s.reading = false ∧ s.ctx.New := by
  have hrun : (Machine.run step (accepted 5 none []) (round keepAliveRead [.wrote 4096] file)).map (fun s =>
      ((s.reading, s.ctx.http.error, s.ctx.http.connstate, s.ctx.http.state),
        (s.ctx.http.inBuffer.length, s.ctx.http.outBuffer.length))) =
          some ((false, false, .connected, .parseUri), (0, 0)) := by decide +kernel
  obtain ⟨s, hs, hfields⟩ := Option.map_eq_some_iff.1 hrun
  simp only [Prod.mk.injEq, List.length_eq_zero_iff] at hfields
  obtain ⟨⟨hr, he, hconn, hstate⟩, hin, hout⟩ := hfields
  exact ⟨s, hs, hr, new_of_ok (ok_run (ok_accepted 5 none []) hs) he hconn hstate hin hout⟩

/-- a next request that asks for Keep-Alive itself does not show the history -/
theorem unaffected_iff_keepAlive :
    ∃ s, Machine.run step (accepted 5 none []) (round keepAliveRead [.wrote 4096] file) = some s ∧
      Unaffected (accepted 6 none []) s keepAliveRead [.wrote 4096] file := by
  obtain ⟨s, hs, hr, hnew⟩ := after_keepAlive
  have hopen : (accepted 6 none []).ctx.New := new_of_ok (ok_accepted 6 none []) rfl rfl rfl rfl rfl
  have hstart : Machine.run step (accepted 6 none []) [] = some (accepted 6 none []) := rfl
  refine ⟨s, hs, (unaffected_iff hstart hs rfl hr hopen hnew _ _ _).2 (Or.inr ⟨Or.inr ?_, Or.inr ?_⟩)⟩
  · decide +kernel
  · decide +kernel

/-- after a request with Keep-Alive, a request without it gets keepAlive_ and the timeout of the one before -/
theorem keepAlive_leaks :
    (Machine.run step (accepted 6 none []).afresh (round plainRead [.wrote 4096] file)).map (fun t =>
        (t.ctx.http.keepAlive, t.ctx.http.connTimeout)) = some (false, some 150000) ∧
      ∃ s, (Machine.run step (accepted 5 none []) (round keepAliveRead [.wrote 4096] file) = some s ∧ s.reading = false ∧
          s.ctx.New) ∧
        (Machine.run step s.afresh (round plainRead [.wrote 4096] file)).map (fun t =>
          (t.ctx.http.keepAlive, t.ctx.http.connTimeout)) = some (true, some 300000) ∧
        ¬ Unaffected (accepted 6 none []) s plainRead [.wrote 4096] file := by
  have hplain : (Machine.run step (accepted 6 none []).afresh (round plainRead [.wrote 4096] file)).map (fun t =>
      (t.ctx.http.keepAlive, t.ctx.http.connTimeout)) = some (false, some 150000) := by decide +kernel
  have hafter : ((Machine.run step (accepted 5 none []) (round keepAliveRead [.wrote 4096] file)).bind fun s =>
      Machine.run step s.afresh (round plainRead [.wrote 4096] file)).map (fun t =>
        (t.ctx.http.keepAlive, t.ctx.http.connTimeout)) = some (true, some 300000) := by decide +kernel
  obtain ⟨s, hs, hidle⟩ := after_keepAlive
  rw [hs, Option.bind_some] at hafter
  refine ⟨hplain, s, ⟨hs, hidle⟩, hafter, ?_⟩
  intro h
  have hrel := h []
  obtain ⟨u, hu, hu'⟩ := Option.map_eq_some_iff.1 hplain
  obtain ⟨v, hv, hv'⟩ := Option.map_eq_some_iff.1 hafter
  rw [List.append_nil, hu, hv] at hrel
  cases hrel with
  | some hagree =>
    have hu : u.ctx.http.keepAlive = false := congrArg Prod.fst hu'
    have hv : v.ctx.http.keepAlive = true := congrArg Prod.fst hv'
    have hsame := hagree.keepAlive
    rw [hu, hv] at hsame
    cases hsame

end Session

/-! ## handleConn -/

/-- handleConn after seperateTimer passes connTimeout to updatePoller, or does not call it -/
theorem rearm_connTimeout (l : Connections) (c : ConnId) (now : Timeval) :
    match (l.conns c).connTimeout with
    | some t => ∃ ev, l.rearm c now = (l.setEvents c ev).epollMod c t now
    | none => (∃ ev, l.rearm c now = l.setEvents c ev) ∨ l.rearm c now = l.handleClose c := by
  unfold connTimeout Connections.rearm
  dsimp only
  by_cases hopen : (l.conns c).error = false ∧ (l.conns c).connstate = .connected
  · rw [if_pos hopen, if_pos hopen]
    by_cases hev : (l.conns c).channel.events ≠ 0
    · rw [if_pos hev, if_pos hev]
      exact ⟨_, rfl⟩
    · rw [if_neg hev, if_neg hev]
      cases hk : (l.conns c).keepAlive
      · exact ⟨_, rfl⟩
      · exact ⟨_, rfl⟩
  · rw [if_neg hopen, if_neg hopen]
    dsimp only
    split_ifs
    · exact Or.inl ⟨_, rfl⟩
    · exact Or.inr rfl

end Glacier
