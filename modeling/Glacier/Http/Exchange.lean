/-
A client that waits for each response before it sends the next request.

Its requests may come in pieces, where the cuts are harmless, and with interrupted reads; each response may leave in any
parts that the socket takes. Then the connection serves them all.
- `handleWrite_offered`: a call of handleWrite sends what the socket offers to take;
- `Arrival`, `run_arrivals`: the chunks of a request, one per call of handleRead;
- `Sending`, `run_rounds`: the response, as far as it has left;
- `exchanges_served`: every request is accepted as it was sent, and the bytes sent are the responses in their order.
-/
import Glacier.Http.Calls
import Glacier.Http.ChunkIndependence
import Glacier.Http.Framing
import Glacier.Http.ReusedConnection

namespace Glacier

open Cxx HttpData

/-- a chunk with the results of its read(2) calls, some of which may be interrupted -/
structure Arrival where
  chunk : Chunk
  reads : List ReadResult
  uninterrupted : reads.filter (· ≠ .intr) = chunk.script
  last : reads.getLast? = some .again

namespace Ctx

/-! ## Interrupted reads -/

theorem readLoop_arrival {rs : List ReadResult} {ps : List Bytes} (hps : ∀ p ∈ ps, p ≠ [])
    (hrs : rs.filter (· ≠ .intr) = ps.map .data ++ [.again]) (hlast : rs.getLast? = some .again) (sum : ℕ)
    (buf : Bytes) :
    readLoop rs sum buf = readLoop (ps.map .data ++ [.again]) sum buf := by
  induction rs generalizing ps sum buf with
  | nil => cases hlast
  | cons r rs ih =>
    have htail : r ≠ .again → rs.getLast? = some .again := by
      intro hr
      cases rs with
      | nil => exact absurd (Option.some.inj hlast) hr
      | cons r' rs => rw [← hlast, List.getLast?_cons_cons]
    cases r with
    | intr => exact ih hps (by simpa using hrs) (htail (by simp)) sum buf
    | fail => cases ps <;> simp at hrs
    | again =>
      -- the end of the script, since the last result is not an interrupted one
      have hnil : ps = [] ∧ rs = [] := by
        cases ps with
        | cons p ps => simp at hrs
        | nil =>
          have hfilter : rs.filter (· ≠ .intr) = [] := by simpa using hrs
          refine ⟨rfl, ?_⟩
          by_contra hne
          rw [List.getLast?_cons, List.getLast?_eq_some_getLast hne] at hlast
          have hmem : ReadResult.again ∈ rs := Option.some.inj hlast ▸ List.getLast_mem hne
          exact absurd (List.filter_eq_nil_iff.1 hfilter _ hmem) (by simp)
      rw [hnil.1, hnil.2]
      rfl
    | data bytes =>
      cases ps with
      | nil => simp at hrs
      | cons p ps =>
        obtain ⟨rfl, hrs'⟩ : p = bytes ∧ rs.filter (· ≠ .intr) = ps.map .data ++ [.again] := by
          simpa [eq_comm] using hrs
        obtain ⟨hp, hrest⟩ := List.forall_mem_cons.1 hps
        obtain ⟨b, bs, rfl⟩ := List.exists_cons_of_ne_nil hp
        exact ih hrest hrs' (htail (by simp)) _ _

/-- handleRead sees the bytes, and not the interrupted calls -/
theorem handleRead_arrival (c : Ctx) (a : Arrival) :
    { c with io := { c.io with reads := a.reads } }.handleRead =
      { c with io := { c.io with reads := a.chunk.script } }.handleRead := by
  have hread : { c with io := { c.io with reads := a.reads } }.readIn =
      { c with io := { c.io with reads := a.chunk.script } }.readIn := by
    simp only [readIn, readn, readLoop_arrival a.chunk.pieces_ne a.uninterrupted a.last]
    rfl
  have honce : { c with io := { c.io with reads := a.reads } }.handleReadOnce =
      { c with io := { c.io with reads := a.chunk.script } }.handleReadOnce := by
    simp only [handleReadOnce, receive, hread]
  rw [handleRead_eq, honce, ← handleRead_eq]

/-! ## What the socket takes -/

/-- a string that an int can count is kept as far as it is not sent -/
theorem unsent_short {n : ℕ} {buf : Bytes} (h : buf.length < 2 ^ 31) : unsent n buf = buf.drop n := by
  refine unsent_eq_drop_iff.2 ?_
  rintro ⟨hlt, hint⟩
  have hcount : toInt buf.length = buf.length := toInt_of_mem (by omega) (by omega)
  omega

/-- **A round of writes** that do not fail -/
theorem handleWrite_offered {c : Ctx} (he : c.http.error = false) (hconn : c.http.connstate = .connected)
    (hfail : .fail ∉ c.io.writes) (hshort : c.http.outBuffer.length < 2 ^ 31) :
    ∃ ev ws, c.handleWrite = { c with
      http := { c.http with
        channel := c.http.channel.setEvents ev
        outBuffer := c.http.outBuffer.drop (offered c.io.writes) }
      io := { c.io with
        writes := ws
        sent := c.io.sent ++ c.http.outBuffer.take (offered c.io.writes) } } := by
  have hret := writeLoop_offered hfail c.http.outBuffer 0
  rw [Nat.zero_add] at hret
  have htaken := (writeLoop_some hret).2
  have hmin : ∀ buf : Bytes, buf.take (min (offered c.io.writes) buf.length) = buf.take (offered c.io.writes) ∧
      buf.drop (min (offered c.io.writes) buf.length) = buf.drop (offered c.io.writes) := by
    intro buf
    rcases Nat.le_total (offered c.io.writes) buf.length with hle | hle
    · rw [Nat.min_eq_left hle]
      exact ⟨rfl, rfl⟩
    · rw [Nat.min_eq_right hle, List.take_length, List.take_of_length_le hle, List.drop_length, List.drop_of_length_le hle]
      exact ⟨rfl, rfl⟩
  obtain ⟨htake, hdrop⟩ := hmin c.http.outBuffer
  have hw : c.writeAll c.http.outBuffer = (some (min (offered c.io.writes) c.http.outBuffer.length),
      { c with io := { c.io with
        writes := (writeLoop c.io.writes c.http.outBuffer 0).2.2
        sent := c.io.sent ++ c.http.outBuffer.take (offered c.io.writes) } }) := by
    rw [← htake, ← htaken]
    exact Prod.ext hret rfl
  rw [handleWrite, if_pos ⟨he, by rw [hconn]; simp⟩, writeOut_some hw, unsent_short hshort, hdrop]
  dsimp only
  split_ifs
  · exact ⟨_, _, rfl⟩
  · exact ⟨c.http.channel.events, _, rfl⟩

end Ctx

/-! ## One exchange -/

/-- a request with what happens until its response has left: its bytes come in chunks, none of which begins behind the first
':', its file can be read, and no write fails -/
structure Exchange where
  request : GetRequest
  arrivals : List Arrival
  fs : FileSystem
  content : Bytes
  /-- the write(2) calls of handleRead -/
  writes : List WriteResult
  /-- those of each handleWrite after it -/
  rounds : List (List WriteResult)
  bytes_eq : chunkBytes (arrivals.map Arrival.chunk) = request.bytes
  cut_le : ∀ f ∈ request.fields.head?, lastCut (arrivals.map Arrival.chunk) ≤ request.line.length + 2 + f.1.length
  file : fs (cStr request.target.filename) = .regular content
  writes_ok : .fail ∉ writes
  rounds_ok : ∀ ws ∈ rounds, .fail ∉ ws

namespace Exchange

variable (x : Exchange)

/-- the request as it should be accepted -/
def accepted : Request :=
  ⟨x.request.target.method, x.request.target.version, x.request.target.filename,
    store (fun _ => none) x.request.fields, []⟩

/-- the response that it should get -/
def response : Bytes :=
  (Response.ok (Ctx.connectionValue { HttpData.new 0 with headers := x.accepted.headers })
    (Ctx.fileType x.request.target.filename) x.content).bytes

/-- the socket takes the whole response, whose length an int can count -/
structure Drains : Prop where
  short : x.response.length < 2 ^ 31
  taken : x.response.length ≤ Ctx.offered x.writes + (x.rounds.map Ctx.offered).sum

/-- what the loop calls -/
def calls : List Call :=
  x.arrivals.flatMap (fun a => [.handleEvents, .handleRead a.reads x.writes x.fs]) ++
    x.rounds.flatMap fun ws => [.handleEvents, .handleWrite ws]

end Exchange

namespace Ctx

/-- a connection that waits for a request, with `out` of the responses still to send -/
structure Sending (c : Ctx) (sent out : Bytes) (requests : List Request) : Prop extends Idle c where
  inBuffer : c.http.inBuffer = []
  outBuffer : c.http.outBuffer = out
  sent_eq : c.io.sent = sent
  requests_eq : c.io.requests = requests
  fault : c.io.fault = false

/-- **A round of the response** -/
theorem Sending.round {c : Ctx} {sent out : Bytes} {requests : List Request} (h : Sending c sent out requests)
    (hshort : out.length < 2 ^ 31) {ws : List WriteResult} (hws : .fail ∉ ws) :
    ∃ d, Machine.run call c [.handleEvents, .handleWrite ws] = some d ∧
      Sending d (sent ++ out.take (offered ws)) (out.drop (offered ws)) requests := by
  set e : Ctx := { c with http := { c.http with channel := c.http.channel.setEvents 0 }, io := { c.io with writes := ws } }
  have hout : e.http.outBuffer = out := h.outBuffer
  have hsent : e.io.sent = sent := h.sent_eq
  obtain ⟨ev, left, hwrite⟩ := handleWrite_offered (c := e) h.error h.connstate hws (by rw [hout]; exact hshort)
  have hoffered : offered e.io.writes = offered ws := rfl
  rw [hout, hsent, hoffered] at hwrite
  refine ⟨e.handleWrite, rfl, ?_⟩
  rw [hwrite]
  exact ⟨⟨h.error, h.connstate, h.state, h.parseState, h.headers, h.readpos⟩, h.inBuffer, rfl, rfl, h.requests_eq,
    h.fault⟩

/-- **All rounds of the response** -/
theorem run_rounds {c : Ctx} {sent out : Bytes} {requests : List Request} (h : Sending c sent out requests)
    (hshort : out.length < 2 ^ 31) {rounds : List (List WriteResult)} (hrounds : ∀ ws ∈ rounds, .fail ∉ ws) :
    ∃ d, Machine.run call c (rounds.flatMap fun ws => [.handleEvents, .handleWrite ws]) = some d ∧
      Sending d (sent ++ out.take (rounds.map offered).sum) (out.drop (rounds.map offered).sum) requests := by
  induction rounds generalizing c sent out with
  | nil =>
    refine ⟨c, rfl, ?_⟩
    simpa using h
  | cons ws rounds ih =>
    obtain ⟨hws, hrest⟩ := List.forall_mem_cons.1 hrounds
    obtain ⟨d, hd, hsending⟩ := h.round hshort hws
    have hlen : (out.drop (offered ws)).length < 2 ^ 31 := by
      rw [List.length_drop]; omega
    obtain ⟨e, he, hdone⟩ := ih hsending hlen hrest
    refine ⟨e, Machine.run_append.2 ⟨d, hd, he⟩, ?_⟩
    rw [List.append_assoc, List.drop_drop] at hdone
    rw [List.map_cons, List.sum_cons, List.take_add]
    exact hdone

/-! ## The request -/

theorem response_ne_nil (x : Exchange) : x.response ≠ [] := by
  have hstart : ascii "HTTP/1.1 200 OK\r\n" ≠ [] := by decide
  simp only [Exchange.response, Response.bytes, okHeader, ne_eq, List.append_eq_nil_iff, not_and]
  intro h
  exact absurd h.1.1.1.1.1.1.1.1.1 hstart

/-- the response is begun as soon as the request is complete -/
theorem whole_sending {c : Ctx} (hnew : New c) (hlive : c.io.fault = false) (x : Exchange) (hfs : c.io.fs = x.fs)
    (hwrites : c.io.writes = x.writes) (hshort : x.response.length < 2 ^ 31) :
    Sending (c.buffered x.request.bytes).process.after (c.io.sent ++ x.response.take (offered x.writes))
      (x.response.drop (offered x.writes)) (c.io.requests ++ [x.accepted]) := by
  have hr := parseRequestLine_success x.request.accepted c.http.requestLine
  have hne : x.request.fields.map GetRequest.asField ≠ [] := by simpa using x.request.fields_ne
  set e := c.inHeaders x.request.target .start (LF :: blockBytes (x.request.fields.map GetRequest.asField))
  have htext : HttpData.AtText e.http (blockBytes (x.request.fields.map GetRequest.asField) ++ []) 1 :=
    .start rfl (by rw [List.append_nil]; rfl)
  have hp := parseHeaders_block _ x.request.fields_ok hne (GetRequest.absorb_asField x.request.values_ok) htext
  set f : Ctx := logRequest { e with http := { e.http with
    inBuffer := [], parseState := .endLf, headers := store e.http.headers x.request.fields, state := .analysis } }
  have hstate : (if e.http.method = .post then ProcessState.recvBody else .analysis) = .analysis :=
    if_neg (by rw [show e.http.method = .get from x.request.get]; decide)
  have hheader : e.headerStage = (f, true) := by
    rw [headerStage_success (c := e) rfl hp]
    dsimp only
    rw [hstate]
    rfl
  have hheaders : f.http.headers = x.accepted.headers := congrArg (fun m => store m x.request.fields) hnew.headers
  have hrequests : f.io.requests = c.io.requests ++ [x.accepted] :=
    calc f.io.requests = c.io.requests ++ [⟨x.request.target.method, x.request.target.version,
          x.request.target.filename, f.http.headers, []⟩] := rfl
      _ = c.io.requests ++ [x.accepted] := by rw [hheaders]; rfl
  have hanalysis : f.analysisStage =
      { f.kept with http := { f.kept.http with outBuffer := x.response, state := .finish } } := by
    have hget : f.http.method = .get := x.request.get
    rw [analysisStage_eq rfl, if_pos hget, serve,
      show f.io.fs (cStr f.http.filename) = .regular x.content from hfs ▸ x.file]
    dsimp only
    rw [show f.kept.http.outBuffer = [] from hnew.outBuffer, List.nil_append,
      @connectionValue_congr f.http { HttpData.new 0 with headers := x.accepted.headers } hheaders]
    rfl
  rw [show (c.buffered x.request.bytes).process = e.process from process_line hnew x.request.line_ok hr _,
    process_header_go (uriStage_skip rfl) hheader, hanalysis]
  set g : Ctx := { f.kept with http := { f.kept.http with outBuffer := x.response, state := .finish } }
  have hgw : g.io.writes = x.writes := hwrites
  obtain ⟨ev, left, hwrite⟩ := handleWrite_offered (c := g) hnew.error hnew.connstate (hgw ▸ x.writes_ok) hshort
  have hflush : g.flush = g.handleWrite := if_pos (response_ne_nil x)
  have hflushed : g.flush = { g with
      http := { g.http with channel := g.http.channel.setEvents ev, outBuffer := x.response.drop (offered x.writes) }
      io := { g.io with writes := left, sent := c.io.sent ++ x.response.take (offered x.writes) } } :=
    calc g.flush = g.handleWrite := if_pos (response_ne_nil x)
      _ = _ := by rw [hwrite, hgw]; rfl
  have hrespond : g.respond = (g.flush.reset, false) := by
    rw [respond_open (c := g) hnew.error, hflushed, if_pos ⟨hnew.error, rfl⟩]
    rfl
  rw [after, hrespond, hflushed]
  exact ⟨⟨hnew.error, hnew.connstate, rfl, rfl, rfl, rfl⟩, rfl, rfl, rfl, hrequests, hlive⟩

/-! ## The chunks of the request -/

/-- the connection as the callbacks of the exchange find it -/
def begun (c : Ctx) (x : Exchange) : Ctx :=
  { c with
    http := { c.http with channel := c.http.channel.setEvents 0 }
    io := { c.io with reads := [], writes := x.writes, fs := x.fs } }

theorem New.begun {c : Ctx} (h : New c) (x : Exchange) : New (c.begun x) :=
  ⟨⟨h.error, h.connstate, h.state, h.parseState, h.headers, h.readpos⟩, h.inBuffer, h.outBuffer⟩

/-- the calls for one chunk -/
theorem run_arrival {c : Ctx} {x : Exchange} (he : c.http.error = false) (a : Arrival)
    (hlive : ((c.begun x).deliver a.chunk).io.fault = false) :
    Machine.run call c [.handleEvents, .handleRead a.reads x.writes x.fs] = some ((c.begun x).deliver a.chunk) := by
  have hdeliver : (c.begun x).deliver a.chunk =
      { c.begun x with io := { (c.begun x).io with reads := a.chunk.script } }.handleRead :=
    if_neg (by rw [show (c.begun x).http.error = false from he]; exact Bool.false_ne_true)
  rw [hdeliver, ← handleRead_arrival] at hlive ⊢
  refine Machine.run_cons.2 ⟨_, rfl, Machine.run_cons.2 ⟨_, ?_, rfl⟩⟩
  rw [call, if_neg (by rw [show c.http.error = false from he]; exact Bool.false_ne_true)]
  exact if_neg fun hdead => Bool.false_ne_true (hlive.symm.trans hdead)

/-- a connection that waits for the rest of the request has the mask and the scripts of the exchange -/
theorem Waiting.begun {c : Ctx} {x : Exchange} {r : RequestLine} {line n q : Bytes} {w : Ctx}
    (h : Waiting (c.begun x) r line n q w) : w.begun x = w ∧ w.http.error = c.http.error ∧ w.io.fault = c.io.fault := by
  cases h <;> exact ⟨rfl, rfl, rfl⟩

/-- **All chunks of the request** -/
theorem run_arrivals {c w : Ctx} {x : Exchange} {r : RequestLine} {line n q : Bytes} {fields : List Field}
    {arrivals : List Arrival} (hnew : New c) (hlive : c.io.fault = false) (h : Waiting (c.begun x) r line n q (w.begun x))
    (he : w.http.error = false) (hcr : CR ∉ line) (hr : parseRequestLine line c.http.requestLine = (.success, r))
    (hok : ∀ f ∈ fields, FieldOk f) (hne : fields ≠ []) (hn : absorb fields ≠ none) (hplain : ∀ b ∈ n, Plain b)
    (hblock : n <+: blockBytes fields) (harrivals : arrivals ≠ [])
    (hq : q ++ chunkBytes (arrivals.map Arrival.chunk) = requestBytes line fields)
    (hcut : q.length + lastCut (arrivals.map Arrival.chunk) ≤ line.length + 2 + n.length)
    (hdone : ((c.begun x).buffered (requestBytes line fields)).process.after.io.fault = false) :
    Machine.run call w (arrivals.flatMap fun a => [.handleEvents, .handleRead a.reads x.writes x.fs]) =
      some ((c.begun x).buffered (requestBytes line fields)).process.after := by
  have hbegun := hnew.begun x
  induction arrivals generalizing q w with
  | nil => exact absurd rfl harrivals
  | cons a arrivals ih =>
    rw [List.map_cons, chunkBytes_cons] at hq
    rw [List.flatMap_cons]
    by_cases hlast : arrivals = []
    · subst hlast
      have hdeliver := deliver_last h hbegun hcr hr hok hne (Or.inr hn) (by simpa [chunkBytes] using hq)
      rw [← hdeliver] at hdone ⊢
      rw [List.flatMap_nil, List.append_nil]
      exact run_arrival he a hdone
    · rw [List.map_cons, lastCut_cons a.chunk (by simpa using hlast)] at hcut
      rw [← List.append_assoc] at hq
      have hpre := prefix_of_request hq hblock (by rw [List.length_append]; omega)
      have hwait := deliver_early h hbegun hcr hr hplain hpre
      obtain ⟨hself, herr, hfault⟩ := hwait.begun
      refine Machine.run_append.2 ⟨_, run_arrival he a (hfault.trans hlive), ?_⟩
      exact ih (hself.symm ▸ hwait) (herr.trans hnew.error) hlast hq (by rw [List.length_append]; omega)

/-! ## Exchanges -/

/-- the calls of handleRead for the request -/
theorem run_request {c : Ctx} (hnew : New c) (hlive : c.io.fault = false) (x : Exchange)
    (hshort : x.response.length < 2 ^ 31) :
    ∃ d, Machine.run call c (x.arrivals.flatMap fun a => [.handleEvents, .handleRead a.reads x.writes x.fs]) = some d ∧
      Sending d (c.io.sent ++ x.response.take (offered x.writes)) (x.response.drop (offered x.writes))
        (c.io.requests ++ [x.accepted]) := by
  have hsending := whole_sending (hnew.begun x) hlive x rfl rfl hshort
  have hne : x.request.fields.map GetRequest.asField ≠ [] := by simpa using x.request.fields_ne
  have harrivals : x.arrivals ≠ [] := by
    intro hnil
    exact x.request.bytes_ne_nil (by rw [← x.bytes_eq, hnil]; rfl)
  obtain ⟨f, fields, hfields⟩ := List.exists_cons_of_ne_nil x.request.fields_ne
  have hcut := x.cut_le f (by rw [hfields]; rfl)
  have hstart : Waiting (c.begun x) x.request.target x.request.line f.1 [] (c.begun x) := by
    have hbegun : (c.begun x).buffered [] = c.begun x := by
      simp only [buffered, List.append_nil]; rfl
    have hline : Waiting (c.begun x) x.request.target x.request.line f.1 [] ((c.begun x).buffered []) :=
      .line List.not_mem_nil
    rwa [hbegun] at hline
  refine ⟨_, run_arrivals hnew hlive hstart hnew.error x.request.line_ok
    (parseRequestLine_success x.request.accepted c.http.requestLine) x.request.fields_ok hne
    (by rw [GetRequest.absorb_asField x.request.values_ok]; simp) ?_ ?_ harrivals x.bytes_eq ?_ hsending.fault, hsending⟩
  · exact (x.request.names_ok f (by rw [hfields]; exact List.mem_cons_self)).plain
  · rw [hfields, List.map_cons, blockBytes_cons]
    exact ⟨_, (List.append_assoc _ _ _).symm⟩
  · simpa using hcut

/-- **One exchange** -/
theorem exchange_served {c : Ctx} (hnew : New c) (hlive : c.io.fault = false) {x : Exchange} (hx : x.Drains) :
    ∃ d, Machine.run call c x.calls = some d ∧ New d ∧ d.io.sent = c.io.sent ++ x.response ∧
      d.io.requests = c.io.requests ++ [x.accepted] ∧ d.io.fault = false := by
  obtain ⟨d, hd, hsending⟩ := run_request hnew hlive x hx.short
  have hlen : (x.response.drop (offered x.writes)).length < 2 ^ 31 := by
    have := hx.short
    rw [List.length_drop]; omega
  obtain ⟨e, he, hdone⟩ := run_rounds hsending hlen x.rounds_ok
  rw [List.append_assoc, ← List.take_add, List.drop_drop, List.take_of_length_le hx.taken,
    List.drop_of_length_le hx.taken] at hdone
  exact ⟨e, Machine.run_append.2 ⟨d, hd, he⟩, ⟨hdone.toIdle, hdone.inBuffer, hdone.outBuffer⟩, hdone.sent_eq,
    hdone.requests_eq, hdone.fault⟩

/-- **A connection serves its client.** Whatever the number of exchanges, each request is accepted with its own members,
and the bytes sent are the responses in their order. -/
theorem exchanges_served {c : Ctx} (hnew : New c) (hlive : c.io.fault = false) {xs : List Exchange}
    (hxs : ∀ x ∈ xs, x.Drains) :
    ∃ d, Machine.run call c (xs.flatMap Exchange.calls) = some d ∧ New d ∧
      d.io.sent = c.io.sent ++ xs.flatMap Exchange.response ∧ d.io.requests = c.io.requests ++ xs.map Exchange.accepted ∧
      d.io.fault = false := by
  induction xs generalizing c with
  | nil => exact ⟨c, rfl, hnew, by simp, by simp, hlive⟩
  | cons x xs ih =>
    obtain ⟨hx, hrest⟩ := List.forall_mem_cons.1 hxs
    obtain ⟨d, hd, hnewd, hsent, hrequests, hfault⟩ := exchange_served hnew hlive hx
    obtain ⟨e, he, hnewe, hsent', hrequests', hfault'⟩ := ih hnewd hfault hrest
    refine ⟨e, Machine.run_append.2 ⟨d, hd, he⟩, hnewe, ?_, ?_, hfault'⟩
    · rw [hsent', hsent, List.append_assoc, List.flatMap_cons]
    · rw [hrequests', hrequests, List.append_assoc, List.map_cons, List.singleton_append]

/-- the request in two parts, the first after an interrupted call, and its response in three -/
def getIndexInParts : Exchange where
  request := getIndex
  arrivals :=
    [⟨oneRead (ascii "GET / HTTP/1.1\r\nHo") (by decide), [.intr, .data (ascii "GET / HTTP/1.1\r\nHo"), .again],
        by decide, rfl⟩,
      ⟨oneRead (ascii "st: a\r\n\r\n") (by decide), [.data (ascii "st: a\r\n\r\n"), .again], by decide, rfl⟩]
  fs := fun _ => .regular (ascii "hello")
  content := ascii "hello"
  writes := [.wrote 50, .again]
  rounds := [[.intr, .wrote 40, .again], [.wrote 1000]]
  bytes_eq := by decide +kernel
  cut_le := by decide +kernel
  file := rfl
  writes_ok := by decide
  rounds_ok := by decide

end Ctx

end Glacier
