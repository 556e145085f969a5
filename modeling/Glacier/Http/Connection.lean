/-
HttpData's callbacks and what they call: readn and writen (utils.cc), handleError, analysisRequest, handleRead,
handleWrite and reset (httpdata.cc).

The outside world of one callback is `Io`: the results of the read(2) and write(2) calls it will make, in order, and the
file system. A script that has run out gives EAGAIN. `sent` and `requests` are history: the bytes the socket accepted, and
the requests as they stood when parseHeaders accepted them.

handleRead calls itself for the bytes left in the buffer. `handleReadOnce` is one activation without that call, and the
fuel of `handleRead` is always enough for the calls (`handleRead_eq` in ReadLoop).
-/
import Glacier.Http.HttpData

namespace Glacier

open Cxx

def DEFAULT_EVENT : Events := EPOLLIN ||| EPOLLET ||| EPOLLONESHOT
def DEFAULT_EXPIRED_TIME : ℕ := 2000
def DEFAULT_KEEP_ALIVE_TIME : ℕ := 5 * 60 * 1000

/-- a result of read(2); no data is the end of the stream -/
inductive ReadResult where
  | data (bytes : Bytes)
  | intr
  | again
  | fail
deriving DecidableEq, Repr

/-- a result of write(2); `wrote n` accepts n bytes, or all there are -/
inductive WriteResult where
  | wrote (n : ℕ)
  | intr
  | again
  | fail
deriving DecidableEq, Repr

/-- what a path names; the sizes are st_size -/
inductive File where
  | absent
  | unreadable (size : ℕ)
  | directory (size : ℕ)
  | regular (content : Bytes)
deriving DecidableEq, Repr

abbrev FileSystem := Bytes → File

/-- a request that parseHeaders accepted, with the bytes it left in the buffer -/
structure Request where
  method : HttpMethod
  version : HttpVersion
  filename : Bytes
  headers : Headers
  leftover : Bytes

structure Io where
  reads : List ReadResult
  writes : List WriteResult
  fs : FileSystem
  sent : Bytes
  requests : List Request
  /-- bytes were copied from a mapping that failed -/
  fault : Bool

/-- a connection at work: its record, its outside world, and the timer heap of its loop -/
structure Ctx where
  http : HttpData
  io : Io
  timers : List Timer

/-! ## readn and writen -/

/-- the loop of readn with `readSum = sum`: the result (none is -1), `zero`, the buffer, the rest of the script -/
def readLoop : List ReadResult → ℕ → Bytes → Option ℕ × Bool × Bytes × List ReadResult
  | [], sum, buf => (some sum, false, buf, [])
  | .intr :: rs, sum, buf => readLoop rs sum buf
  | .again :: rs, sum, buf => (some sum, false, buf, rs)
  | .fail :: rs, _, buf => (none, false, buf, rs)
  | .data [] :: rs, sum, buf => (some sum, true, buf, rs)
  | .data (b :: bs) :: rs, sum, buf => readLoop rs (sum + (b :: bs).length) (buf ++ b :: bs)

def readn (reads : List ReadResult) (inBuffer : Bytes) : Option ℕ × Bool × Bytes × List ReadResult :=
  readLoop reads 0 inBuffer

/-- the loop of writen on the bytes at `ptr`: the result (none is -1), the bytes accepted, the rest of the script -/
def writeLoop : List WriteResult → Bytes → ℕ → Option ℕ × Bytes × List WriteResult
  | [], _, sum => (some sum, [], [])
  | w :: ws, ptr, sum =>
    if ptr = [] then (some sum, [], w :: ws)
    else
      match w with
      | .wrote n =>
        let nwritten := min n ptr.length
        let (ret, accepted, ws) := writeLoop ws (ptr.drop nwritten) (sum + nwritten)
        (ret, ptr.take nwritten ++ accepted, ws)
      | .intr => writeLoop ws ptr sum
      | .again => (some sum, [], ws)
      | .fail => (none, [], ws)

namespace Ctx

/-- the loop of both writen functions on the socket -/
def writeAll (c : Ctx) (bytes : Bytes) : Option ℕ × Ctx :=
  let (ret, accepted, ws) := writeLoop c.io.writes bytes 0
  (ret, { c with io := { c.io with writes := ws, sent := c.io.sent ++ accepted } })

/-- writen(int, std::string&) on outBuffer_ -/
def writeOut (c : Ctx) : Option ℕ × Ctx :=
  let buf := c.http.outBuffer
  match c.writeAll buf with
  | (none, c) => (none, c)
  | (some writeSum, c) =>
    let buf := if (writeSum : ℤ) = toInt buf.length then [] else buf.drop writeSum
    (some writeSum, { c with http := { c.http with outBuffer := buf } })

def errorBody (errNum : ℕ) (shortMsg : String) : Bytes :=
  ascii "<html><title>error</title>" ++ ascii "<body bgcolor=\"ffffff\">" ++ decimal errNum ++ ascii (" " ++ shortMsg) ++
    ascii "<hr><em> LiYansong's Web Server</em>\n</body></html>"

def errorHeader (errNum : ℕ) (shortMsg : String) : Bytes :=
  ascii "HTTP/1.1 " ++ decimal errNum ++ ascii (" " ++ shortMsg) ++ ascii "\r\n" ++ ascii "Content-Type: text/html\r\n" ++
    ascii "Connection: Close\r\n" ++ ascii "Content-Length: " ++ decimal (errorBody errNum shortMsg).length ++
    ascii "\r\n" ++ ascii "Server: LiYansong's Web Server\r\n" ++ ascii "\r\n"

/-- handleError: header and body are each sent by writen(int, void*, size_t), whose result is not looked at -/
def handleError (c : Ctx) (errNum : ℕ) (shortMsg : String) : Ctx :=
  let (_, c) := c.writeAll (errorHeader errNum shortMsg)
  (c.writeAll (errorBody errNum shortMsg)).2

/-! ## analysisRequest -/

end Ctx

/-- MimeType::init -/
def mime : List (Bytes × Bytes) :=
  [(ascii ".html", ascii "text/html; charset=UTF-8"), (ascii ".htm", ascii "text/html; charset=UTF-8"),
    (ascii ".ico", ascii "image/x-icon"), (ascii ".jpg", ascii "image/jpeg"), (ascii ".jpeg", ascii "image/jpeg"),
    (ascii ".png", ascii "image/png"), (ascii ".css", ascii "text/css"), (ascii ".js", ascii "application/x-javascript"),
    (ascii ".woff2?v=4.7.0", ascii "application/font-woff2"), (ascii "default", ascii "text/html")]

def getMime (suffix : Bytes) : Bytes := (mime.lookup suffix).getD ((mime.lookup (ascii "default")).getD [])

/-- the path that c_str() passes to the system -/
def cStr (s : Bytes) : Bytes := s.takeWhile (· ≠ 0)

inductive AnalysisState where
  | success
  | error
deriving DecidableEq, Repr

namespace Ctx

def connectionValue (h : HttpData) : Bool :=
  h.headers (ascii "Connection") = some (ascii "Keep-Alive") ∨ h.headers (ascii "Connection") = some (ascii "keep-alive")

/-- the header block of a 200 response -/
def okHeader (keepAlive : Bool) (filetype : Bytes) (size : ℕ) : Bytes :=
  ascii "HTTP/1.1 200 OK\r\n" ++
    (if keepAlive then
      ascii "Connection: Keep-Alive\r\n" ++ ascii "Keep-Alive: timeout=" ++ decimal DEFAULT_KEEP_ALIVE_TIME ++ ascii "\r\n"
    else []) ++
    ascii "Content-Type: " ++ filetype ++ ascii "\r\n" ++ ascii "Content-Length: " ++ decimal size ++ ascii "\r\n" ++
    ascii "Server: LiYansong's Web Server\r\n" ++ ascii "\r\n"

def fileType (filename : Bytes) : Bytes :=
  match find filename (ascii ".") 0 with
  | none => getMime (ascii "default")
  | some pos => getMime (filename.drop pos)

/-- analysisRequest; mmap fails on a directory and for length 0, which is not checked before the copy -/
def analysisRequest (c : Ctx) : AnalysisState × Ctx :=
  if c.http.method = .get then
    let keep := connectionValue c.http
    let c := if keep then { c with http := { c.http with keepAlive := true } } else c
    let header size := okHeader keep (fileType c.http.filename) size
    let append bytes : Ctx := { c with http := { c.http with outBuffer := c.http.outBuffer ++ bytes } }
    match c.io.fs (cStr c.http.filename) with
    | .absent => (.error, c.handleError 404 "Not Found!")
    | .unreadable _ =>
      (.error, { c with http := { c.http with outBuffer := [] } }.handleError 404 "Not Found!")
    | .directory size =>
      if size = 0 then (.success, append (header 0))
      else (.success, { append (header size) with io := { c.io with fault := true } })
    | .regular content => (.success, append (header content.length ++ content))
  else (.error, c)

/-! ## reset, handleWrite, handleRead -/

/-- seperateTimer, and the end of reset -/
def seperateTimer (c : Ctx) : Ctx :=
  { c with timers := resetTimer c.timers c.http.timer, http := { c.http with timer := none } }

def reset (c : Ctx) : Ctx :=
  { c with http := { c.http with
      filename := []
      readpos := 0
      state := .parseUri
      parseState := .start
      headers := fun _ => none } }.seperateTimer

def orEvents (c : Ctx) (bits : Events) : Ctx :=
  { c with http := { c.http with channel := c.http.channel.setEvents (c.http.channel.events ||| bits) } }

def handleWrite (c : Ctx) : Ctx :=
  if c.http.error = false ∧ c.http.connstate ≠ .disconnected then
    let c :=
      match c.writeOut with
      | (none, c) => { c with http := { c.http with channel := c.http.channel.setEvents 0, error := true } }
      | (some _, c) => c
    if c.http.outBuffer ≠ [] then c.orEvents EPOLLOUT else c
  else c

def badRequest (c : Ctx) : Ctx := { c with http := { c.http with error := true } }.handleError 400 "Bad Request"

/-- `if (state_ == PARSE_URI)`; true unless it breaks -/
def uriStage (c : Ctx) : Ctx × Bool :=
  if c.http.state = .parseUri then
    match c.http.parseURI with
    | (.again, h) => ({ c with http := h }, false)
    | (.error, h) => ({ c with http := { h with inBuffer := [] } }.badRequest, false)
    | (.success, h) => ({ c with http := { h with state := .parseHeaders } }, true)
  else (c, true)

/-- the record of an accepted request -/
def logRequest (c : Ctx) : Ctx :=
  let h := c.http
  { c with io := { c.io with
      requests := c.io.requests ++ [⟨h.method, h.version, h.filename, h.headers, h.inBuffer⟩] } }

/-- `if (state_ == PARSE_HEADERS)`; true unless it breaks -/
def headerStage (c : Ctx) : Ctx × Bool :=
  if c.http.state = .parseHeaders then
    match c.http.parseHeaders with
    | (.again, h) => ({ c with http := h }, false)
    | (.error, h) => ({ c with http := h }.badRequest, false)
    | (.success, h) =>
      let state : ProcessState := if h.method = .post then .recvBody else .analysis
      ({ c with http := { h with state := state } }.logRequest, true)
  else (c, true)

/-- `if (state_ == ANALYSIS)` -/
def analysisStage (c : Ctx) : Ctx :=
  if c.http.state = .analysis then
    match c.analysisRequest with
    | (.success, c) => { c with http := { c.http with state := .finish } }
    | (.error, c) => { c with http := { c.http with error := true } }
  else c

/-- the three stages -/
def process (c : Ctx) : Ctx :=
  let (c, go) := c.uriStage
  if go then
    let (c, go) := c.headerStage
    if go then c.analysisStage else c
  else c

/-- readn on inBuffer_: its result, `zero`, and the connection after it -/
def readIn (c : Ctx) : Option ℕ × Bool × Ctx :=
  let (cnt, zero, inBuffer, reads) := readn c.io.reads c.http.inBuffer
  (cnt, zero, { c with http := { c.http with inBuffer := inBuffer }, io := { c.io with reads := reads } })

/-- the `do … while (false)` of handleRead -/
def receive (c : Ctx) : Ctx :=
  let (cnt, zero, c) := c.readIn
  if c.http.connstate = .disconnecting then { c with http := { c.http with inBuffer := [] } }
  else
    match cnt with
    | none => c.badRequest
    | some cnt =>
      if zero then
        let c := { c with http := { c.http with connstate := .disconnecting } }
        if cnt = 0 then c else c.process
      else c.process

/-- what follows the `do … while (false)`; true if handleRead calls itself -/
def respond (c : Ctx) : Ctx × Bool :=
  if c.http.error then (c, false)
  else
    let c := if c.http.outBuffer ≠ [] then c.handleWrite else c
    if c.http.error = false ∧ c.http.state = .finish then
      let c := c.reset
      (c, c.http.inBuffer ≠ [] ∧ c.http.connstate ≠ .disconnecting)
    else if c.http.error = false ∧ c.http.connstate = .disconnected then (c.orEvents EPOLLIN, false)
    else (c, false)

/-- one activation of handleRead up to its recursive call -/
def handleReadOnce (c : Ctx) : Ctx × Bool := c.receive.respond

def handleReadLoop : ℕ → Ctx → Ctx
  | 0, c => c
  | fuel + 1, c =>
    let (c, again) := c.handleReadOnce
    if again then handleReadLoop fuel c else c

/-- the bytes that a script of read results still delivers -/
def scriptBytes (reads : List ReadResult) : ℕ :=
  (reads.map fun | .data bs => bs.length | _ => 0).sum

/-- the bytes buffered and still to be delivered -/
def pending (c : Ctx) : ℕ := c.http.inBuffer.length + scriptBytes c.io.reads

def handleRead (c : Ctx) : Ctx := handleReadLoop (c.pending + 2) c

/-! ## What the parts leave alone -/

@[simp] theorem writeAll_http (c : Ctx) (bytes : Bytes) : (c.writeAll bytes).2.http = c.http := rfl
@[simp] theorem writeAll_timers (c : Ctx) (bytes : Bytes) : (c.writeAll bytes).2.timers = c.timers := rfl
@[simp] theorem writeAll_reads (c : Ctx) (bytes : Bytes) : (c.writeAll bytes).2.io.reads = c.io.reads := rfl
@[simp] theorem writeAll_requests (c : Ctx) (bytes : Bytes) : (c.writeAll bytes).2.io.requests = c.io.requests := rfl

@[simp] theorem handleError_http (c : Ctx) (n : ℕ) (m : String) : (c.handleError n m).http = c.http := rfl
@[simp] theorem handleError_timers (c : Ctx) (n : ℕ) (m : String) : (c.handleError n m).timers = c.timers := rfl
@[simp] theorem handleError_reads (c : Ctx) (n : ℕ) (m : String) : (c.handleError n m).io.reads = c.io.reads := rfl
@[simp] theorem handleError_requests (c : Ctx) (n : ℕ) (m : String) :
    (c.handleError n m).io.requests = c.io.requests := rfl

@[simp] theorem badRequest_http (c : Ctx) : c.badRequest.http = { c.http with error := true } := rfl
@[simp] theorem badRequest_timers (c : Ctx) : c.badRequest.timers = c.timers := rfl
@[simp] theorem badRequest_reads (c : Ctx) : c.badRequest.io.reads = c.io.reads := rfl
@[simp] theorem badRequest_requests (c : Ctx) : c.badRequest.io.requests = c.io.requests := rfl

/-- analysisRequest writes keepAlive_ and outBuffer_ only, and reads nothing from the socket -/
theorem analysisRequest_frame (c : Ctx) :
    (∃ keep out, c.analysisRequest.2.http = { c.http with keepAlive := keep, outBuffer := out }) ∧
      c.analysisRequest.2.timers = c.timers ∧ c.analysisRequest.2.io.reads = c.io.reads ∧
      c.analysisRequest.2.io.requests = c.io.requests := by
  unfold analysisRequest
  by_cases hget : c.http.method = .get
  · rw [if_pos hget]
    cases hkeep : connectionValue c.http <;> simp only [Bool.false_eq_true, if_false, if_true]
    all_goals
      split
      · exact ⟨⟨_, _, rfl⟩, rfl, rfl, rfl⟩
      · exact ⟨⟨_, _, rfl⟩, rfl, rfl, rfl⟩
      · split_ifs <;> exact ⟨⟨_, _, rfl⟩, rfl, rfl, rfl⟩
      · exact ⟨⟨_, _, rfl⟩, rfl, rfl, rfl⟩
  · rw [if_neg hget]
    exact ⟨⟨_, _, rfl⟩, rfl, rfl, rfl⟩

end Ctx

end Glacier
