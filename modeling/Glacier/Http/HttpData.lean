/-
HttpData (httpdata.h, httpdata.cc): the per-connection record and its two parsers, parseURI and parseHeaders.

The for loop of parseHeaders is `scan`, one `scanByte` for each character. Its five local positions start at 0 in every
call, while parse_state_ and headers_ live in the record and survive a call that needs more data.
-/
import Glacier.Lib.ByteString
import Glacier.Net.Channel
import Glacier.Net.Timer

namespace Glacier

open Cxx

inductive ConnectionState where
  | connected
  | disconnecting
  | disconnected
deriving DecidableEq, Repr

inductive HttpMethod where
  | post
  | get
  | head
deriving DecidableEq, Repr

inductive HttpVersion where
  | http10
  | http11
deriving DecidableEq, Repr

inductive ProcessState where
  | parseUri
  | parseHeaders
  | recvBody
  | analysis
  | finish
deriving DecidableEq, Repr

inductive ParseState where
  | start
  | key
  | colon
  | spacesAfterColon
  | value
  | cr
  | lf
  | endCr
  | endLf
deriving DecidableEq, Repr

inductive URIState where
  | again
  | error
  | success
deriving DecidableEq, Repr

inductive HeaderState where
  | success
  | again
  | error
deriving DecidableEq, Repr

/-- std::map<string, string> -/
abbrev Headers := Bytes → Option Bytes

/-- HttpData; path_, which nothing reads, is left out -/
structure HttpData where
  channel : Channel
  fd : ℕ
  error : Bool
  inBuffer : Bytes
  outBuffer : Bytes
  connstate : ConnectionState
  method : HttpMethod
  version : HttpVersion
  filename : Bytes
  readpos : ℕ
  keepAlive : Bool
  state : ProcessState
  parseState : ParseState
  headers : Headers
  /-- the weak pointer timer_ -/
  timer : Option ℕ

namespace HttpData

def new (connfd : ℕ) : HttpData where
  channel := .new
  fd := connfd
  error := false
  inBuffer := []
  outBuffer := []
  connstate := .connected
  method := .get
  version := .http11
  filename := []
  readpos := 0
  keepAlive := false
  state := .parseUri
  parseState := .start
  headers := fun _ => none
  timer := none

/-- `s.find("…")` for an ASCII literal -/
def findText (s : Bytes) (text : String) (pos : ℕ) : Option ℕ := find s (ascii text) pos

/-- the members that the request line sets -/
structure RequestLine where
  method : HttpMethod
  version : HttpVersion
  filename : Bytes
deriving DecidableEq, Repr

/-- the path between its '/' at `pos` and the blank at `pos'`, without a query -/
def pathName (requestLine : Bytes) (pos pos' : ℕ) : Bytes :=
  if sizeDiff pos' pos > 1 then
    let filename := substr requestLine (pos + 1) (sizeDiff pos' pos - 1)
    match findText filename "?" 0 with
    | some q => substr filename 0 q
    | none => filename
  else ascii "index.html"

/-- parseURI after the version's '/' at `pos` -/
def parseVersion (requestLine : Bytes) (pos : ℕ) (r : RequestLine) : URIState × RequestLine :=
  if sizeDiff requestLine.length pos ≤ 3 then (.error, r)
  else
    let v := substr requestLine (pos + 1) 3
    if v = ascii "1.0" then (.success, { r with version := .http10 })
    else if v = ascii "1.1" then (.success, { r with version := .http11 })
    else (.error, r)

/-- parseURI from the search of the path's '/' on; the method was found at `pos` -/
def parsePath (requestLine : Bytes) (pos : ℕ) (r : RequestLine) : URIState × RequestLine :=
  match findText requestLine "/" pos with
  | none => (.success, { r with filename := ascii "index.html", version := .http11 })
  | some pos =>
    match findText requestLine " " pos with
    | none => (.error, r)
    | some pos' =>
      let r := { r with filename := pathName requestLine pos pos' }
      match findText requestLine "/" pos' with
      | none => (.error, r)
      | some pos => parseVersion requestLine pos r

/-- parseURI once the request line is cut from the buffer -/
def parseRequestLine (requestLine : Bytes) (r : RequestLine) : URIState × RequestLine :=
  match findText requestLine "GET" 0, findText requestLine "POST" 0, findText requestLine "HEAD" 0 with
  | some pos, _, _ => parsePath requestLine pos { r with method := .get }
  | none, some pos, _ => parsePath requestLine pos { r with method := .post }
  | none, none, some pos => parsePath requestLine pos { r with method := .head }
  | none, none, none => (.error, r)

def requestLine (h : HttpData) : RequestLine := ⟨h.method, h.version, h.filename⟩

def setRequestLine (h : HttpData) (r : RequestLine) : HttpData :=
  { h with method := r.method, version := r.version, filename := r.filename }

def parseURI (h : HttpData) : URIState × HttpData :=
  match find h.inBuffer [CR] h.readpos with
  | none => (.again, h)
  | some pos =>
    let (flag, r) := parseRequestLine (substr h.inBuffer 0 pos) h.requestLine
    (flag, { h with inBuffer := h.inBuffer.drop (pos + 1) }.setRequestLine r)

/-- without a CR the request line is not complete -/
theorem parseURI_none {h : HttpData} (hcr : CR ∉ h.inBuffer) (hpos : h.readpos = 0) : h.parseURI = (.again, h) := by
  rw [parseURI, hpos, find_byte_none CR h.inBuffer hcr]

/-- a complete request line is parsed and cut from the buffer with its CR -/
theorem parseURI_line {h : HttpData} {requestLine rest : Bytes} (hcr : CR ∉ requestLine)
    (hbuf : h.inBuffer = requestLine ++ CR :: rest) (hpos : h.readpos = 0) :
    h.parseURI = ((parseRequestLine requestLine h.requestLine).1,
      { h with inBuffer := rest }.setRequestLine (parseRequestLine requestLine h.requestLine).2) := by
  have hline : substr h.inBuffer 0 requestLine.length = requestLine := by simp [substr, hbuf]
  have hrest : h.inBuffer.drop (requestLine.length + 1) = rest := by
    rw [hbuf, ← List.drop_drop, List.drop_left]; rfl
  have hfind : find h.inBuffer [CR] h.readpos = some requestLine.length := by
    rw [hpos, hbuf]; exact find_append_byte CR requestLine rest hcr
  rw [parseURI, hfind]
  simp only [hline, hrest]

theorem parseVersion_success {requestLine : Bytes} {pos : ℕ} {r r₀ r' : RequestLine} (hm : r₀.method = r.method)
    (hf : r₀.filename = r.filename) (h : parseVersion requestLine pos r = (.success, r')) :
    parseVersion requestLine pos r₀ = (.success, r') := by
  unfold parseVersion at h ⊢
  by_cases hshort : sizeDiff requestLine.length pos ≤ 3
  · rw [if_pos hshort] at h; cases h
  · rw [if_neg hshort] at h ⊢
    by_cases h10 : substr requestLine (pos + 1) 3 = ascii "1.0"
    · rw [if_pos h10] at h ⊢
      rw [hm, hf]; exact h
    · rw [if_neg h10] at h ⊢
      by_cases h11 : substr requestLine (pos + 1) 3 = ascii "1.1"
      · rw [if_pos h11] at h ⊢
        rw [hm, hf]; exact h
      · rw [if_neg h11] at h; cases h

theorem parsePath_success {requestLine : Bytes} {pos : ℕ} {r r₀ r' : RequestLine} (hm : r₀.method = r.method)
    (h : parsePath requestLine pos r = (.success, r')) : parsePath requestLine pos r₀ = (.success, r') := by
  unfold parsePath at h ⊢
  cases hslash : findText requestLine "/" pos with
  | none => rw [hslash] at h; simpa only [hm] using h
  | some p =>
    simp only [hslash] at h ⊢
    cases hblank : findText requestLine " " p with
    | none => simp [hblank] at h
    | some q =>
      simp only [hblank] at h ⊢
      cases hv : findText requestLine "/" q with
      | none => simp [hv] at h
      | some v =>
        simp only [hv] at h ⊢
        exact parseVersion_success (r := ⟨r.method, r.version, pathName requestLine p q⟩) hm rfl h

/-- a complete request line is accepted or rejected -/
theorem parseRequestLine_flag (requestLine : Bytes) (r : RequestLine) :
    (parseRequestLine requestLine r).1 = .success ∨ (parseRequestLine requestLine r).1 = .error := by
  have hversion : ∀ pos r, (parseVersion requestLine pos r).1 = .success ∨ (parseVersion requestLine pos r).1 = .error := by
    intro pos r
    unfold parseVersion
    dsimp only
    split_ifs <;> simp
  have hpath : ∀ pos r, (parsePath requestLine pos r).1 = .success ∨ (parsePath requestLine pos r).1 = .error := by
    intro pos r
    unfold parsePath
    split
    · exact Or.inl rfl
    · split
      · exact Or.inr rfl
      · dsimp only
        split
        · exact Or.inr rfl
        · exact hversion _ _
  unfold parseRequestLine
  split
  · exact hpath _ _
  · exact hpath _ _
  · exact hpath _ _
  · exact Or.inr rfl

/-- an accepted request line sets all three members, whatever they were -/
theorem parseRequestLine_success {requestLine : Bytes} {r r' : RequestLine}
    (h : parseRequestLine requestLine r = (.success, r')) (r₀ : RequestLine) :
    parseRequestLine requestLine r₀ = (.success, r') := by
  unfold parseRequestLine at h ⊢
  split at h
  · exact parsePath_success (r := { r with method := .get }) rfl h
  · exact parsePath_success (r := { r with method := .post }) rfl h
  · exact parsePath_success (r := { r with method := .head }) rfl h
  · cases h

/-! ## parseHeaders -/

/-- what the for loop carries from one character to the next -/
structure Scan where
  parseState : ParseState
  headers : Headers
  keyStart : ℕ
  keyEnd : ℕ
  valueStart : ℕ
  valueEnd : ℕ
  nowReadLineBegin : ℕ
  finish : Bool

/-- the state in which a call of parseHeaders begins -/
def Scan.start (parseState : ParseState) (headers : Headers) : Scan := ⟨parseState, headers, 0, 0, 0, 0, 0, false⟩

/-- `string(str.begin() + a, str.begin() + b)` -/
def slice (str : Bytes) (a b : ℕ) : Bytes := (str.drop a).take (b - a)

/-- one turn of the loop on `c = str[i]`; an error is `return PARSE_HEADER_ERROR` -/
def scanByte (str : Bytes) (c : UInt8) (i : ℕ) (s : Scan) : Except Scan Scan :=
  match s.parseState with
  | .start =>
    if c = LF ∨ c = CR then .ok s
    else .ok { s with parseState := .key, keyStart := i, nowReadLineBegin := i }
  | .key =>
    if c = COLON then
      let s := { s with keyEnd := i }
      if sizeDiff s.keyEnd s.keyStart ≤ 0 then .error s else .ok { s with parseState := .colon }
    else if c = LF ∨ c = CR then .error s
    else .ok s
  | .colon => if c = SPACE then .ok { s with parseState := .spacesAfterColon } else .error s
  | .spacesAfterColon => .ok { s with parseState := .value, valueStart := i }
  | .value =>
    if c = CR then
      let s := { s with parseState := .cr, valueEnd := i }
      if sizeDiff s.valueEnd s.valueStart ≤ 0 then .error s else .ok s
    else if sizeDiff i s.valueStart > 255 then .error s
    else .ok s
  | .cr =>
    if c = LF then
      let key := slice str s.keyStart s.keyEnd
      let value := slice str s.valueStart s.valueEnd
      .ok { s with
        parseState := .lf
        headers := Function.update s.headers key (some value)
        nowReadLineBegin := i }
    else .error s
  | .lf => if c = CR then .ok { s with parseState := .endCr } else .ok { s with keyStart := i, parseState := .key }
  | .endCr => if c = LF then .ok { s with parseState := .endLf } else .error s
  | .endLf => .ok { s with finish := true, keyStart := i, nowReadLineBegin := i }

/-- the loop from index `i` on, where `rest` is `str` from there; the result carries the final index -/
def scan (str : Bytes) : Bytes → ℕ → Scan → Except Scan (Scan × ℕ)
  | [], i, s => .ok (s, i)
  | c :: rest, i, s =>
    if s.finish then .ok (s, i)
    else
      match scanByte str c i s with
      | .error s => .error s
      | .ok s => scan str rest (i + 1) s

def parseHeaders (h : HttpData) : HeaderState × HttpData :=
  match scan h.inBuffer h.inBuffer 0 (.start h.parseState h.headers) with
  | .error s => (.error, { h with parseState := s.parseState, headers := s.headers })
  | .ok (s, i) =>
    let h := { h with parseState := s.parseState, headers := s.headers }
    if s.parseState = .endLf then (.success, { h with inBuffer := h.inBuffer.drop i })
    else (.again, { h with inBuffer := h.inBuffer.drop s.nowReadLineBegin })

/-- the ways in which parseHeaders returns, by what its loop has done -/
inductive Parsed (h : HttpData) : HeaderState × HttpData → Prop where
  | error {s : Scan} (hscan : scan h.inBuffer h.inBuffer 0 (.start h.parseState h.headers) = .error s) :
      Parsed h (.error, { h with parseState := s.parseState, headers := s.headers })
  | success {s : Scan} {i : ℕ} (hscan : scan h.inBuffer h.inBuffer 0 (.start h.parseState h.headers) = .ok (s, i))
      (hend : s.parseState = .endLf) :
      Parsed h (.success, { h with inBuffer := h.inBuffer.drop i, parseState := s.parseState, headers := s.headers })
  | again {s : Scan} {i : ℕ} (hscan : scan h.inBuffer h.inBuffer 0 (.start h.parseState h.headers) = .ok (s, i))
      (hend : s.parseState ≠ .endLf) :
      Parsed h (.again,
        { h with inBuffer := h.inBuffer.drop s.nowReadLineBegin, parseState := s.parseState, headers := s.headers })

theorem parseHeaders_cases (h : HttpData) : Parsed h h.parseHeaders := by
  rw [parseHeaders]
  rcases hscan : scan h.inBuffer h.inBuffer 0 (.start h.parseState h.headers) with s | ⟨s, i⟩
  · exact .error hscan
  · by_cases hend : s.parseState = .endLf
    · simp only [if_pos hend]; exact .success hscan hend
    · simp only [if_neg hend]; exact .again hscan hend

end HttpData

end Glacier
