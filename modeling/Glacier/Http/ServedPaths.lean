/-
The paths that analysisRequest passes to stat and open.

parseURI cuts the file name out of the request line, analysisRequest passes it on as it is, and c_str() ends it at its first
NUL. Nothing between them looks at the name.
- `Target`: the file name of a request line, read off the line;
- `parseRequestLine_target`: what parseURI cuts out of a GET request line;
- `Lined`: a connection that waits for header fields has its members from an accepted line;
- `served_paths`: the paths of all sessions, and when they stay inside the directory where the server runs.
-/
import Glacier.Http.Session
import Glacier.Http.Framing
import Glacier.Http.RequestLine
import Glacier.Lib.PathWalk

namespace Glacier

open Cxx HttpData

/-! ## Paths -/

/-- where a component of a path leads -/
def move (component : Bytes) : Path.Move :=
  if component = ascii ".." then .up else if component = [] ∨ component = ascii "." then .stay else .down

def components (path : Bytes) : List Bytes := path.splitOn SLASH

/-- relative, and without a part that has more ".." than ordinary components -/
def Confined (path : Bytes) : Prop := path.head? ≠ some SLASH ∧ Path.NeverClimbs ((components path).map move)

instance (path : Bytes) : Decidable (Confined path) := inferInstanceAs (Decidable (_ ∧ _))

/-- from the directory where the server runs, the path names nothing outside -/
def StaysInside (path : Bytes) : Prop := path.head? ≠ some SLASH ∧ (Path.walk 0 ((components path).map move)).isSome

theorem confined_iff (path : Bytes) : Confined path ↔ StaysInside path :=
  and_congr_right fun _ => (Path.walk_isSome_iff _).symm

/-! ## The file name in a request line -/

/-- the file name of a GET request line: `request` is the line from the first "GET" on -/
inductive Target (line : Bytes) : Bytes → Prop where
  /-- no '/' -/
  | bare {pre request : Bytes} (hline : line = pre ++ request) (hget : findText line "GET" 0 = some pre.length)
      (hslash : SLASH ∉ request) : Target line (ascii "index.html")
  /-- nothing between the first '/' and the next blank -/
  | empty {pre b rest : Bytes} (hline : line = pre ++ (b ++ SLASH :: SPACE :: rest))
      (hget : findText line "GET" 0 = some pre.length) (hslash : SLASH ∉ b) : Target line (ascii "index.html")
  /-- the text `t` between them, without a query -/
  | text {pre b t rest : Bytes} (hline : line = pre ++ (b ++ SLASH :: (t ++ SPACE :: rest)))
      (hget : findText line "GET" 0 = some pre.length) (hslash : SLASH ∉ b) (hblank : SPACE ∉ t) (hne : t ≠ []) :
      Target line (t.takeWhile (· ≠ QUESTION))

namespace HttpData

/-- parseVersion leaves the method and the file name -/
theorem parseVersion_members {line : Bytes} {pos : ℕ} {r₁ r : RequestLine} (h : parseVersion line pos r₁ = (.success, r)) :
    r.method = r₁.method ∧ r.filename = r₁.filename := by
  unfold parseVersion at h
  dsimp only at h
  split_ifs at h <;> cases h <;> exact ⟨rfl, rfl⟩

/-- an accepted path is index.html, or cut out between a '/' and a blank -/
theorem parsePath_members {line : Bytes} {pos : ℕ} {r₁ r : RequestLine} (h : parsePath line pos r₁ = (.success, r)) :
    r.method = r₁.method ∧
      ((find line [SLASH] pos = none ∧ r.filename = ascii "index.html") ∨
        ∃ p q, find line [SLASH] pos = some p ∧ find line [SPACE] p = some q ∧ r.filename = pathName line p q) := by
  simp only [parsePath, findText_slash, findText_blank] at h
  cases hslash : find line [SLASH] pos with
  | none =>
    simp only [hslash] at h
    cases h
    exact ⟨rfl, Or.inl ⟨rfl, rfl⟩⟩
  | some p =>
    simp only [hslash] at h
    cases hblank : find line [SPACE] p with
    | none => simp [hblank] at h
    | some q =>
      simp only [hblank] at h
      cases hversion : find line [SLASH] q with
      | none => simp [hversion] at h
      | some v =>
        simp only [hversion] at h
        obtain ⟨hm, hf⟩ := parseVersion_members h
        exact ⟨hm, Or.inr ⟨p, q, rfl, hblank, hf⟩⟩

theorem target_of_slash {pre request : Bytes} {p q : ℕ} (hget : findText (pre ++ request) "GET" 0 = some pre.length)
    (hslash : find (pre ++ request) [SLASH] pre.length = some p) (hblank : find (pre ++ request) [SPACE] p = some q) :
    Target (pre ++ request) (pathName (pre ++ request) p q) := by
  obtain ⟨b, w, hb, hw, rfl⟩ := find_byte_some hslash
  rw [List.drop_left] at hw
  subst hw
  have hassoc : pre ++ (b ++ SLASH :: w) = (pre ++ b) ++ SLASH :: w := by simp
  have hlen : (pre ++ b).length = pre.length + b.length := List.length_append
  obtain ⟨a, rest, ha, hrest, rfl⟩ := find_byte_some hblank
  rw [hassoc, drop_at hlen.symm] at hrest
  -- the blank is behind the '/', with the text `t` between them
  cases a with
  | nil => exact absurd (List.cons.inj hrest).1 (by decide)
  | cons x t =>
    rw [List.cons_append, List.cons.injEq] at hrest
    obtain ⟨rfl, rfl⟩ := hrest
    have hlen' : pre.length + b.length + (SLASH :: t).length = (pre ++ b).length + 1 + t.length := by
      rw [hlen, List.length_cons]; omega
    rw [hlen', ← hlen]
    conv in pathName _ => rw [hassoc]
    rw [pathName_eq]
    by_cases hne : t = []
    · rw [if_pos hne]
      subst hne
      exact .empty rfl hget hb
    · rw [if_neg hne]
      exact .text rfl hget hb (fun hc => ha (List.mem_cons_of_mem _ hc)) hne

/-- an accepted request line for GET names its target -/
theorem parseRequestLine_target {line : Bytes} {r₀ r : RequestLine} (h : parseRequestLine line r₀ = (.success, r))
    (hmethod : r.method = .get) : Target line r.filename := by
  unfold parseRequestLine at h
  cases hget : findText line "GET" 0 with
  | none =>
    -- the line has another method
    exfalso
    cases hpost : findText line "POST" 0 with
    | some pos =>
      simp only [hget, hpost] at h
      exact absurd ((parsePath_members h).1.symm.trans hmethod) (by simp)
    | none =>
      cases hhead : findText line "HEAD" 0 with
      | some pos =>
        simp only [hget, hpost, hhead] at h
        exact absurd ((parsePath_members h).1.symm.trans hmethod) (by simp)
      | none =>
        simp only [hget, hpost, hhead] at h
        cases h
  | some pos =>
    simp only [hget] at h
    obtain ⟨pre, request, rfl, rfl⟩ : ∃ pre request, line = pre ++ request ∧ pre.length = pos :=
      ⟨line.take pos, line.drop pos, (List.take_append_drop pos line).symm, by simp [find_le hget]⟩
    rcases (parsePath_members h).2 with ⟨hslash, hf⟩ | ⟨p, q, hslash, hblank, hf⟩
    · rw [hf]
      have hno : SLASH ∉ request := by simpa using find_byte_none_iff.1 hslash
      exact .bare rfl hget hno
    · rw [hf]
      exact target_of_slash hget hslash hblank

end HttpData

/-! ## The paths of a session -/

/-- the path is the target of a request line, up to its first NUL -/
def FromTarget (path : Bytes) : Prop := ∃ line name, CR ∉ line ∧ Target line name ∧ path = cStr name

namespace Ctx

/-- while it waits for header fields, a connection has the members of an accepted request line -/
def Lined (c : Ctx) : Prop :=
  c.http.state = .parseHeaders → ∃ line r, CR ∉ line ∧ parseRequestLine line r = (.success, c.http.requestLine)

theorem Lined.of_state {c : Ctx} (h : c.http.state ≠ .parseHeaders) : Lined c := fun hs => absurd hs h

/-- the members are untouched -/
theorem Lined.congr {c d : Ctx} (h : Lined c) (hs : d.http.state = c.http.state)
    (hr : d.http.requestLine = c.http.requestLine) : Lined d := by
  intro hd
  rw [hr]
  exact h (hs.symm.trans hd)

theorem analysisStage_lined {c : Ctx} (hs : c.http.state = .analysis) (hfault : c.analysisStage.io.fault = false) :
    Lined c.analysisStage := by
  apply Lined.of_state
  have hdone := analysisStage_cases hs
  generalize c.analysisStage = d at hdone hfault ⊢
  generalize c.analysisAnswer = r at hdone
  cases hdone with
  | noGet _ => exact fun hd => absurd (hs.symm.trans hd) (by simp)
  | absent _ => exact fun hd => absurd (hs.symm.trans hd) (by simp)
  | unreadable _ => exact fun hd => absurd (hs.symm.trans hd) (by simp)
  | fault _ _ hd => rw [hd] at hfault; cases hfault
  | file _ _ => simp

/-- what the stages pass to stat comes from a request line -/
def Passes (c : Ctx) : Prop := ∀ e, c.analysed = some e → e.http.method = .get → FromTarget (cStr e.http.filename)

theorem process_headers_lined {c : Ctx} (hs : c.http.state = .parseHeaders) (h : Lined c)
    (hfault : c.process.io.fault = false) : Lined c.process ∧ Passes c := by
  have hu : c.uriStage = (c, true) := uriStage_skip hs
  have hdone := headerStage_cases hs
  rw [process_headers hs] at hfault ⊢
  simp only [Passes, analysed, hu, if_true]
  generalize c.headerStage = x at hdone hfault ⊢
  cases hdone with
  | again _ => exact ⟨h.congr rfl rfl, fun e he => by cases he⟩
  | reject _ => exact ⟨h.congr rfl rfl, fun e he => by cases he⟩
  | accept _ =>
    simp only [if_true] at hfault ⊢
    refine ⟨?_, ?_⟩
    · by_cases hpost : c.http.method = .post
      · exact .of_state (by simp [logRequest, analysisStage, hpost])
      · simp only [if_neg hpost] at hfault ⊢
        exact analysisStage_lined rfl hfault
    · intro e he hget
      rw [Option.ite_none_right_eq_some, Option.some.injEq] at he
      obtain ⟨-, rfl⟩ := he
      obtain ⟨line, r, hcr, hr⟩ := h hs
      exact ⟨line, c.http.filename, hcr, parseRequestLine_target hr hget, rfl⟩

theorem process_lined {c : Ctx} (hready : Ready c) (he : c.http.error = false) (h : Lined c)
    (hfault : c.process.io.fault = false) : Lined c.process ∧ Passes c := by
  have hdone := process_cases hready he
  unfold Passes
  generalize c.process = d, c.analysed = e, c.stageAnswer = a at hdone hfault ⊢
  cases hdone with
  | again _ =>
    refine ⟨h, ?_⟩
    intro e he
    cases he
  | reject hs _ _ _ =>
    refine ⟨.of_state (by simp [rejected, setRequestLine, hs]), ?_⟩
    intro e he
    cases he
  | @accept line rest r hs hcr hbuf hr =>
    have hlined : Lined (c.accepted r rest) := fun _ => ⟨line, _, hcr, hr⟩
    exact process_headers_lined rfl hlined hfault
  | headers hs => exact process_headers_lined hs h hfault
  | body _ =>
    refine ⟨h, ?_⟩
    intro e he
    cases he

theorem receive_lined {c : Ctx} (hready : Ready c) (he : c.http.error = false) (h : Lined c)
    (hfault : c.receive.io.fault = false) : Lined c.receive ∧ ∀ p, c.path = some p → FromTarget p := by
  rcases c.receive_staged with ⟨d, hd, hrec⟩ | ⟨hd, -, -, hrec⟩ | ⟨hd, -, hrec⟩
  · rw [hrec] at hfault ⊢
    obtain ⟨hready', he', hlined⟩ : Ready d ∧ d.http.error = false ∧ Lined d := by
      obtain ⟨cs, rfl, -⟩ := staged_some hd
      exact ⟨staged_ready hready hd, he, h.congr rfl rfl⟩
    obtain ⟨hproc, hpass⟩ := process_lined hready' he' hlined hfault
    refine ⟨hproc, ?_⟩
    intro p hp
    simp only [path, hd, Option.bind_some] at hp
    obtain ⟨e, hanalysed, hp⟩ := Option.bind_eq_some_iff.1 hp
    split_ifs at hp with hget
    cases hp
    exact hpass e hanalysed hget
  · rw [hrec]
    exact ⟨h.congr rfl rfl, fun p hp => by simp [path, hd] at hp⟩
  · rw [hrec]
    exact ⟨h.congr rfl rfl, fun p hp => by simp [path, hd] at hp⟩

theorem respond_lined {c : Ctx} (h : Lined c) (hconn : c.http.connstate ≠ .disconnected) : Lined c.respond.1 := by
  by_cases he : c.http.error = false
  · rw [respond_eq he hconn]
    obtain ⟨ev, err, out, hhttp, -⟩ := c.flush_frame
    split_ifs
    · exact .of_state (by simp [reset, seperateTimer])
    · exact h.congr (by rw [hhttp]) (by rw [hhttp]; rfl)
  · rw [respond_failed (by simpa using he)]; exact h

end Ctx

namespace Session

structure Named (s : Session) : Prop extends Ok s where
  lined : s.ctx.Lined
  paths : ∀ p ∈ s.paths, FromTarget p

theorem named_step (s : Session) (o : Op) (t : Session) (h : Named s) (hstep : step s o = some t) : Named t := by
  have hkeep : Ok t := ok_step s o t h.toOk hstep
  cases o with
  | handleEvents =>
    simp only [step] at hstep
    split_ifs at hstep
    cases hstep
    exact ⟨hkeep, h.lined.congr rfl rfl, h.paths⟩
  | handleRead reads writes fs =>
    simp only [step] at hstep
    split_ifs at hstep
    cases hstep
    exact ⟨hkeep, h.lined.congr rfl rfl, h.paths⟩
  | handleWrite writes =>
    simp only [step] at hstep
    split_ifs at hstep
    cases hstep
    obtain ⟨ev, err, out, hhttp, -⟩ := Ctx.handleWrite_frame { s.ctx with io := { s.ctx.io with writes := writes } }
    exact ⟨hkeep, h.lined.congr (by rw [hhttp]) (by rw [hhttp]; rfl), h.paths⟩
  | activation =>
    simp only [step] at hstep
    split_ifs at hstep with hr
    obtain ⟨hfault, rfl⟩ := activate_some hstep
    obtain ⟨hlined, hpath⟩ := Ctx.receive_lined h.ready (h.reading hr) h.lined hfault
    have hconn := (Ctx.receive_ready h.ready (h.reading hr) hfault).connstate
    refine ⟨hkeep, Ctx.respond_lined hlined hconn, ?_⟩
    intro p hp
    rcases List.mem_append.1 hp with hp | hp
    · exact h.paths p hp
    · exact hpath p (Option.mem_toList.1 hp)

theorem named_run {fd : ℕ} {timer : Option ℕ} {timers : List Timer} {ops : List Op} {t : Session}
    (hrun : Machine.run step (accepted fd timer timers) ops = some t) : Named t := by
  apply Machine.run_inv named_step _ hrun
  refine ⟨ok_accepted fd timer timers, .of_state (by simp [accepted, HttpData.new]), ?_⟩
  intro p hp
  cases hp

end Session

/-! ## A request for every path -/

/-- the bytes that a request line cannot have in its path -/
def Sendable (path : Bytes) : Prop := (0 : UInt8) ∉ path ∧ CR ∉ path ∧ SPACE ∉ path ∧ QUESTION ∉ path

/-- "GET /path? HTTP/1.1" -/
def lineFor (path : Bytes) : Bytes := ascii "GET " ++ SLASH :: (path ++ QUESTION :: ascii " HTTP/1.1")

namespace HttpData

theorem parseRequestLine_lineFor {path : Bytes} (hblank : SPACE ∉ path) (hquery : QUESTION ∉ path) (r : RequestLine) :
    parseRequestLine (lineFor path) r = (.success, ⟨.get, .http11, path⟩) := by
  have hline : lineFor path = requestText .get (path ++ [QUESTION]) .http11 := by
    simp [lineFor, requestText, methodText, versionText, SPACE, SLASH, ascii]
  have hno : SPACE ∉ path ++ [QUESTION] := by
    simp only [List.mem_append, List.mem_singleton, not_or]
    exact ⟨hblank, by decide⟩
  rw [hline, parseRequestLine_requestText hno .http11 r (by simp [soughtBefore]), targetName, if_neg (by simp),
    takeWhile_ne_append hquery]

end HttpData

theorem cr_lineFor {path : Bytes} (h : CR ∉ path) : CR ∉ lineFor path := by
  have hcr : CR ∉ ascii "GET " ∧ CR ∉ ascii " HTTP/1.1" := by decide +kernel
  simp only [lineFor, List.mem_append, List.mem_cons, not_or]
  exact ⟨hcr.1, by decide, h, by decide, hcr.2⟩

/-- "Host: a" -/
def hostField : Bytes × Bytes := (ascii "Host", ascii "a")

theorem hostField_name : ∀ f ∈ [hostField], Name f.1 := by
  intro f hf
  obtain rfl := List.mem_singleton.1 hf
  exact ⟨by decide, by decide +kernel⟩

theorem hostField_value : ∀ f ∈ [hostField], f.2 ≠ [] ∧ CR ∉ f.2 ∧ f.2.length ≤ 256 := by
  intro f hf
  obtain rfl := List.mem_singleton.1 hf
  exact ⟨by decide +kernel, by decide +kernel, by decide +kernel⟩

/-- a request with one header field that names the path -/
def requestFor (path : Bytes) (h : Sendable path) : GetRequest where
  line := lineFor path
  fields := [hostField]
  target := ⟨.get, .http11, path⟩
  line_ok := cr_lineFor h.2.1
  accepted := parseRequestLine_lineFor h.2.2.1 h.2.2.2 _
  get := rfl
  fields_ne := List.cons_ne_nil _ _
  names_ok := hostField_name
  values_ok := hostField_value

namespace Ctx

/-- the stages on a complete request reach analysisRequest with its members -/
theorem analysed_request {c : Ctx} (hidle : Idle c) (r : GetRequest) (hbuf : c.http.inBuffer = r.bytes) :
    ∃ e, c.analysed = some e ∧ c.process = e.analysisStage ∧ e.http.state = .analysis ∧ e.http.method = .get ∧
      e.http.filename = r.target.filename ∧ e.io.fs = c.io.fs ∧ e.io.fault = c.io.fault := by
  have hbuf' : c.http.inBuffer = r.line ++ CR :: (LF :: (blockBytes (r.fields.map GetRequest.asField) ++ [])) := by
    rw [hbuf, GetRequest.bytes, List.append_nil]
  have hr := parseRequestLine_success r.accepted c.http.requestLine
  have hu := uriStage_accept hidle.state hidle.readpos r.line_ok hbuf' hr
  set d := c.accepted r.target (LF :: (blockBytes (r.fields.map GetRequest.asField) ++ []))
  have hne : r.fields.map GetRequest.asField ≠ [] := by simpa using r.fields_ne
  have hparse := parseHeaders_block d.http r.fields_ok hne (GetRequest.absorb_asField r.values_ok)
    (.start hidle.parseState rfl)
  have hheader := headerStage_success rfl hparse
  have hpost : ¬ d.http.method = .post := by rw [show d.http.method = .get from r.get]; decide
  simp only [if_neg hpost] at hheader
  refine ⟨_, ?_, process_header_go hu hheader, rfl, r.get, rfl, rfl, rfl⟩
  simp only [analysed, hu, hheader, if_true]
  exact if_pos ⟨trivial, rfl⟩

end Ctx

namespace Session

/-- every file is there, and empty -/
def emptyFiles : FileSystem := fun _ => .regular []

/-- **Every sendable path is passed to stat**, confined or not. -/
theorem path_of_request (fd : ℕ) (timer : Option ℕ) (timers : List Timer) {path : Bytes} (h : Sendable path) :
    ∃ t, Machine.run step (accepted fd timer timers)
        [.handleRead [.data (requestFor path h).bytes, .again] [] emptyFiles, .activation] = some t ∧ t.paths = [path] := by
  set r := requestFor path h
  set c : Ctx := { (accepted fd timer timers).ctx with io := ⟨[.data r.bytes, .again], [], emptyFiles, [], [], false⟩ }
  set d : Ctx := { c with http := { c.http with inBuffer := r.bytes }, io := { c.io with reads := [] } }
  have hread : c.readIn = (some (0 + r.bytes.length), false, d) := by
    obtain ⟨x, xs, hx⟩ := List.exists_cons_of_ne_nil r.bytes_ne_nil
    simp only [Ctx.readIn, readn, c, d, hx, readLoop]
    rfl
  have hstaged : c.staged = some d := by
    simp only [Ctx.staged, hread]
    rfl
  obtain ⟨e, hanalysed, hproc, hs, hget, hname, hfs, hfault⟩ :=
    Ctx.analysed_request (c := d) ⟨rfl, rfl, rfl, rfl, rfl, rfl⟩ r rfl
  have hnul : cStr path = path := takeWhile_ne h.1
  have hpath : c.path = some path := by
    simp only [Ctx.path, hstaged, Option.bind_some, hanalysed, hget, if_true, hname]
    exact congrArg some hnul
  have hlive : c.handleReadOnce.1.io.fault = false := by
    have hfile : e.io.fs (cStr e.http.filename) = .regular [] := by rw [hfs]; rfl
    obtain ⟨keep, out, hdone⟩ := Ctx.analysisStage_regular hs hget hfile
    have hrec : c.receive = d.process := Ctx.receive_open hread rfl
    rw [Ctx.handleReadOnce, Ctx.respond_fault, hrec, hproc, hdone]
    exact hfault
  refine ⟨⟨c.handleReadOnce.1, c.handleReadOnce.2, [] ++ c.answer.toList, [] ++ c.path.toList⟩, ?_, ?_⟩
  · apply Machine.run_cons.2
    refine ⟨⟨c, true, [], []⟩, rfl, ?_⟩
    apply Machine.run_cons.2
    refine ⟨_, ?_, rfl⟩
    simp only [step, if_true, activate, hlive, Bool.false_eq_true, if_false]
  · rw [hpath]; rfl

/-- a target has none of the bytes that end it -/
theorem sendable_of_target {path : Bytes} (h : FromTarget path) : Sendable path := by
  obtain ⟨line, name, hcr, htarget, rfl⟩ := h
  have hnul : (0 : UInt8) ∉ cStr name := by
    intro hc
    simpa using List.mem_takeWhile_imp hc
  have hindex : CR ∉ ascii "index.html" ∧ SPACE ∉ ascii "index.html" ∧ QUESTION ∉ ascii "index.html" := by decide +kernel
  have hsub : ∀ {x : UInt8}, x ∉ name → x ∉ cStr name := fun hx hc => hx ((List.takeWhile_prefix _).subset hc)
  obtain ⟨hc, hb, hq⟩ : CR ∉ name ∧ SPACE ∉ name ∧ QUESTION ∉ name := by
    cases htarget with
    | bare _ _ _ => exact hindex
    | empty _ _ _ => exact hindex
    | @text pre b t rest hline _ _ hblank _ =>
      have hmem : ∀ {x : UInt8}, x ∈ t.takeWhile (· ≠ QUESTION) → x ∈ t := fun hx => (List.takeWhile_prefix _).subset hx
      refine ⟨?_, fun hx => hblank (hmem hx), ?_⟩
      · intro hx
        apply hcr
        rw [hline]
        simp [hmem hx]
      · intro hx
        simpa using List.mem_takeWhile_imp hx
  exact ⟨hnul, hsub hc, hsub hb, hsub hq⟩

/-- **Served paths.** In every session each path that analysisRequest passes to stat and open is the target of a request line
up to its first NUL, as it stands: it is relative and never has more ".." than ordinary components exactly when a walk along
that target from the server's directory stays inside. Nothing else is checked: the paths that some session passes are all
those without NUL, CR, blank and '?'. -/
theorem served_paths :
    (∀ fd timer timers ops t, Machine.run step (accepted fd timer timers) ops = some t → ∀ p ∈ t.paths,
      ∃ line name, CR ∉ line ∧ Target line name ∧ p = cStr name ∧ (Confined p ↔ StaysInside (cStr name))) ∧
    ∀ p, (∃ fd timer timers ops t, Machine.run step (accepted fd timer timers) ops = some t ∧ p ∈ t.paths) ↔
      Sendable p := by
  refine ⟨?_, ?_⟩
  · intro fd timer timers ops t hrun p hp
    obtain ⟨line, name, hcr, htarget, rfl⟩ := (named_run hrun).paths p hp
    exact ⟨line, name, hcr, htarget, rfl, confined_iff _⟩
  · intro p
    constructor
    · rintro ⟨fd, timer, timers, ops, t, hrun, hp⟩
      exact sendable_of_target ((named_run hrun).paths p hp)
    · intro hsend
      obtain ⟨t, hrun, hpaths⟩ := path_of_request 5 none [] hsend
      exact ⟨5, none, [], _, t, hrun, by rw [hpaths]; simp⟩

/-- a connection that receives `request` at once -/
def receives (request : String) : List Op := [.handleRead [.data (ascii request), .again] [] emptyFiles, .activation]

theorem not_confined_of_map {request : String} (h : (Machine.run step (accepted 5 none []) (receives request)).map (fun t =>
    t.paths.map fun p => decide (Confined p)) = some [false]) :
    ∃ t p, Machine.run step (accepted 5 none []) (receives request) = some t ∧ t.paths = [p] ∧ ¬ Confined p := by
  obtain ⟨t, ht, hconfined⟩ := Option.map_eq_some_iff.1 h
  obtain ⟨p, hp, hfalse⟩ := List.map_eq_singleton_iff.1 hconfined
  exact ⟨t, p, ht, hp, of_decide_eq_false hfalse⟩

/-- an absolute path, and one that climbs -/
theorem paths_not_confined :
    (∃ t p, Machine.run step (accepted 5 none []) (receives "GET //etc/passwd HTTP/1.1\r\nHost: x\r\n\r\n") = some t ∧
      t.paths = [p] ∧ ¬ Confined p) ∧
    (∃ t p, Machine.run step (accepted 5 none []) (receives "GET /a/../../b HTTP/1.1\r\nHost: x\r\n\r\n") = some t ∧
      t.paths = [p] ∧ ¬ Confined p) := by
  constructor
  · apply not_confined_of_map
    decide +kernel
  · apply not_confined_of_map
    decide +kernel

end Session

end Glacier
