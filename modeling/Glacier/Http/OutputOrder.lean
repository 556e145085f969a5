/-
The output of one connection: the bytes that the socket has accepted, against the responses in their order.

A file goes through outBuffer_ and waits there for the socket. handleError does not look at outBuffer_: it sends header and
body of the error page at once, each as far as the socket takes it. And writen forgets what is left of outBuffer_ if the
bytes it has sent are as many as the size says as an int.
- `writeOut_taken`, `flush_output`: what is sent, and what stays in outBuffer_;
- `Output`, `receive_output`: an activation sends an error page, or adds a file to outBuffer_, or does neither;
- `InOrder`: the steps that keep the order;
- `output_in_order`: a run of such steps sends a part of the responses.
-/
import Glacier.Http.Session

namespace Glacier

open Cxx HttpData

namespace Ctx

/-! ## What is sent -/

/-- the bytes that writen sends -/
def taken (ws : List WriteResult) (bytes : Bytes) : Bytes := (writeLoop ws bytes 0).2.1

/-- the results of write(2) that it leaves -/
def left (ws : List WriteResult) (bytes : Bytes) : List WriteResult := (writeLoop ws bytes 0).2.2

theorem taken_start (ws : List WriteResult) (bytes : Bytes) : taken ws bytes <+: bytes := (writeLoop_taken ws bytes 0).1

/-- what the socket takes of an error page -/
def pageTaken (ws : List WriteResult) (errNum : ℕ) (shortMsg : String) : Bytes :=
  taken ws (errorHeader errNum shortMsg) ++ taken (left ws (errorHeader errNum shortMsg)) (errorBody errNum shortMsg)

theorem handleError_sent (c : Ctx) (errNum : ℕ) (shortMsg : String) :
    (c.handleError errNum shortMsg).io.sent = c.io.sent ++ pageTaken c.io.writes errNum shortMsg := by
  simp only [handleError, pageTaken, ← List.append_assoc]
  rfl

/-- writen(int, std::string&) stops before the end with a sum that is the size as an int, and clears the string -/
def Forgets (ws : List WriteResult) (buf : Bytes) : Prop :=
  ∃ n ∈ (writeLoop ws buf 0).1, n < buf.length ∧ (n : ℤ) = toInt buf.length

instance (ws : List WriteResult) (buf : Bytes) : Decidable (Forgets ws buf) :=
  inferInstanceAs (Decidable (∃ n ∈ (writeLoop ws buf 0).1, _))

/-- writen on outBuffer_ fails, or keeps what it has not sent unless it forgets it -/
theorem writeOut_taken (c : Ctx) :
    c.writeOut = (none, (c.writeAll c.http.outBuffer).2) ∨
      ∃ n out, c.writeOut = (some n, { (c.writeAll c.http.outBuffer).2 with http := { c.http with outBuffer := out } }) ∧
        (¬ Forgets c.io.writes c.http.outBuffer → taken c.io.writes c.http.outBuffer ++ out = c.http.outBuffer) := by
  rcases c.writeOut_cases with hw | ⟨n, out, hw, hret, hout⟩
  · exact Or.inl hw
  · refine Or.inr ⟨n, out, hw, ?_⟩
    intro hforgets
    obtain ⟨-, htaken⟩ := writeLoop_some hret
    have hkeep : unsent n c.http.outBuffer = c.http.outBuffer.drop n :=
      unsent_eq_drop_iff.2 fun hlt => hforgets ⟨n, hret, hlt⟩
    rw [hout, hkeep, taken, htaken, List.take_append_drop]

/-- sending outBuffer_: what is sent is its front, and without an error the rest stays -/
theorem handleWrite_output {c : Ctx} (he : c.http.error = false) (hconn : c.http.connstate ≠ .disconnected) :
    c.handleWrite.io.sent = c.io.sent ++ taken c.io.writes c.http.outBuffer ∧
      (c.handleWrite.http.error = false → ¬ Forgets c.io.writes c.http.outBuffer →
        taken c.io.writes c.http.outBuffer ++ c.handleWrite.http.outBuffer = c.http.outBuffer) := by
  rw [handleWrite, if_pos ⟨he, hconn⟩]
  rcases c.writeOut_taken with hw | ⟨n, out, hw, hkeep⟩
  · rw [hw]
    dsimp only
    refine ⟨?_, ?_⟩
    · split_ifs <;> rfl
    · split_ifs
      · intro hc; cases hc
      · intro hc; cases hc
  · rw [hw]
    dsimp only
    refine ⟨?_, fun _ hforgets => ?_⟩
    · split_ifs <;> rfl
    · have hout := hkeep hforgets
      split_ifs <;> exact hout

theorem flush_output {c : Ctx} (he : c.http.error = false) (hconn : c.http.connstate ≠ .disconnected) :
    c.flush.io.sent = c.io.sent ++ taken c.io.writes c.http.outBuffer ∧
      (c.flush.http.error = false → ¬ Forgets c.io.writes c.http.outBuffer →
        taken c.io.writes c.http.outBuffer ++ c.flush.http.outBuffer = c.http.outBuffer) := by
  unfold flush
  by_cases hout : c.http.outBuffer = []
  · rw [if_neg (not_not.2 hout), hout]
    have hnil : taken c.io.writes [] = [] := List.prefix_nil.1 (taken_start _ _)
    rw [hnil]
    exact ⟨(List.append_nil _).symm, fun _ _ => by simp⟩
  · rw [if_pos hout]
    exact handleWrite_output he hconn

/-! ## What an activation does about the output -/

/-- from a connection as `c`: an error page is sent at once, a file is added to outBuffer_, or nothing is done, which is an
error once analysisRequest is reached with `a` -/
inductive Output (c : Ctx) (a : Option Ctx) : Option Response → Ctx → Prop where
  | page {errNum : ℕ} {shortMsg : String} {d : Ctx} (error : d.http.error = true)
      (sent : d.io.sent = c.io.sent ++ pageTaken c.io.writes errNum shortMsg) :
      Output c a (some (.page errNum shortMsg)) d
  | file {keep : Bool} {filetype content : Bytes} {d : Ctx} (error : d.http.error = false)
      (out : d.http.outBuffer = c.http.outBuffer ++ (Response.ok keep filetype content).bytes)
      (sent : d.io.sent = c.io.sent) (writes : d.io.writes = c.io.writes) :
      Output c a (some (.ok keep filetype content)) d
  | nothing {d : Ctx} (out : d.http.outBuffer = c.http.outBuffer) (sent : d.io.sent = c.io.sent)
      (writes : d.io.writes = c.io.writes) (quiet : d.http.error = false → a = none) : Output c a none d

/-- a connection with the same output -/
structure SameOutput (c d : Ctx) : Prop where
  error : d.http.error = c.http.error
  out : d.http.outBuffer = c.http.outBuffer
  sent : d.io.sent = c.io.sent
  writes : d.io.writes = c.io.writes

theorem Output.of_same {c d e : Ctx} {a : Option Ctx} {r : Option Response} (ho : Output d a r e) (h : SameOutput c d) :
    Output c a r e := by
  cases ho with
  | page he hs => exact .page he (by rw [hs, h.sent, h.writes])
  | file he hout hs hw => exact .file he (by rw [hout, h.out]) (hs.trans h.sent) (hw.trans h.writes)
  | nothing hout hs hw hq => exact .nothing (hout.trans h.out) (hs.trans h.sent) (hw.trans h.writes) hq

theorem analysisStage_output {c : Ctx} (hs : c.http.state = .analysis) (he : c.http.error = false)
    (hfault : c.analysisStage.io.fault = false) : Output c (some c) c.analysisAnswer c.analysisStage := by
  have hdone := analysisStage_cases hs
  generalize c.analysisStage = d at hdone hfault ⊢
  generalize c.analysisAnswer = r at hdone ⊢
  cases hdone with
  | noGet _ => exact .nothing rfl rfl rfl (fun hc => by cases hc)
  | absent _ => exact .page rfl (handleError_sent _ _ _)
  | unreadable _ => exact .page rfl (handleError_sent _ _ _)
  | fault _ _ hd => rw [hd] at hfault; cases hfault
  | file _ content => exact .file he rfl rfl rfl

/-- the stages of a connection that waits for header fields -/
theorem process_headers_output {c : Ctx} (hs : c.http.state = .parseHeaders) (he : c.http.error = false)
    (hfault : c.process.io.fault = false) : Output c c.analysed c.stageAnswer c.process := by
  have hu : c.uriStage = (c, true) := uriStage_skip hs
  have hdone := headerStage_cases hs
  rw [process_headers hs] at hfault ⊢
  simp only [stageAnswer, rejects, analysed, hu, if_true, hs, decide_true, Bool.true_and]
  generalize c.headerStage = x at hdone hfault ⊢
  cases hdone with
  | again hp => simp only [hp]; exact .nothing rfl rfl rfl (fun _ => rfl)
  | reject hp => simp only [hp]; exact .page rfl (handleError_sent _ _ _)
  | accept hp =>
    simp only [hp, if_true] at hfault ⊢
    by_cases hpost : c.http.method = .post
    · simp only [hpost, if_true] at hfault ⊢
      exact .nothing rfl rfl rfl (fun _ => rfl)
    · simp only [if_neg hpost] at hfault ⊢
      refine Output.of_same (analysisStage_output ?_ ?_ hfault) ⟨rfl, rfl, rfl, rfl⟩
      · rfl
      · exact he

theorem process_output {c : Ctx} (h : Ready c) (he : c.http.error = false) (hfault : c.process.io.fault = false) :
    Output c c.analysed c.stageAnswer c.process := by
  have hdone := process_cases h he
  generalize c.process = d, c.analysed = e, c.stageAnswer = r at hdone hfault ⊢
  cases hdone with
  | again _ => exact .nothing rfl rfl rfl (fun _ => rfl)
  | reject _ _ _ _ => exact .page rfl (handleError_sent _ _ _)
  | accept _ _ _ _ =>
    refine Output.of_same (process_headers_output ?_ ?_ hfault) ⟨rfl, rfl, rfl, rfl⟩
    · rfl
    · exact he
  | headers hs => exact process_headers_output hs he hfault
  | body _ => exact .nothing rfl rfl rfl (fun _ => rfl)

theorem receive_output {c : Ctx} (h : Ready c) (he : c.http.error = false) (hfault : c.receive.io.fault = false) :
    Output c (c.staged.bind analysed) c.answer c.receive := by
  rcases c.receive_staged with ⟨d, hd, hrec⟩ | ⟨hd, hconn, hret, hrec⟩ | ⟨hd, hclose, hrec⟩
  · have hsame : SameOutput c d := by
      obtain ⟨cs, rfl, -⟩ := staged_some hd
      exact ⟨rfl, rfl, rfl, rfl⟩
    rw [hrec] at hfault ⊢
    simp only [answer, hd, Option.bind_some]
    exact .of_same (process_output (staged_ready h hd) (hsame.error.trans he) hfault) hsame
  · simp only [answer, hd, Option.bind_none]
    rw [if_pos ⟨hconn, hret⟩, hrec]
    exact .page rfl (handleError_sent _ _ _)
  · have hno : ¬ (c.http.connstate ≠ .disconnecting ∧ c.readIn.1 = none) := by
      intro hc
      rcases hclose with hclose | hclose
      · exact hc.1 hclose
      · exact hclose hc.2
    simp only [answer, hd, Option.bind_none]
    rw [if_neg hno, hrec]
    exact .nothing rfl rfl rfl (fun _ => rfl)

/-- what is sent after the `do … while (false)` -/
theorem respond_output {c : Ctx} (he : c.http.error = false) (hconn : c.http.connstate ≠ .disconnected) :
    c.respond.1.io.sent = c.io.sent ++ taken c.io.writes c.http.outBuffer ∧
      (c.respond.1.http.error = false → ¬ Forgets c.io.writes c.http.outBuffer →
        taken c.io.writes c.http.outBuffer ++ c.respond.1.http.outBuffer = c.http.outBuffer) := by
  rw [respond_eq he hconn]
  split_ifs
  · exact flush_output he hconn
  · exact flush_output he hconn

end Ctx

namespace Session

/-! ## The order -/

/-- all responses that the connection should have got, one after the other -/
def owed (s : Session) : Bytes := s.responses.flatMap Response.bytes

/-- an error page is sent in its place: nothing waits and its header is taken whole, or none of its body; or the socket takes
nothing -/
def PageInOrder (waiting : Bytes) (ws : List WriteResult) (errNum : ℕ) (shortMsg : String) : Prop :=
  (waiting = [] ∧ (Ctx.taken ws (Ctx.errorHeader errNum shortMsg) = Ctx.errorHeader errNum shortMsg ∨
      Ctx.taken (Ctx.left ws (Ctx.errorHeader errNum shortMsg)) (Ctx.errorBody errNum shortMsg) = [])) ∨
    Ctx.pageTaken ws errNum shortMsg = []

instance (waiting : Bytes) (ws : List WriteResult) (errNum : ℕ) (shortMsg : String) :
    Decidable (PageInOrder waiting ws errNum shortMsg) := inferInstanceAs (Decidable (_ ∨ _))

/-- an activation with this response keeps the order: an error page is sent in its place, and writen forgets nothing -/
def AnswerInOrder (c : Ctx) : Option Response → Prop
  | some (.page errNum shortMsg) => PageInOrder c.http.outBuffer c.io.writes errNum shortMsg
  | some (.ok keep filetype content) =>
    ¬ Ctx.Forgets c.io.writes (c.http.outBuffer ++ (Response.ok keep filetype content).bytes)
  | none => c.staged.bind Ctx.analysed = none → ¬ Ctx.Forgets c.io.writes c.http.outBuffer

instance (c : Ctx) : (r : Option Response) → Decidable (AnswerInOrder c r)
  | some (.page _ _) => inferInstanceAs (Decidable (PageInOrder _ _ _ _))
  | some (.ok _ _ _) => inferInstanceAs (Decidable (¬ _))
  | none => inferInstanceAs (Decidable (_ → ¬ _))

/-- the steps that keep the order -/
def InOrder (s : Session) : Op → Prop
  | .activation => AnswerInOrder s.ctx s.ctx.answer
  | .handleWrite writes => s.ctx.http.error = false → ¬ Ctx.Forgets writes s.ctx.http.outBuffer
  | _ => True

instance (s : Session) : (o : Op) → Decidable (InOrder s o)
  | .activation => inferInstanceAs (Decidable (AnswerInOrder _ _))
  | .handleWrite _ => inferInstanceAs (Decidable (_ → ¬ _))
  | .handleEvents => isTrue trivial
  | .handleRead _ _ _ => isTrue trivial

/-- the accepted bytes are a part of the responses, and without an error the rest waits in outBuffer_ -/
structure Ordered (s : Session) : Prop extends Ok s where
  sent : s.ctx.io.sent <+: s.owed
  rest : s.ctx.http.error = false → s.ctx.io.sent ++ s.ctx.http.outBuffer = s.owed

theorem page_in_order {waiting : Bytes} {ws : List WriteResult} {errNum : ℕ} {shortMsg : String}
    (h : PageInOrder waiting ws errNum shortMsg) {sent owed : Bytes} (howed : sent ++ waiting = owed) :
    sent ++ Ctx.pageTaken ws errNum shortMsg <+: owed ++ (Response.page errNum shortMsg).bytes := by
  subst howed
  rw [List.append_assoc]
  apply (List.prefix_append_right_inj sent).2
  rcases h with ⟨rfl, hheader | hbody⟩ | hnone
  · rw [List.nil_append, Response.bytes, Ctx.pageTaken, hheader]
    exact (List.prefix_append_right_inj _).2 (Ctx.taken_start _ _)
  · rw [List.nil_append, Response.bytes, Ctx.pageTaken, hbody, List.append_nil]
    exact (Ctx.taken_start _ _).trans (List.prefix_append _ _)
  · rw [hnone]
    exact List.nil_prefix

/-- sending what waits, from a connection with the order kept -/
theorem sent_in_order {c d : Ctx} {owed t : Bytes} (hrest : c.io.sent ++ c.http.outBuffer = owed)
    (ht : t <+: c.http.outBuffer)
    (hsent : d.io.sent = c.io.sent ++ t)
    (hkeep : d.http.error = false → t ++ d.http.outBuffer = c.http.outBuffer) :
    d.io.sent <+: owed ∧ (d.http.error = false → d.io.sent ++ d.http.outBuffer = owed) := by
  rw [hsent, ← hrest]
  refine ⟨(List.prefix_append_right_inj _).2 ht, ?_⟩
  intro he
  rw [List.append_assoc, hkeep he]

theorem ordered_activation {s t : Session} (h : Ordered s) (hok : InOrder s .activation)
    (hstep : step s .activation = some t) : t.ctx.io.sent <+: t.owed ∧
      (t.ctx.http.error = false → t.ctx.io.sent ++ t.ctx.http.outBuffer = t.owed) := by
  simp only [step] at hstep
  split_ifs at hstep with hr
  obtain ⟨hfault, rfl⟩ := activate_some hstep
  have he := h.reading hr
  have hout := Ctx.receive_output h.ready he hfault
  have hconn := (Ctx.receive_ready h.ready he hfault).connstate
  simp only [InOrder] at hok
  simp only [owed, List.flatMap_append, Ctx.handleReadOnce]
  generalize s.ctx.receive = d at hout hconn ⊢
  generalize s.ctx.answer = r at hout hok ⊢
  have hrest : s.ctx.io.sent ++ s.ctx.http.outBuffer = s.responses.flatMap Response.bytes := h.rest he
  cases hout with
  | page herr hsent =>
    have hresp : d.respond = (d, false) := by rw [Ctx.respond, if_pos herr]
    rw [hresp]
    refine ⟨?_, fun hc => absurd (herr.symm.trans hc) (by simp)⟩
    have hpage := page_in_order hok hrest
    simp only [hsent]
    simpa using hpage
  | @file keep filetype content _ herr hbuf hsent hwrites =>
    obtain ⟨hs, hk⟩ := Ctx.respond_output herr hconn
    rw [hwrites, hbuf] at hs hk
    have hd : d.io.sent ++ d.http.outBuffer = s.responses.flatMap Response.bytes ++
        (Response.ok keep filetype content).bytes := by rw [hsent, hbuf, ← List.append_assoc, hrest]
    have := sent_in_order hd (by rw [hbuf]; exact Ctx.taken_start _ _) hs (fun hc => by rw [hbuf]; exact hk hc hok)
    simpa using this
  | nothing hbuf hsent hwrites hquiet =>
    cases herr : d.http.error with
    | true =>
      have hresp : d.respond = (d, false) := by rw [Ctx.respond, if_pos herr]
      rw [hresp]
      refine ⟨?_, fun hc => absurd (herr.symm.trans hc) (by simp)⟩
      simpa [hsent, owed] using h.sent
    | false =>
      obtain ⟨hs, hk⟩ := Ctx.respond_output herr hconn
      rw [hwrites, hbuf] at hs hk
      have hd : d.io.sent ++ d.http.outBuffer = s.responses.flatMap Response.bytes := by rw [hsent, hbuf, hrest]
      have := sent_in_order hd (by rw [hbuf]; exact Ctx.taken_start _ _) hs
        (fun hc => by rw [hbuf]; exact hk hc (hok (hquiet herr)))
      simpa using this

theorem ordered_step (s : Session) (o : Op) (t : Session) (h : Ordered s) (hok : InOrder s o)
    (hstep : step s o = some t) : Ordered t := by
  have hkeep : Ok t := ok_step s o t h.toOk hstep
  cases o with
  | activation =>
    obtain ⟨hsent, hrest⟩ := ordered_activation h hok hstep
    exact ⟨hkeep, hsent, hrest⟩
  | handleEvents =>
    simp only [step] at hstep
    split_ifs at hstep
    cases hstep
    exact ⟨hkeep, h.sent, h.rest⟩
  | handleRead reads writes fs =>
    simp only [step] at hstep
    split_ifs at hstep
    cases hstep
    exact ⟨hkeep, h.sent, h.rest⟩
  | handleWrite writes =>
    simp only [step] at hstep
    split_ifs at hstep
    cases hstep
    cases he : s.ctx.http.error with
    | true =>
      have hnone : Ctx.handleWrite { s.ctx with io := { s.ctx.io with writes := writes } } =
          { s.ctx with io := { s.ctx.io with writes := writes } } := by
        rw [Ctx.handleWrite, if_neg (fun hc => absurd (he.symm.trans hc.1) (by simp))]
      refine ⟨hkeep, ?_, ?_⟩
      · simp only [hnone]; exact h.sent
      · simp only [hnone]; exact h.rest
    | false =>
      have hrest := h.rest he
      obtain ⟨hs, hk⟩ := Ctx.handleWrite_output (c := { s.ctx with io := { s.ctx.io with writes := writes } }) he
        h.ready.connstate
      obtain ⟨hsent, hrest⟩ := sent_in_order hrest (Ctx.taken_start _ _) hs (fun hc => hk hc (hok he))
      exact ⟨hkeep, hsent, hrest⟩

theorem ordered_accepted (fd : ℕ) (timer : Option ℕ) (timers : List Timer) : Ordered (accepted fd timer timers) :=
  ⟨ok_accepted fd timer timers, List.nil_prefix, fun _ => rfl⟩

/-- **The output is in order while error pages wait their turn.** In every run of a connection in which each error page is
sent when nothing waits in outBuffer_ and is not broken off inside its header, and in which writen forgets nothing, the bytes
accepted by the socket are a prefix of the responses to the requests so far. -/
theorem output_in_order (fd : ℕ) (timer : Option ℕ) (timers : List Timer) (ops : List Op) (t : Session)
    (hok : Machine.Meets step InOrder (accepted fd timer timers) ops)
    (hrun : Machine.run step (accepted fd timer timers) ops = some t) :
    t.ctx.io.sent <+: t.responses.flatMap Response.bytes :=
  (Machine.run_inv_of_meets ordered_step (ordered_accepted fd timer timers) hok hrun).sent

/-- a request for a file of two bytes -/
def getFile : Bytes := ascii "GET /a HTTP/1.1\r\nHost: x\r\n\r\n"

def twoBytes : FileSystem := fun _ => .regular (ascii "hi")

/-- a file sent in two parts, and then the error page for a bad request line -/
def patientOps : List Op :=
  [.handleRead [.data getFile, .again] [.wrote 10, .again] twoBytes, .activation, .handleWrite [.wrote 4096],
    .handleRead [.data (ascii "BAD\r\n"), .again] [.wrote 4096, .wrote 4096] twoBytes, .activation]

theorem output_in_order_patient : ∃ t, Machine.run step (accepted 5 none []) patientOps = some t ∧
    t.ctx.io.sent <+: t.responses.flatMap Response.bytes := by
  have hsome : (Machine.run step (accepted 5 none []) patientOps).isSome := by decide +kernel
  obtain ⟨t, ht⟩ := Option.isSome_iff_exists.1 hsome
  exact ⟨t, ht, output_in_order 5 none [] patientOps t (by decide +kernel) ht⟩

/-- a second, bad request behind the first one, while the socket takes ten bytes of the first response and then the whole
error page -/
def pipelinedOps : List Op :=
  [.handleRead [.data (getFile ++ ascii "GET /b\r\n"), .again] [.wrote 10, .again, .wrote 4096, .wrote 4096] twoBytes,
    .activation, .activation]

theorem page_before_rest : ∃ t, Machine.run step (accepted 5 none []) pipelinedOps = some t ∧
    ¬ t.ctx.io.sent <+: t.responses.flatMap Response.bytes := by
  have hrun : (Machine.run step (accepted 5 none []) pipelinedOps).map (fun t =>
      decide (t.ctx.io.sent <+: t.responses.flatMap Response.bytes)) = some false := by decide +kernel
  obtain ⟨t, ht, hfalse⟩ := Option.map_eq_some_iff.1 hrun
  exact ⟨t, ht, of_decide_eq_false hfalse⟩

end Session

end Glacier
