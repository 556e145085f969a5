/-
What the loop calls on one connection, as a list of calls.

The loop works on a connection in three ways that matter to it: handleEvents clears the mask, and the two callbacks run with
the results of their system calls. Everything else that happens to the record is the loop's own: the channel, and the timer.
- `handleRead_agree`: the read callback on two connections that differ in what is the loop's own;
- `withPast`, `handleRead_withPast`: a callback adds to what has been sent and accepted before, and does not look at it;
- `calls_session`: the calls are a run of the session of the connection.
-/
import Glacier.Http.Independence

namespace Glacier

open Cxx HttpData

inductive Call where
  | handleEvents
  | handleRead (reads : List ReadResult) (writes : List WriteResult) (fs : FileSystem)
  | handleWrite (writes : List WriteResult)

namespace Ctx

/-- a call; none if the process dies on a mapping that failed, or after an error, once handleConn has closed the
connection -/
def call (c : Ctx) : Call → Option Ctx
  | .handleEvents => some { c with http := { c.http with channel := c.http.channel.setEvents 0 } }
  | .handleRead reads writes fs =>
    if c.http.error then none
    else
      let c := { c with io := { c.io with reads := reads, writes := writes, fs := fs } }.handleRead
      if c.io.fault then none else some c
  | .handleWrite writes => some { c with io := { c.io with writes := writes } }.handleWrite

/-- the connection that handleNewConn makes -/
def fresh (fd : ℕ) : Ctx := ⟨.new fd, ⟨[], [], fun _ => .absent, [], [], false⟩, []⟩

/-! ## What is the loop's own -/

theorem handleReadLoop_agree (n : ℕ) {c d : Ctx} (h : Agree c d) (hready : c.Ready) (he : c.http.error = false)
    (hfault : (handleReadLoop n d).io.fault = false) : Agree (handleReadLoop n c) (handleReadLoop n d) := by
  induction n generalizing c d with
  | zero => exact h
  | succ n ih =>
    obtain ⟨hagree, hagain⟩ := Session.agree_activation h hready he
    unfold handleReadLoop at hfault ⊢
    dsimp only at hfault ⊢
    rw [← hagain] at hfault ⊢
    split_ifs at hfault ⊢ with ha
    · -- a process that has died stays so, so that this one lives
      have hlive : d.handleReadOnce.1.io.fault = false := by
        by_contra hdead
        rw [Bool.not_eq_false] at hdead
        have hstays : ∀ (m : ℕ) (e : Ctx), e.io.fault = true → (handleReadLoop m e).io.fault = true := by
          intro m
          induction m with
          | zero => exact fun _ => id
          | succ m ihm =>
            intro e hfe
            unfold handleReadLoop
            dsimp only
            split_ifs
            · exact ihm _ (handleReadOnce_fault hfe)
            · exact handleReadOnce_fault hfe
        rw [hstays n _ hdead] at hfault
        cases hfault
      have hreceived : c.receive.io.fault = false :=
        calc c.receive.io.fault = c.handleReadOnce.1.io.fault := c.receive.respond_fault.symm
          _ = d.handleReadOnce.1.io.fault := by rw [hagree.io]
          _ = false := hlive
      exact ih hagree (respond_ready (receive_ready hready he hreceived)) (respond_error ha) hfault
    · exact hagree

/-- **The read callback** on two connections that agree -/
theorem handleRead_agree {c d : Ctx} (h : Agree c d) (hready : c.Ready) (he : c.http.error = false)
    (hfault : d.handleRead.io.fault = false) : Agree c.handleRead d.handleRead := by
  have hpending : c.pending = d.pending := by rw [pending, pending, h.inBuffer, h.io]
  rw [handleRead, handleRead, hpending] at *
  exact handleReadLoop_agree _ h hready he hfault

/-! ## What handleWrite does not look at -/

/-- the same connection in another outside world -/
def mapIo (c : Ctx) (g : Io → Io) : Ctx := { c with io := g c.io }

/-- writen goes in the one as in the other -/
structure Unseen (g : Io → Io) : Prop where
  writes : ∀ io, (g io).writes = io.writes
  sent : ∀ io ws bytes, g { io with writes := ws, sent := io.sent ++ bytes } =
    { g io with writes := ws, sent := (g io).sent ++ bytes }

section Unseen

variable {g : Io → Io} (hg : Unseen g) (c : Ctx)
include hg

theorem writeAll_mapIo (bytes : Bytes) :
    (c.mapIo g).writeAll bytes = ((c.writeAll bytes).1, (c.writeAll bytes).2.mapIo g) := by
  have hloop : writeLoop (c.mapIo g).io.writes bytes 0 = writeLoop c.io.writes bytes 0 := by
    rw [show (c.mapIo g).io.writes = c.io.writes from hg.writes c.io]
  unfold writeAll
  rw [hloop]
  dsimp only [mapIo]
  rw [hg.sent]

theorem handleError_mapIo (errNum : ℕ) (shortMsg : String) :
    (c.mapIo g).handleError errNum shortMsg = (c.handleError errNum shortMsg).mapIo g := by
  simp only [handleError, writeAll_mapIo hg]

omit hg in
/-- the string that is left in outBuffer_ is not a matter of the world -/
theorem outBuffer_mapIo (n : ℕ) (out : Bytes) :
    (some n, { c.mapIo g with http := { (c.mapIo g).http with outBuffer := out } }) =
      (some n, { c with http := { c.http with outBuffer := out } }.mapIo g) := rfl

theorem writeOut_mapIo : (c.mapIo g).writeOut = (c.writeOut.1, c.writeOut.2.mapIo g) := by
  have hwrite : (c.mapIo g).writeAll (c.mapIo g).http.outBuffer =
      ((c.writeAll c.http.outBuffer).1, (c.writeAll c.http.outBuffer).2.mapIo g) :=
    writeAll_mapIo hg c c.http.outBuffer
  have hbuf : (c.mapIo g).http.outBuffer = c.http.outBuffer := rfl
  rcases hw : c.writeAll c.http.outBuffer with ⟨_ | n, d⟩
  · rw [hw] at hwrite
    rw [writeOut_none hw, writeOut_none hwrite]
  · rw [hw] at hwrite
    rw [writeOut_some hw, writeOut_some hwrite, hbuf]
    exact outBuffer_mapIo d n _

theorem handleWrite_mapIo : (c.mapIo g).handleWrite = c.handleWrite.mapIo g := by
  have hmask : ∀ d : Ctx, (if (d.mapIo g).http.outBuffer ≠ [] then (d.mapIo g).orEvents EPOLLOUT else d.mapIo g) =
      (if d.http.outBuffer ≠ [] then d.orEvents EPOLLOUT else d).mapIo g := by
    intro d
    change (if d.http.outBuffer ≠ [] then _ else _) = _
    split_ifs <;> rfl
  unfold handleWrite
  change (if c.http.error = false ∧ c.http.connstate ≠ .disconnected then _ else _) = _
  split_ifs
  · rw [writeOut_mapIo hg]
    rcases c.writeOut with ⟨_ | n, d⟩
    · exact hmask { d with http := { d.http with channel := d.http.channel.setEvents 0, error := true } }
    · exact hmask d
  · rfl

end Unseen

/-- other results for read(2), and other files -/
def scripts (reads : List ReadResult) (fs : FileSystem) (io : Io) : Io := { io with reads := reads, fs := fs }

theorem unseen_scripts (reads : List ReadResult) (fs : FileSystem) : Unseen (scripts reads fs) :=
  ⟨fun _ => rfl, fun _ _ _ => rfl⟩

/-! ## What has been sent and accepted before -/

/-- a longer past -/
def past (sent : Bytes) (requests : List Request) (io : Io) : Io :=
  { io with sent := sent ++ io.sent, requests := requests ++ io.requests }

theorem unseen_past (sent : Bytes) (requests : List Request) : Unseen (past sent requests) := by
  refine ⟨fun _ => rfl, ?_⟩
  intro io ws bytes
  simp only [past, List.append_assoc]

section Past

variable (c : Ctx) (sent : Bytes) (requests : List Request)

/-- the same connection with a longer past -/
abbrev withPast : Ctx := c.mapIo (past sent requests)

theorem handleError_withPast (errNum : ℕ) (shortMsg : String) : (c.withPast sent requests).handleError errNum shortMsg =
    (c.handleError errNum shortMsg).withPast sent requests :=
  handleError_mapIo (unseen_past sent requests) c errNum shortMsg

theorem badRequest_withPast : (c.withPast sent requests).badRequest = c.badRequest.withPast sent requests := by
  unfold badRequest
  rw [← handleError_withPast]
  rfl

theorem flush_withPast : (c.withPast sent requests).flush = c.flush.withPast sent requests := by
  unfold flush
  change (if c.http.outBuffer ≠ [] then _ else _) = _
  split_ifs
  · exact handleWrite_mapIo (unseen_past sent requests) c
  · rfl

theorem respond_withPast : (c.withPast sent requests).respond =
    (c.respond.1.withPast sent requests, c.respond.2) := by
  cases he : c.http.error with
  | true => rw [respond_failed he, respond_failed (c := c.withPast sent requests) he]
  | false =>
    rw [respond_open he, respond_open (c := c.withPast sent requests) he, flush_withPast]
    change (if c.flush.http.error = false ∧ c.flush.http.state = .finish then _
      else if c.flush.http.error = false ∧ c.flush.http.connstate = .disconnected then _ else _) = _
    split_ifs <;> rfl

theorem uriStage_withPast : (c.withPast sent requests).uriStage =
    (c.uriStage.1.withPast sent requests, c.uriStage.2) := by
  have hhttp : (c.withPast sent requests).http = c.http := rfl
  unfold uriStage
  rw [hhttp]
  split_ifs
  · rcases c.http.parseURI with ⟨flag, h⟩
    cases flag with
    | again => rfl
    | error =>
      have hpage := badRequest_withPast { c with http := { h with inBuffer := [] } } sent requests
      exact Prod.ext hpage rfl
    | success => rfl
  · rfl

theorem headerStage_withPast : (c.withPast sent requests).headerStage =
    (c.headerStage.1.withPast sent requests, c.headerStage.2) := by
  have hhttp : (c.withPast sent requests).http = c.http := rfl
  unfold headerStage
  rw [hhttp]
  split_ifs
  · rcases c.http.parseHeaders with ⟨flag, h⟩
    cases flag with
    | again => rfl
    | error => exact Prod.ext (badRequest_withPast { c with http := h } sent requests) rfl
    | success => simp only [logRequest, withPast, mapIo, past, List.append_assoc]
  · rfl

theorem serve_withPast : (c.withPast sent requests).serve = c.serve.withPast sent requests := by
  have hfile : (c.withPast sent requests).io.fs (cStr (c.withPast sent requests).http.filename) =
      c.io.fs (cStr c.http.filename) := rfl
  unfold serve
  rw [hfile]
  cases c.io.fs (cStr c.http.filename) with
  | absent =>
    dsimp only
    rw [← handleError_withPast]
    rfl
  | unreadable size =>
    dsimp only
    rw [← handleError_withPast]
    rfl
  | regular content => rfl
  | directory size =>
    dsimp only
    split_ifs <;> rfl

theorem analysisStage_withPast : (c.withPast sent requests).analysisStage =
    c.analysisStage.withPast sent requests := by
  by_cases hs : c.http.state = .analysis
  · rw [analysisStage_eq hs, analysisStage_eq (c := c.withPast sent requests) hs, serve_withPast]
    change (if c.http.method = .get then _ else _) = _
    split_ifs <;> rfl
  · rw [analysisStage, analysisStage, if_neg hs, if_neg]
    exact hs

theorem process_withPast : (c.withPast sent requests).process = c.process.withPast sent requests := by
  simp only [process_eq, uriStage_withPast, headerStage_withPast, analysisStage_withPast]
  split_ifs <;> rfl

theorem receive_withPast : (c.withPast sent requests).receive = c.receive.withPast sent requests := by
  have hread : (c.withPast sent requests).readIn =
      (c.readIn.1, c.readIn.2.1, c.readIn.2.2.withPast sent requests) := rfl
  unfold receive
  rw [hread]
  rcases c.readIn with ⟨_ | cnt, zero, d⟩
  · dsimp only
    change (if d.http.connstate = .disconnecting then _ else _) = _
    split_ifs
    · rfl
    · exact badRequest_withPast d sent requests
  · dsimp only
    change (if d.http.connstate = .disconnecting then _ else _) = _
    split_ifs
    · rfl
    · rfl
    · exact process_withPast { d with http := { d.http with connstate := .disconnecting } } sent requests
    · exact process_withPast d sent requests

theorem handleReadOnce_withPast : (c.withPast sent requests).handleReadOnce =
    (c.handleReadOnce.1.withPast sent requests, c.handleReadOnce.2) := by
  rw [handleReadOnce, receive_withPast, respond_withPast]
  rfl

theorem handleRead_withPast : (c.withPast sent requests).handleRead = c.handleRead.withPast sent requests := by
  have hloop : ∀ (n : ℕ) (d : Ctx), handleReadLoop n (d.withPast sent requests) =
      (handleReadLoop n d).withPast sent requests := by
    intro n
    induction n with
    | zero => exact fun _ => rfl
    | succ n ih =>
      intro d
      unfold handleReadLoop
      rw [handleReadOnce_withPast]
      dsimp only
      split_ifs
      · exact ih _
      · rfl
  exact hloop (c.pending + 2) c

end Past

/-- without its past -/
def pastless (c : Ctx) : Ctx := { c with io := { c.io with sent := [], requests := [] } }

theorem pastless_withPast (c : Ctx) : c.pastless.withPast c.io.sent c.io.requests = c := by
  simp only [pastless, withPast, mapIo, past, List.append_nil]

/-- what has been sent and accepted stays so -/
theorem call_grows {c d : Ctx} {o : Call} (h : c.call o = some d) :
    c.io.sent <+: d.io.sent ∧ c.io.requests <+: d.io.requests := by
  cases o with
  | handleEvents =>
    obtain rfl := Option.some.inj h
    exact ⟨List.prefix_rfl, List.prefix_rfl⟩
  | handleRead reads writes fs =>
    simp only [call] at h
    split_ifs at h
    obtain rfl := Option.some.inj h
    rw [← pastless_withPast { c with io := { c.io with reads := reads, writes := writes, fs := fs } }, handleRead_withPast]
    exact ⟨List.prefix_append _ _, List.prefix_append _ _⟩
  | handleWrite writes =>
    obtain rfl := Option.some.inj h
    rw [← pastless_withPast { c with io := { c.io with writes := writes } }, withPast, handleWrite_mapIo (unseen_past _ _)]
    exact ⟨List.prefix_append _ _, List.prefix_append _ _⟩

theorem calls_grow {c d : Ctx} {cs : List Call} (h : Machine.run call c cs = some d) :
    c.io.sent <+: d.io.sent ∧ c.io.requests <+: d.io.requests := by
  induction cs generalizing c with
  | nil =>
    obtain rfl := Option.some.inj h
    exact ⟨List.prefix_rfl, List.prefix_rfl⟩
  | cons o cs ih =>
    obtain ⟨e, he, hrest⟩ := Machine.run_cons.1 h
    obtain ⟨hsent, hrequests⟩ := call_grows he
    obtain ⟨hsent', hrequests'⟩ := ih hrest
    exact ⟨hsent.trans hsent', hrequests.trans hrequests'⟩

/-! ## The session -/

/-- a call is a part of the session -/
theorem call_session {c d : Ctx} {o : Call} (h : c.call o = some d) {s : Session} (hs : s.ctx = c)
    (hr : s.reading = false) : ∃ t, Machine.Reaches Session.step s t ∧ t.ctx = d ∧ t.reading = false := by
  subst hs
  cases o with
  | handleEvents =>
    have hstep : Session.step s .handleEvents = some { s with ctx := d } := by
      rw [Session.step, if_neg (by simp [hr]), ← Option.some.inj h]
    exact ⟨_, .head _ hstep (.refl _), rfl, hr⟩
  | handleRead reads writes fs =>
    simp only [call] at h
    split_ifs at h with he hfault
    obtain rfl := Option.some.inj h
    set u : Session := { s with
      ctx := { s.ctx with io := { s.ctx.io with reads := reads, writes := writes, fs := fs } }
      reading := true }
    have hcall : Session.step s (.handleRead reads writes fs) = some u := by
      rw [Session.step, if_neg (by simp [hr, he])]
    obtain ⟨k, t, hrun, htctx, htr⟩ := Session.run_handleRead (s := u) rfl (by simpa using hfault)
    exact ⟨t, .head _ hcall ⟨_, hrun⟩, htctx, htr⟩
  | handleWrite writes =>
    have hstep : Session.step s (.handleWrite writes) = some { s with ctx := d } := by
      rw [Session.step, if_neg (by simp [hr]), ← Option.some.inj h]
    exact ⟨_, .head _ hstep (.refl _), rfl, hr⟩

/-- **The calls are a session.** -/
theorem calls_session {c d : Ctx} {cs : List Call} (h : Machine.run call c cs = some d) {s : Session} (hs : s.ctx = c)
    (hr : s.reading = false) : ∃ t, Machine.Reaches Session.step s t ∧ t.ctx = d ∧ t.reading = false := by
  induction cs generalizing c s with
  | nil =>
    cases h
    exact ⟨s, .refl s, hs, hr⟩
  | cons o cs ih =>
    obtain ⟨e, he, hrest⟩ := Machine.run_cons.1 h
    obtain ⟨u, hreach, hu, hur⟩ := call_session he hs hr
    obtain ⟨t, hreach', ht, htr⟩ := ih hrest hu hur
    exact ⟨t, hreach.trans hreach', ht, htr⟩

/-- so that a connection between two calls is ready for the next -/
theorem calls_ready {fd : ℕ} {c : Ctx} {cs : List Call} (h : Machine.run call (fresh fd) cs = some c) :
    c.Ready ∧ c.io.fault = false := by
  obtain ⟨t, ⟨ops, hrun⟩, rfl, -⟩ := calls_session h (s := Session.accepted fd none []) rfl rfl
  have hok := Session.ok_run (Session.ok_accepted fd none []) hrun
  exact ⟨hok.ready, hok.fault⟩

end Ctx

end Glacier
