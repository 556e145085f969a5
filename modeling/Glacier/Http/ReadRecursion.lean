/-
The recursion of handleRead.

handleRead calls itself when it has finished a request and bytes are left. `again` is this call, as a step from the
connection with which an activation begins to the one with which the next begins. Each activation reads on where the last
one has stopped; the results of its write calls and the files are a `World` of its own.

- `Waits`: where an open connection stands between two activations. In PARSE_HEADERS the loop of parseHeaders has not
  reached END_LF, so that it has to take a byte before it can succeed;
- `process_finished`: from there the stages go on waiting, or finish a request and remove at least one byte;
- `handleReadOnce_completes`: an activation that calls handleRead again has done the latter;
- `bounded`: handleRead ends, after at most one call for each byte buffered or delivered.
-/
import Glacier.Http.Session
import Glacier.Http.HeaderScan

namespace Glacier

open Cxx HttpData

/-! ## The parsers -/

namespace HttpData

/-- An open connection waits for a request line, for more of the header fields, or, after a POST request, for nothing. -/
def Waits (h : HttpData) : Prop :=
  h.error = false → h.state = .parseUri ∨ (h.state = .parseHeaders ∧ h.parseState ≠ .endLf) ∨ h.state = .recvBody

theorem Waits.of_error {h : HttpData} (he : h.error = true) : h.Waits := by
  intro hc
  rw [he] at hc; cases hc

/-- parseURI waits, or removes bytes from the front of the buffer -/
theorem parseURI_removes (h : HttpData) :
    h.parseURI = (.again, h) ∨ ∃ flag r bytes rest, (flag = .success ∨ flag = .error) ∧ bytes ≠ [] ∧
      h.inBuffer = bytes ++ rest ∧ h.parseURI = (flag, { h with inBuffer := rest }.setRequestLine r) := by
  unfold parseURI
  split
  · exact Or.inl rfl
  · rename_i pos hpos
    refine Or.inr ⟨_, _, h.inBuffer.take (pos + 1), h.inBuffer.drop (pos + 1), parseRequestLine_flag _ _, ?_,
      (List.take_append_drop _ _).symm, rfl⟩
    have hlt := find_byte_lt hpos
    apply List.ne_nil_of_length_pos
    rw [List.length_take]; omega

/-- the loop reaches END_LF behind a character only -/
theorem scan_endLf_take {str : Bytes} {p : ParseState} {m : Headers} {s : Scan} {i : ℕ} (hp : p ≠ .endLf)
    (h : scan str str 0 (.start p m) = .ok (s, i)) (hs : s.parseState = .endLf) : str.take i ≠ [] := by
  have hstep : ∀ i c rest s t, str.drop i = c :: rest → (s.parseState = .endLf → str.take i ≠ []) →
      Moved str c i s t → t.parseState = .endLf → str.take (i + 1) ≠ [] := by
    intro i c rest s t hdrop _ _ _ hnil
    rcases List.take_eq_nil_iff.1 hnil with hc | hc
    · cases hc
    · rw [hc, List.drop_nil] at hdrop; cases hdrop
  exact scan_inv hstep List.drop_zero (fun hc => absurd hc hp) h hs

/-- parseHeaders waits short of END_LF -/
theorem parseHeaders_again {h h' : HttpData} (hp : h.parseHeaders = (.again, h')) : h'.parseState ≠ .endLf := by
  have hdone := h.parseHeaders_cases
  rw [hp] at hdone
  cases hdone with
  | again _ hend => exact hend

/-- when it succeeds it removes what it has read, at least one byte if it had not reached END_LF before -/
theorem parseHeaders_removes {h h' : HttpData} (hp : h.parseHeaders = (.success, h')) :
    ∃ bytes, h.inBuffer = bytes ++ h'.inBuffer ∧ (h.parseState ≠ .endLf → bytes ≠ []) := by
  have hdone := h.parseHeaders_cases
  rw [hp] at hdone
  cases hdone with
  | @success s i hscan hend =>
    refine ⟨h.inBuffer.take i, (List.take_append_drop _ _).symm, ?_⟩
    intro hstate
    exact scan_endLf_take hstate hscan hend

end HttpData

namespace Ctx

/-! ## The stages -/

/-- a request is finished: parseHeaders has accepted it, analysisRequest has answered it, and the parsers have removed
`bytes` from the front of the buffer -/
structure Finished (c d : Ctx) (bytes : Bytes) : Prop where
  state : d.http.state = .finish
  request : ∃ r, d.io.requests = c.io.requests ++ [r]
  removed : c.http.inBuffer = bytes ++ d.http.inBuffer

/-- analysisRequest fails, or finishes the request and leaves the rest of the buffer -/
theorem analysisStage_finished {c : Ctx} (hs : c.http.state = .analysis) (he : c.analysisStage.http.error = false) :
    c.analysisStage.http.state = .finish ∧ c.analysisStage.http.inBuffer = c.http.inBuffer := by
  obtain ⟨⟨keep, out, hhttp⟩, -⟩ := c.analysisRequest_frame
  unfold analysisStage at he ⊢
  rw [if_pos hs] at he ⊢
  rcases hp : c.analysisRequest with ⟨flag, d⟩
  rw [hp] at hhttp he
  cases flag with
  | error => cases he
  | success =>
    refine ⟨rfl, ?_⟩
    calc d.http.inBuffer = c.http.inBuffer := by rw [hhttp]

/-- the stages on a connection in PARSE_HEADERS -/
theorem process_headers_finished {c : Ctx} (hs : c.http.state = .parseHeaders) :
    c.process.http.Waits ∨
      ∃ bytes, Finished c c.process bytes ∧ (c.http.parseState ≠ .endLf → bytes ≠ []) := by
  rw [process_headers hs]
  have hdone := headerStage_cases hs
  generalize c.headerStage = x at hdone ⊢
  cases hdone with
  | @again p m b hp => exact Or.inl fun _ => Or.inr (Or.inl ⟨hs, parseHeaders_again hp⟩)
  | reject _ => exact Or.inl (.of_error rfl)
  | @accept p m b hp =>
    obtain ⟨bytes, hbuf, hne⟩ := parseHeaders_removes hp
    simp only [if_true]
    by_cases hpost : c.http.method = .post
    · -- the body is not received
      simp only [hpost, if_true]
      rw [analysisStage_recvBody rfl]
      exact Or.inl fun _ => Or.inr (Or.inr rfl)
    · simp only [if_neg hpost]
      set d : Ctx := logRequest { c.scanned p m b with http := { (c.scanned p m b).http with state := .analysis } }
      cases he : d.analysisStage.http.error with
      | true => exact Or.inl (.of_error he)
      | false =>
        obtain ⟨hstate, hkeep⟩ := analysisStage_finished (c := d) rfl he
        refine Or.inr ⟨bytes, ⟨hstate, ⟨_, d.analysisStage_requests⟩, ?_⟩, hne⟩
        calc c.http.inBuffer = bytes ++ b := hbuf
          _ = bytes ++ d.analysisStage.http.inBuffer := by rw [hkeep]; rfl

/-- **The stages go on waiting, or finish a request**, and then they have removed at least one byte. -/
theorem process_finished {c : Ctx} (h : c.http.Waits) :
    c.process.http.Waits ∨ ∃ bytes, bytes ≠ [] ∧ Finished c c.process bytes := by
  cases he : c.http.error with
  | true => exact Or.inl (.of_error (c.process_kept.error he))
  | false =>
    rcases h he with hs | ⟨hs, hp⟩ | hs
    · rcases c.http.parseURI_removes with hp | ⟨flag, r, bytes, rest, rfl | rfl, hne, hbuf, hp⟩
      · have hstage : c.uriStage = (c, false) := by rw [uriStage, if_pos hs, hp]
        rw [process_uri_break hstage]
        exact Or.inl h
      · have hstage : c.uriStage = (c.accepted r rest, true) := by rw [uriStage, if_pos hs, hp]; rfl
        have hproc : c.process = (c.accepted r rest).process := by
          simp only [process, hstage, uriStage_skip (c := c.accepted r rest) rfl]
        rw [hproc]
        refine (process_headers_finished (c := c.accepted r rest) rfl).imp id ?_
        rintro ⟨more, hfin, -⟩
        refine ⟨bytes ++ more, by simp [hne], hfin.state, hfin.request, ?_⟩
        calc c.http.inBuffer = bytes ++ rest := hbuf
          _ = bytes ++ (more ++ (c.accepted r rest).process.http.inBuffer) := by rw [← hfin.removed]; rfl
          _ = bytes ++ more ++ (c.accepted r rest).process.http.inBuffer := (List.append_assoc _ _ _).symm
      · have hstage : c.uriStage = (c.rejected r, false) := by rw [uriStage, if_pos hs, hp]; rfl
        rw [process_uri_break hstage]
        exact Or.inl (.of_error rfl)
    · refine (process_headers_finished hs).imp id ?_
      rintro ⟨bytes, hfin, hne⟩
      exact ⟨bytes, hne hp, hfin⟩
    · rw [process_recvBody hs]
      exact Or.inl h

/-! ## One activation -/

/-- what an activation does before it calls handleRead again: it finishes a request, and leaves less in the buffer than
readn did -/
structure Completes (c : Ctx) : Prop where
  error : c.receive.http.error = false
  finished : ∃ bytes, bytes ≠ [] ∧ Finished c.readIn.2.2 c.receive bytes
  buffer : c.handleReadOnce.1.http.inBuffer = c.receive.http.inBuffer

theorem receive_finished {c : Ctx} (h : c.http.Waits) :
    c.receive.http.Waits ∨ ∃ bytes, bytes ≠ [] ∧ Finished c.readIn.2.2 c.receive bytes := by
  have hcases := c.receive_cases
  generalize c.receive = d at hcases ⊢
  cases hcases with
  | closing _ => exact Or.inl h
  | failed _ => exact Or.inl (.of_error rfl)
  | eof _ => exact Or.inl h
  | last _ =>
    refine (process_finished (by exact h)).imp id ?_
    rintro ⟨bytes, hne, hfin⟩
    exact ⟨bytes, hne, hfin.state, hfin.request, hfin.removed⟩
  | more _ => exact process_finished h

/-- a finished request is reset -/
theorem respond_waits {c : Ctx} (h : c.http.Waits ∨ c.http.state = .finish) : c.respond.1.http.Waits := by
  obtain ⟨ev, err, out, hhttp, -, -, -, himp⟩ := c.flush_frame
  have hflush : ¬ (c.flush.http.error = false ∧ c.flush.http.state = .finish) → c.flush.http.Waits := by
    intro hopen he
    rcases h with hw | hs
    · have hstate := hw (himp (by rw [hhttp] at he; exact he)).1
      rw [hhttp]; exact hstate
    · refine absurd ⟨he, ?_⟩ hopen
      rw [hhttp]; exact hs
  cases herr : c.http.error with
  | true => rw [respond_failed herr]; exact .of_error herr
  | false =>
    rw [respond_open herr]
    split_ifs with hf hd
    · exact fun _ => Or.inl rfl
    · exact hflush hf
    · exact hflush hf

theorem handleReadOnce_waits {c : Ctx} (h : c.http.Waits) : c.handleReadOnce.1.http.Waits := by
  apply respond_waits
  refine (receive_finished h).imp id ?_
  rintro ⟨bytes, -, hfin⟩
  exact hfin.state

/-- **A recursive call comes after a finished request.** -/
theorem handleReadOnce_completes {c : Ctx} (h : c.http.Waits) (hagain : c.handleReadOnce.2 = true) : Completes c := by
  obtain ⟨ev, err, out, hhttp, -⟩ := c.receive.flush_frame
  have hcases : Responded c.receive c.handleReadOnce := c.receive.respond_cases
  generalize hr : c.handleReadOnce = r at hcases hagain
  cases hcases with
  | failed _ => cases hagain
  | waiting _ => cases hagain
  | closed _ _ => cases hagain
  | finished he _ hs _ _ =>
    refine ⟨he, ?_, ?_⟩
    · refine (receive_finished h).resolve_left fun hw => ?_
      rcases hw he with hc | ⟨hc, -⟩ | hc <;> rw [hs] at hc <;> cases hc
    · rw [hr]
      calc c.receive.flush.reset.http.inBuffer = c.receive.flush.http.inBuffer := rfl
        _ = c.receive.http.inBuffer := by rw [hhttp]

theorem receive_reads (c : Ctx) : c.receive.io.reads = c.readIn.2.2.io.reads := by
  have hcases := c.receive_cases
  generalize c.receive = d at hcases ⊢
  cases hcases with
  | closing _ | failed _ | eof _ => rfl
  | last _ => exact (process_kept _).reads
  | more _ => exact (process_kept _).reads

/-- what such an activation has removed is no longer pending -/
theorem Completes.pending_lt {c : Ctx} (h : Completes c) : c.handleReadOnce.1.pending < c.pending := by
  obtain ⟨bytes, hne, hfin⟩ := h.finished
  have hbuf : c.readIn.2.2.http.inBuffer = bytes ++ c.handleReadOnce.1.http.inBuffer := by rw [h.buffer]; exact hfin.removed
  have hreads : c.handleReadOnce.1.io.reads = c.readIn.2.2.io.reads := c.receive.respond_reads.trans c.receive_reads
  have hpos := List.length_pos_of_ne_nil hne
  rw [← c.readIn_pending]
  unfold pending
  rw [hreads, hbuf, List.length_append]; omega

theorem handleRead_waits {c : Ctx} (h : c.http.Waits) : c.handleRead.http.Waits :=
  handleRead_rel (R := fun c d => c.http.Waits → d.http.Waits) (fun _ => id) (fun _ _ _ h1 h2 => h2 ∘ h1)
    (fun _ => handleReadOnce_waits) c h

theorem handleWrite_waits {c : Ctx} (h : c.http.Waits) : c.handleWrite.http.Waits := by
  obtain ⟨ev, err, out, hhttp, -, -, -, himp⟩ := c.handleWrite_frame
  intro he
  have hstate := h (himp (by rw [hhttp] at he; exact he)).1
  rw [hhttp]; exact hstate

/-! ## The recursion -/

/-- what an activation meets besides the bytes it reads: the results of its write calls, and the files -/
structure World where
  writes : List WriteResult
  fs : FileSystem

def within (c : Ctx) (w : World) : Ctx := { c with io := { c.io with writes := w.writes, fs := w.fs } }

/-- handleRead calls itself: from the connection with which an activation begins to the one with which the next begins -/
def again (c : Ctx) (w : World) : Option Ctx :=
  let (d, again) := c.handleReadOnce
  if again then some (d.within w) else none

theorem again_some {c d : Ctx} {w : World} (h : c.again w = some d) :
    c.handleReadOnce.2 = true ∧ d = c.handleReadOnce.1.within w := by
  unfold again at h
  dsimp only at h
  split_ifs at h with hagain
  exact ⟨hagain, (Option.some.inj h).symm⟩

theorem again_none {c : Ctx} {w : World} (h : c.again w = none) : c.handleReadOnce.2 = false := by
  unfold again at h
  dsimp only at h
  split_ifs at h with hagain
  simpa using hagain

/-- the call goes on with a connection that waits, and with fewer bytes -/
theorem again_step (c : Ctx) (w : World) (d : Ctx) (h : c.http.Waits) (hd : c.again w = some d) :
    d.http.Waits ∧ d.pending < c.pending := by
  obtain ⟨hagain, rfl⟩ := again_some hd
  exact ⟨handleReadOnce_waits h, (handleReadOnce_completes h hagain).pending_lt⟩

/-- `handleRead` is what the last activation returns -/
theorem handleRead_again (n : ℕ) : ∀ c : Ctx, c.http.Waits → c.pending < n →
    ∃ calls d, Machine.run again c calls = some d ∧ d.handleReadOnce = (c.handleRead, false) := by
  induction n with
  | zero =>
    intro c _ hlt
    exact absurd hlt (Nat.not_lt_zero _)
  | succ n ih =>
    intro c h hlt
    have heq := c.handleRead_eq
    cases hagain : c.handleReadOnce.2 with
    | false =>
      rw [hagain] at heq
      refine ⟨[], c, rfl, ?_⟩
      exact Prod.ext heq.symm hagain
    | true =>
      rw [hagain] at heq
      set w : World := ⟨c.handleReadOnce.1.io.writes, c.handleReadOnce.1.io.fs⟩
      have hcall : c.again w = some c.handleReadOnce.1 := by
        unfold again
        dsimp only
        rw [if_pos hagain]; rfl
      obtain ⟨hwaits, hdec⟩ := again_step c w _ h hcall
      obtain ⟨calls, d, hrun, hd⟩ := ih c.handleReadOnce.1 hwaits (by omega)
      refine ⟨w :: calls, d, Machine.run_cons.2 ⟨_, hcall, hrun⟩, ?_⟩
      rw [heq]; exact hd

/-- The recursion that begins with the activation `a`. `calls` are nested calls of handleRead, one in the other. -/
structure Bounded (a : Ctx) : Prop where
  /-- handleRead returns, whatever world each activation meets -/
  returns : ∀ world : ℕ → World, ∃ n d, Machine.run again a ((List.range n).map world) = some d ∧
    d.handleReadOnce.2 = false
  /-- with the result that `handleRead` computes -/
  result : ∃ calls d, Machine.run again a calls = some d ∧ d.handleReadOnce = (a.handleRead, false)
  /-- an activation calls handleRead after a request that it has finished -/
  completes : ∀ calls d w e, Machine.run again a calls = some d → d.again w = some e → Completes d
  /-- the calls are at most as many as the bytes buffered and those delivered to the activations -/
  calls : ∀ calls d, Machine.run again a calls = some d →
    calls.length ≤ a.http.inBuffer.length + (scriptBytes a.io.reads - scriptBytes d.io.reads)

/-- **The recursion is bounded by the input.** -/
theorem bounded {a : Ctx} (h : a.http.Waits) : Bounded a where
  returns := by
    intro world
    obtain ⟨n, d, hrun, hd⟩ := Machine.run_stops again_step h world
    exact ⟨n, d, hrun, again_none hd⟩
  result := handleRead_again _ a h (Nat.lt_succ_self _)
  completes := by
    intro calls d w e hrun he
    exact handleReadOnce_completes (Machine.run_rank again_step h hrun).1 (again_some he).1
  calls := by
    intro calls d hrun
    have hle := (Machine.run_rank again_step h hrun).2
    unfold pending at hle
    omega

end Ctx

end Glacier
