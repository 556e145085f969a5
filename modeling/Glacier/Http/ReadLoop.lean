/-
What one activation of handleRead leaves alone, and why its recursion ends.

`Kept` collects what the three stages never touch: the channel, the descriptor, the connection state, the timers and the
read script; and they never lengthen the buffer.
- `process_kept`: the stages keep it;
- `process_consumes`: a request that is finished from its request line on has removed at least one byte;
- `respond_ends`: the end of the activation keeps what handleWrite, reset and the last mask keep;
- `handleRead_eq`: handleRead satisfies its recursion.
-/
import Glacier.Http.Writen

namespace Glacier

open Cxx

/-! ## The parsers -/

namespace HttpData

/-- parseURI sets what the request line names and cuts the line from the buffer -/
theorem parseURI_frame (h : HttpData) :
    ∃ r b, h.parseURI.2 = { h with inBuffer := b }.setRequestLine r ∧ b.length ≤ h.inBuffer.length ∧
      (h.parseURI.1 ≠ .again → b.length < h.inBuffer.length) := by
  unfold parseURI
  split
  · exact ⟨h.requestLine, h.inBuffer, rfl, le_rfl, fun hc => absurd rfl hc⟩
  · rename_i pos hpos
    have hlt := find_byte_lt hpos
    have hcut : (h.inBuffer.drop (pos + 1)).length < h.inBuffer.length := by rw [List.length_drop]; omega
    exact ⟨_, _, rfl, hcut.le, fun _ => hcut⟩

/-- parseHeaders sets parse_state_ and headers_ and cuts the buffer at its front -/
theorem parseHeaders_frame (h : HttpData) :
    ∃ p m b, h.parseHeaders.2 = { h with inBuffer := b, parseState := p, headers := m } ∧
      b.length ≤ h.inBuffer.length := by
  have hdone := h.parseHeaders_cases
  generalize h.parseHeaders = r at hdone ⊢
  cases hdone with
  | error _ => exact ⟨_, _, _, rfl, le_rfl⟩
  | success _ _ => exact ⟨_, _, _, rfl, by rw [List.length_drop]; omega⟩
  | again _ _ => exact ⟨_, _, _, rfl, by rw [List.length_drop]; omega⟩

end HttpData

namespace Ctx

/-! ## One activation -/

/-- what the stages of handleRead keep; an error stays one -/
structure Kept (c d : Ctx) : Prop where
  error : c.http.error = true → d.http.error = true
  channel : d.http.channel = c.http.channel
  fd : d.http.fd = c.http.fd
  connstate : d.http.connstate = c.http.connstate
  timer : d.http.timer = c.http.timer
  timers : d.timers = c.timers
  reads : d.io.reads = c.io.reads
  shrinks : d.http.inBuffer.length ≤ c.http.inBuffer.length

theorem Kept.refl (c : Ctx) : Kept c c := ⟨id, rfl, rfl, rfl, rfl, rfl, rfl, le_rfl⟩

theorem Kept.trans {c d e : Ctx} (h1 : Kept c d) (h2 : Kept d e) : Kept c e where
  error := fun h => h2.error (h1.error h)
  channel := h2.channel.trans h1.channel
  fd := h2.fd.trans h1.fd
  connstate := h2.connstate.trans h1.connstate
  timer := h2.timer.trans h1.timer
  timers := h2.timers.trans h1.timers
  reads := h2.reads.trans h1.reads
  shrinks := h2.shrinks.trans h1.shrinks

theorem uriStage_kept (c : Ctx) : Kept c c.uriStage.1 := by
  unfold uriStage
  obtain ⟨r, b, heq, hle, -⟩ := c.http.parseURI_frame
  by_cases hs : c.http.state = .parseUri
  · rw [if_pos hs]
    rcases hp : c.http.parseURI with ⟨flag, h⟩
    rw [hp] at heq
    obtain rfl : h = _ := heq
    cases flag with
    | again => exact ⟨id, rfl, rfl, rfl, rfl, rfl, rfl, hle⟩
    | error => exact ⟨fun _ => rfl, rfl, rfl, rfl, rfl, rfl, rfl, Nat.zero_le _⟩
    | success => exact ⟨id, rfl, rfl, rfl, rfl, rfl, rfl, hle⟩
  · rw [if_neg hs]; exact Kept.refl c

theorem headerStage_kept (c : Ctx) : Kept c c.headerStage.1 := by
  unfold headerStage
  obtain ⟨p, m, b, heq, hle⟩ := c.http.parseHeaders_frame
  by_cases hs : c.http.state = .parseHeaders
  · rw [if_pos hs]
    rcases hp : c.http.parseHeaders with ⟨flag, h⟩
    rw [hp] at heq
    obtain rfl : h = _ := heq
    cases flag with
    | again => exact ⟨id, rfl, rfl, rfl, rfl, rfl, rfl, hle⟩
    | error => exact ⟨fun _ => rfl, rfl, rfl, rfl, rfl, rfl, rfl, hle⟩
    | success => exact ⟨id, rfl, rfl, rfl, rfl, rfl, rfl, hle⟩
  · rw [if_neg hs]; exact Kept.refl c

theorem analysisStage_kept (c : Ctx) : Kept c c.analysisStage := by
  unfold analysisStage
  obtain ⟨⟨keep, out, hhttp⟩, htimers, hreads, -⟩ := c.analysisRequest_frame
  by_cases hs : c.http.state = .analysis
  · rw [if_pos hs]
    rcases hp : c.analysisRequest with ⟨flag, d⟩
    rw [hp] at hhttp htimers hreads
    simp only at hhttp htimers hreads
    cases flag <;> exact ⟨by simp [hhttp], by simp [hhttp], by simp [hhttp], by simp [hhttp], by simp [hhttp], htimers,
      hreads, by simp [hhttp]⟩
  · rw [if_neg hs]; exact Kept.refl c

theorem process_kept (c : Ctx) : Kept c c.process := by
  unfold process
  have h1 := c.uriStage_kept
  rcases hu : c.uriStage with ⟨d, go⟩
  rw [hu] at h1
  cases go with
  | false => exact h1
  | true =>
    have h2 := d.headerStage_kept
    rcases hh : d.headerStage with ⟨e, go⟩
    rw [hh] at h2
    simp only [if_true, hh]
    cases go with
    | false => exact h1.trans h2
    | true => exact (h1.trans h2).trans e.analysisStage_kept

/-- a request that is finished from its request line on has removed at least one byte -/
theorem process_consumes (c : Ctx) (hs : c.http.state = .parseUri) (hf : c.process.http.state = .finish) :
    c.process.http.inBuffer.length < c.http.inBuffer.length := by
  unfold process uriStage at hf ⊢
  obtain ⟨r, b, heq, -, hlt⟩ := c.http.parseURI_frame
  rw [if_pos hs] at hf ⊢
  rcases hp : c.http.parseURI with ⟨flag, h⟩
  rw [hp] at heq hlt hf
  obtain rfl : h = _ := heq
  cases flag with
  | again =>
    have hc : c.http.state = .finish := hf
    rw [hs] at hc; cases hc
  | error =>
    have hc : c.http.state = .finish := hf
    rw [hs] at hc; cases hc
  | success =>
    have hcut : b.length < c.http.inBuffer.length := hlt (by simp)
    simp only [if_true]
    set d : Ctx := { c with http := { ({ c.http with inBuffer := b } : HttpData).setRequestLine r with
      state := .parseHeaders } }
    have h2 := d.headerStage_kept
    rcases hh : d.headerStage with ⟨e, go⟩
    rw [hh] at h2
    simp only
    cases go with
    | false => exact h2.shrinks.trans_lt hcut
    | true => exact (h2.trans e.analysisStage_kept).shrinks.trans_lt hcut

/-- readn moves bytes from the script to the buffer and loses none -/
theorem readLoop_bytes (rs : List ReadResult) (sum : ℕ) (buf : Bytes) :
    (readLoop rs sum buf).2.2.1.length + scriptBytes (readLoop rs sum buf).2.2.2 = buf.length + scriptBytes rs := by
  induction rs generalizing sum buf with
  | nil => rfl
  | cons r rs ih =>
    cases r with
    | intr => exact (ih sum buf).trans (by simp [scriptBytes])
    | again => simp [readLoop, scriptBytes]
    | fail => simp [readLoop, scriptBytes]
    | data bs =>
      cases bs with
      | nil => simp [readLoop, scriptBytes]
      | cons b bs =>
        rw [readLoop, ih]
        simp only [List.length_append, List.length_cons, scriptBytes, List.map_cons, List.sum_cons]
        omega

theorem readIn_pending (c : Ctx) : c.readIn.2.2.pending = c.pending := readLoop_bytes c.io.reads 0 c.http.inBuffer

/-- the ways in which the `do … while (false)` of handleRead ends -/
inductive Received (c : Ctx) : Ctx → Prop where
  /-- a closing connection drops its input -/
  | closing (h : c.http.connstate = .disconnecting) :
      Received c { c.readIn.2.2 with http := { c.readIn.2.2.http with inBuffer := [] } }
  | failed (h : c.http.connstate ≠ .disconnecting) : Received c c.readIn.2.2.badRequest
  /-- end of stream without a byte -/
  | eof (h : c.http.connstate ≠ .disconnecting) :
      Received c { c.readIn.2.2 with http := { c.readIn.2.2.http with connstate := .disconnecting } }
  /-- the last bytes before the end of stream -/
  | last (h : c.http.connstate ≠ .disconnecting) :
      Received c (process { c.readIn.2.2 with http := { c.readIn.2.2.http with connstate := .disconnecting } })
  | more (h : c.http.connstate ≠ .disconnecting) : Received c c.readIn.2.2.process

theorem receive_cases (c : Ctx) : Received c c.receive := by
  have hconn : c.readIn.2.2.http.connstate = c.http.connstate := rfl
  unfold receive
  rcases hr : c.readIn with ⟨cnt, zero, d⟩
  have hd : c.readIn.2.2 = d := by rw [hr]
  rw [← hd]
  dsimp only
  by_cases hc : c.readIn.2.2.http.connstate = .disconnecting
  · rw [if_pos hc]; exact .closing hc
  · rw [if_neg hc]
    cases cnt with
    | none => exact .failed hc
    | some cnt =>
      cases zero with
      | false => exact .more hc
      | true =>
        by_cases h0 : cnt = 0
        · simp only [h0, if_true]; exact .eof hc
        · simp only [h0, if_true, if_false]; exact .last hc

theorem receive_pending (c : Ctx) :
    c.receive.pending ≤ c.pending ∧
      (c.http.state = .parseUri → c.receive.http.state = .finish → c.receive.pending < c.pending) := by
  have hproc : ∀ d : Ctx, d.process.pending ≤ d.pending := by
    intro d
    have hkept := d.process_kept
    have hshrinks := hkept.shrinks
    unfold pending
    rw [hkept.reads]; omega
  have hcons : ∀ d : Ctx, d.http.state = .parseUri → d.process.http.state = .finish → d.process.pending < d.pending := by
    intro d hs hf
    have hlt := process_consumes d hs hf
    unfold pending
    rw [d.process_kept.reads]; omega
  have hopen : c.http.state = .parseUri → c.http.state = .finish → False := by
    intro hs hf
    rw [hs] at hf; cases hf
  have hread := c.readIn_pending
  have hcases := c.receive_cases
  generalize c.receive = d at hcases ⊢
  cases hcases with
  | closing h =>
    refine ⟨?_, fun hs hf => (hopen hs hf).elim⟩
    rw [← hread]; simp only [pending, List.length_nil]; omega
  | failed h => exact ⟨hread.le, fun hs hf => (hopen hs hf).elim⟩
  | eof h => exact ⟨hread.le, fun hs hf => (hopen hs hf).elim⟩
  | last h => exact ⟨(hproc _).trans hread.le, fun hs hf => (hcons _ (by exact hs) hf).trans_le hread.le⟩
  | more h => exact ⟨(hproc _).trans hread.le, fun hs hf => (hcons _ (by exact hs) hf).trans_le hread.le⟩

/-- what handleWrite does to a connection: it may set EPOLLOUT and shorten outBuffer_; unless there is an error, what stays
in outBuffer_ is asked for -/
def Wrote (c d : Ctx) : Prop :=
  ∃ ev err out, d.http = { c.http with channel := c.http.channel.setEvents ev, error := err, outBuffer := out } ∧
    d.timers = c.timers ∧ d.io.reads = c.io.reads ∧ d.io.requests = c.io.requests ∧
    (err = false → c.http.error = false ∧ (ev = c.http.channel.events ∨ ev = c.http.channel.events ||| EPOLLOUT) ∧
      (c.http.connstate ≠ .disconnected → out ≠ [] → ev = c.http.channel.events ||| EPOLLOUT))

/-- a connection that writes nothing, because it has an error or is closed or has nothing to write -/
theorem Wrote.refl {c : Ctx} (h : c.http.error = false → c.http.connstate ≠ .disconnected → c.http.outBuffer = []) :
    Wrote c c := by
  refine ⟨c.http.channel.events, c.http.error, c.http.outBuffer, rfl, rfl, rfl, rfl, ?_⟩
  intro he
  exact ⟨he, Or.inl rfl, fun hd hout => absurd (h he hd) hout⟩

theorem handleWrite_frame (c : Ctx) : Wrote c c.handleWrite := by
  unfold handleWrite
  by_cases hc : c.http.error = false ∧ c.http.connstate ≠ .disconnected
  · rw [if_pos hc]
    rcases c.writeOut_cases with hw | ⟨n, out, hw, -⟩
    · rw [hw]
      dsimp only
      split_ifs
      · exact ⟨_, true, _, rfl, rfl, rfl, rfl, by simp⟩
      · exact ⟨_, true, _, rfl, rfl, rfl, rfl, by simp⟩
    · rw [hw]
      dsimp only
      split_ifs with hout
      · exact ⟨_, c.http.error, out, rfl, rfl, rfl, rfl, fun he => ⟨he, Or.inr rfl, fun _ _ => rfl⟩⟩
      · exact ⟨c.http.channel.events, c.http.error, out, rfl, rfl, rfl, rfl,
          fun he => ⟨he, Or.inl rfl, fun _ h => absurd h hout⟩⟩
  · rw [if_neg hc]
    apply Wrote.refl
    intro he hd
    exact absurd ⟨he, hd⟩ hc

/-- the connection before the test of the state in respond -/
def flush (c : Ctx) : Ctx := if c.http.outBuffer ≠ [] then c.handleWrite else c

theorem flush_frame (c : Ctx) : Wrote c c.flush := by
  unfold flush
  split_ifs with hout
  · exact c.handleWrite_frame
  · exact .refl fun _ _ => not_not.1 hout

theorem respond_failed {c : Ctx} (h : c.http.error = true) : c.respond = (c, false) := by rw [respond, if_pos h]

/-- the end of handleRead on a connection without an error -/
theorem respond_open {c : Ctx} (h : c.http.error = false) :
    c.respond =
      if c.flush.http.error = false ∧ c.flush.http.state = .finish then
        (c.flush.reset, decide (c.flush.reset.http.inBuffer ≠ [] ∧ c.flush.reset.http.connstate ≠ .disconnecting))
      else if c.flush.http.error = false ∧ c.flush.http.connstate = .disconnected then (c.flush.orEvents EPOLLIN, false)
      else (c.flush, false) := by
  rw [respond, if_neg (by rw [h]; exact Bool.false_ne_true)]
  rfl

/-- the ways in which the end of handleRead goes -/
inductive Responded (c : Ctx) : Ctx × Bool → Prop where
  | failed (h : c.http.error = true) : Responded c (c, false)
  /-- a finished request; handleRead calls itself if bytes are left -/
  | finished (h : c.http.error = false) (he : c.flush.http.error = false) (hs : c.http.state = .finish) (again : Bool)
      (hleft : again = true → c.http.inBuffer ≠ []) : Responded c (c.flush.reset, again)
  /-- a write failed, or more input is needed -/
  | waiting (h : c.http.error = false) : Responded c (c.flush, false)
  | closed (h : c.http.error = false) (hd : c.http.connstate = .disconnected) :
      Responded c (c.flush.orEvents EPOLLIN, false)

theorem respond_cases (c : Ctx) : Responded c c.respond := by
  obtain ⟨ev, err, out, hhttp, -⟩ := c.flush_frame
  have hstate : c.flush.http.state = c.http.state := by rw [hhttp]
  have hconn : c.flush.http.connstate = c.http.connstate := by rw [hhttp]
  cases herr : c.http.error with
  | true => rw [respond_failed herr]; exact .failed herr
  | false =>
    rw [respond_open herr]
    by_cases hf : c.flush.http.error = false ∧ c.flush.http.state = .finish
    · rw [if_pos hf]
      have hbuf : c.flush.reset.http.inBuffer = c.http.inBuffer :=
        calc c.flush.reset.http.inBuffer = c.flush.http.inBuffer := rfl
          _ = c.http.inBuffer := by rw [hhttp]
      apply Responded.finished herr hf.1 (hstate.symm.trans hf.2)
      intro ha
      rw [hbuf] at ha
      exact (of_decide_eq_true ha).1
    · rw [if_neg hf]
      by_cases hd : c.flush.http.error = false ∧ c.flush.http.connstate = .disconnected
      · rw [if_pos hd]; exact .closed herr (hconn.symm.trans hd.2)
      · rw [if_neg hd]; exact .waiting herr

/-- **The end of handleRead keeps what handleWrite, reset and the last mask keep.** -/
theorem respond_ends {P : Ctx → Prop} (c : Ctx) (hself : P c) (hflush : P c.flush) (hreset : ∀ d, P d → P d.reset)
    (hevents : ∀ d ev, P d → P (d.orEvents ev)) : P c.respond.1 := by
  have hcases := c.respond_cases
  generalize c.respond = r at hcases ⊢
  cases hcases with
  | failed _ => exact hself
  | finished _ _ _ _ _ => exact hreset _ hflush
  | waiting _ => exact hflush
  | closed _ _ => exact hevents _ _ hflush

theorem respond_pending (c : Ctx) : c.respond.1.pending = c.pending := by
  obtain ⟨ev, err, out, hhttp, -, hreads, -⟩ := c.flush_frame
  have hflush : c.flush.http.inBuffer.length + scriptBytes c.flush.io.reads = c.pending := by rw [hhttp, hreads]; rfl
  exact c.respond_ends (P := fun d => d.pending = c.pending) rfl hflush (fun _ => id) (fun _ _ => id)

theorem respond_reads (c : Ctx) : c.respond.1.io.reads = c.io.reads := by
  obtain ⟨-, -, -, -, -, hreads, -⟩ := c.flush_frame
  exact c.respond_ends (P := fun d => d.io.reads = c.io.reads) rfl hreads (fun _ => id) (fun _ _ => id)

theorem respond_again (c : Ctx) (h : c.respond.2 = true) :
    c.http.state = .finish ∧ c.respond.1.http.state = .parseUri := by
  have hcases := c.respond_cases
  generalize c.respond = r at hcases h ⊢
  cases hcases with
  | failed _ => cases h
  | waiting _ => cases h
  | closed _ _ => cases h
  | finished _ _ hs _ _ => exact ⟨hs, rfl⟩

/-! ## The recursion -/

/-- an activation that calls itself again starts the next request; from a request line on it has consumed something -/
theorem handleReadOnce_again (c : Ctx) (h : c.handleReadOnce.2 = true) :
    c.handleReadOnce.1.http.state = .parseUri ∧ c.handleReadOnce.1.pending ≤ c.pending ∧
      (c.http.state = .parseUri → c.handleReadOnce.1.pending < c.pending) := by
  obtain ⟨hs, hs'⟩ := c.receive.respond_again h
  obtain ⟨hle, hlt⟩ := c.receive_pending
  have hp : c.handleReadOnce.1.pending = c.receive.pending := c.receive.respond_pending
  refine ⟨hs', ?_, ?_⟩
  · rw [hp]; exact hle
  · intro hu
    rw [hp]; exact hlt hu hs

/-- fuel beyond the pending bytes changes nothing -/
theorem handleReadLoop_eq (n m : ℕ) (c : Ctx) (hs : c.http.state = .parseUri) (hn : c.pending < n)
    (hm : c.pending < m) : handleReadLoop n c = handleReadLoop m c := by
  induction n generalizing c m with
  | zero => omega
  | succ n ih =>
    cases m with
    | zero => omega
    | succ m =>
      unfold handleReadLoop
      rcases ho : c.handleReadOnce with ⟨d, again⟩
      cases again with
      | false => rfl
      | true =>
        obtain ⟨hs', -, hlt⟩ := c.handleReadOnce_again (by rw [ho])
        rw [ho] at hs' hlt
        have hlt : d.pending < c.pending := hlt hs
        simp only [if_true]
        exact ih m d hs' (by omega) (by omega)

/-- what each activation keeps, handleRead keeps -/
theorem handleRead_rel {R : Ctx → Ctx → Prop} (hrefl : ∀ c, R c c) (htrans : ∀ c d e, R c d → R d e → R c e)
    (honce : ∀ c, R c c.handleReadOnce.1) (c : Ctx) : R c c.handleRead := by
  unfold handleRead
  generalize c.pending + 2 = fuel
  induction fuel generalizing c with
  | zero => exact hrefl c
  | succ fuel ih =>
    have hstep := honce c
    unfold handleReadLoop
    rcases ho : c.handleReadOnce with ⟨d, again⟩
    rw [ho] at hstep
    cases again with
    | false => exact hstep
    | true => exact htrans _ _ _ hstep (ih d)

/-- no byte is in the buffer that was not there or delivered before -/
theorem handleRead_pending (c : Ctx) : c.handleRead.pending ≤ c.pending := by
  refine handleRead_rel (R := fun c d => d.pending ≤ c.pending) (fun _ => le_rfl) (fun c d e h1 h2 => h2.trans h1) ?_ c
  intro c
  calc c.handleReadOnce.1.pending = c.receive.pending := c.receive.respond_pending
    _ ≤ c.pending := c.receive_pending.1

/-- **handleRead is its recursion.** -/
theorem handleRead_eq (c : Ctx) :
    c.handleRead = if c.handleReadOnce.2 then c.handleReadOnce.1.handleRead else c.handleReadOnce.1 := by
  conv_lhs => unfold handleRead handleReadLoop
  rcases ho : c.handleReadOnce with ⟨d, again⟩
  cases again with
  | false => rfl
  | true =>
    obtain ⟨hs', hle, -⟩ := c.handleReadOnce_again (by rw [ho])
    rw [ho] at hs' hle
    have hle : d.pending ≤ c.pending := hle
    simp only [if_true]
    exact handleReadLoop_eq _ _ d hs' (by omega) (by omega)

end Ctx

end Glacier
