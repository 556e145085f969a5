/-
Chunk independence: one complete request, cut into chunks that arrive one per handleRead.

parse_state_ survives from one call of parseHeaders to the next, but the positions of its loop do not, and the buffer is
cut at the beginning of the line. So a cut is harmless in the request line, at its end and inside the first name, and
wherever parseURI rejects the request line. Any later cut shows.
- `deliver_early`, `deliver_last`: up to the end of the first name a chunk has the effect it has without the cuts;
- `taint_deliver`: behind the first ':' every cut rejects the request, or stores a name that it does not have, or leaves
  bytes in the buffer;
- `chunk_independent_iff`: the exact cuts that do not show.
-/
import Glacier.Http.Resume
import Glacier.Http.Stages

namespace Glacier

open Cxx HttpData

/-- the bytes that one handleRead finds on the socket, as its read(2) calls return them -/
structure Chunk where
  pieces : List Bytes
  nonempty : pieces ≠ []
  pieces_ne : ∀ p ∈ pieces, p ≠ []

def Chunk.bytes (d : Chunk) : Bytes := d.pieces.flatten

/-- the results of the read(2) calls: the bytes, then EAGAIN -/
def Chunk.script (d : Chunk) : List ReadResult := d.pieces.map .data ++ [.again]

def chunkBytes (ds : List Chunk) : Bytes := ds.flatMap Chunk.bytes

theorem Chunk.bytes_ne_nil (d : Chunk) : d.bytes ≠ [] := by
  obtain ⟨p, hp⟩ := List.exists_mem_of_ne_nil _ d.nonempty
  intro h
  exact d.pieces_ne p hp (List.flatten_eq_nil_iff.1 h p hp)

theorem chunkBytes_ne_nil {ds : List Chunk} (h : ds ≠ []) : chunkBytes ds ≠ [] := by
  obtain ⟨d, ds, rfl⟩ := List.exists_cons_of_ne_nil h
  rw [chunkBytes, List.flatMap_cons]
  simp [d.bytes_ne_nil]

/-- where the last chunk begins -/
def lastCut (ds : List Chunk) : ℕ := (chunkBytes ds.dropLast).length

/-- a request: its line, its header fields and the blank line -/
def requestBytes (line : Bytes) (fields : List Field) : Bytes := line ++ CR :: LF :: blockBytes fields

namespace Ctx

/-- handleRead for one chunk; after an error handleConn closes, and there are no more calls -/
def deliver (c : Ctx) (d : Chunk) : Ctx :=
  if c.http.error then c
  else { c with io := { c.io with reads := d.script } }.handleRead

/-- the results of a request agree: the accepted requests, the outcome, what parsing has set, and the bytes left -/
structure Same (c d : Ctx) : Prop where
  requests : c.io.requests = d.io.requests
  error : c.http.error = d.http.error
  method : c.http.method = d.http.method
  version : c.http.version = d.http.version
  filename : c.http.filename = d.http.filename
  headers : c.http.headers = d.http.headers
  inBuffer : c.http.inBuffer = d.http.inBuffer

/-- a connection that has neither received nor to send anything -/
structure New (c : Ctx) : Prop extends Idle c where
  inBuffer : c.http.inBuffer = []
  outBuffer : c.http.outBuffer = []

/-! ## One delivery -/

/-- the connection after readn -/
def buffered (c : Ctx) (b : Bytes) : Ctx :=
  { c with http := { c.http with inBuffer := c.http.inBuffer ++ b }, io := { c.io with reads := [] } }

/-- the rest of handleRead after its stages -/
def after (c : Ctx) : Ctx := if c.respond.2 then c.respond.1.handleRead else c.respond.1

theorem readLoop_pieces (ps : List Bytes) (hps : ∀ p ∈ ps, p ≠ []) (sum : ℕ) (buf : Bytes) :
    readLoop (ps.map ReadResult.data ++ [.again]) sum buf =
      (some (sum + ps.flatten.length), false, buf ++ ps.flatten, []) := by
  induction ps generalizing sum buf with
  | nil => simp [readLoop]
  | cons p ps ih =>
    obtain ⟨hp, hrest⟩ := List.forall_mem_cons.1 hps
    cases p with
    | nil => exact absurd rfl hp
    | cons b bs =>
      rw [List.map_cons, List.cons_append, readLoop, ih hrest]
      simp only [List.flatten_cons, List.length_append, Nat.add_assoc, List.append_assoc]

theorem deliver_eq {c : Ctx} (he : c.http.error = false) (hconn : c.http.connstate = .connected) (d : Chunk) :
    c.deliver d = (c.buffered d.bytes).process.after := by
  rw [deliver, if_neg (by simp [he])]
  set c' : Ctx := { c with io := { c.io with reads := d.script } }
  have hread : c'.readIn = (some (0 + d.bytes.length), false, c.buffered d.bytes) := by
    simp only [readIn, readn, c', Chunk.script, readLoop_pieces d.pieces d.pieces_ne]
    rfl
  rw [handleRead_eq, handleReadOnce, receive_open hread hconn]
  rfl

theorem deliver_error {c : Ctx} (h : c.http.error = true) (d : Chunk) : c.deliver d = c := by
  rw [deliver, if_pos h]

theorem deliver_all_error {c : Ctx} (h : c.http.error = true) (ds : List Chunk) : ds.foldl deliver c = c := by
  induction ds with
  | nil => rfl
  | cons d ds ih => rw [List.foldl_cons, deliver_error h, ih]

theorem after_error {c : Ctx} (h : c.http.error = true) : c.after = c := by
  rw [after, respond_failed h]; rfl

/-- a connection that needs more data and has nothing to send -/
theorem after_waiting {c : Ctx} (he : c.http.error = false) (hout : c.http.outBuffer = [])
    (hs : c.http.state ≠ .finish) (hconn : c.http.connstate = .connected) : c.after = c := by
  have hr : c.respond = (c, false) := by
    simp [respond, he, hout, hs, hconn]
  rw [after, hr]; rfl

theorem after_requests (c : Ctx) : ∃ more, c.after.io.requests = c.io.requests ++ more := by
  unfold after
  split_ifs
  · obtain ⟨more, hmore⟩ := handleRead_requests c.respond.1
    exact ⟨more, hmore.trans (by rw [respond_requests])⟩
  · exact ⟨[], by rw [respond_requests, List.append_nil]⟩

/-- with an empty buffer handleRead does not call itself -/
theorem after_empty {c : Ctx} (h : c.http.inBuffer = []) : c.after.io.requests = c.io.requests := by
  have hstop : c.respond.2 = false := by
    have hcases := c.respond_cases
    generalize c.respond = r at hcases ⊢
    cases hcases with
    | failed _ => rfl
    | finished _ _ _ again hleft => cases again with
      | false => rfl
      | true => exact absurd h (hleft rfl)
    | waiting _ => rfl
    | closed _ _ => rfl
  rw [after, hstop]
  exact c.respond_requests

theorem after_pending (c : Ctx) : c.after.pending ≤ c.pending := by
  unfold after
  split_ifs
  · exact (handleRead_pending _).trans c.respond_pending.le
  · exact c.respond_pending.le

theorem deliver_requests (c : Ctx) (d : Chunk) : ∃ more, (c.deliver d).io.requests = c.io.requests ++ more := by
  unfold deliver
  split_ifs
  · exact ⟨[], (List.append_nil _).symm⟩
  · exact handleRead_requests _

/-- a delivery adds at most its bytes to the buffer -/
theorem deliver_length (c : Ctx) (d : Chunk) :
    (c.deliver d).http.inBuffer.length ≤ c.http.inBuffer.length + d.bytes.length := by
  unfold deliver
  split_ifs
  · omega
  · have hscript : scriptBytes d.script = d.bytes.length := by
      simp [scriptBytes, Chunk.script, Chunk.bytes, List.length_flatten, Function.comp_def]
    have h : _ ≤ c.http.inBuffer.length + scriptBytes d.script :=
      handleRead_pending { c with io := { c.io with reads := d.script } }
    rw [hscript, pending] at h
    omega

/-! ## Behind the request line -/

/-- the connection `c` once parseURI has accepted the line with the result `r`, in parse_state_ `p` on the buffer `b` -/
def inHeaders (c : Ctx) (r : RequestLine) (p : ParseState) (b : Bytes) : Ctx :=
  { c with
    http := { c.http with
      inBuffer := b
      method := r.method
      version := r.version
      filename := r.filename
      state := .parseHeaders
      parseState := p }
    io := { c.io with reads := [] } }

section Request

variable {c₀ : Ctx} {r : RequestLine} {line : Bytes}

/-- a prefix of a request with a CR in it goes beyond the request line -/
theorem split_at_cr {q e rest : Bytes} (hcr : CR ∉ line) (hq : q ++ e = line ++ CR :: rest) (h : CR ∈ q) :
    ∃ z, q = line ++ CR :: z ∧ rest = z ++ e := by
  rcases List.append_eq_append_iff.1 hq with ⟨a, ha, -⟩ | ⟨a, ha, hae⟩
  · exact absurd (ha ▸ List.mem_append_left _ h) hcr
  · cases a with
    | nil => rw [List.append_nil] at ha; exact absurd (ha ▸ h) hcr
    | cons x z =>
      obtain ⟨rfl, hze⟩ := List.cons.inj hae
      exact ⟨z, ha, hze⟩

/-- the buffer after the first bytes -/
theorem New.buffered (hnew : New c₀) (q : Bytes) : (c₀.buffered q).http.inBuffer = q :=
  calc (c₀.buffered q).http.inBuffer = c₀.http.inBuffer ++ q := rfl
    _ = q := by rw [hnew.inBuffer, List.nil_append]

/-- a chunk that leaves the request line incomplete -/
theorem deliver_line (hnew : New c₀) {q : Bytes} {d : Chunk} (h : CR ∉ q ++ d.bytes) :
    (c₀.buffered q).deliver d = c₀.buffered (q ++ d.bytes) := by
  have hbuf : (c₀.buffered q).buffered d.bytes = c₀.buffered (q ++ d.bytes) := by
    simp only [buffered, List.append_assoc]
  have hnone : CR ∉ (c₀.buffered (q ++ d.bytes)).http.inBuffer := by
    rw [hnew.buffered]; exact h
  rw [deliver_eq (c := c₀.buffered q) hnew.error hnew.connstate, hbuf,
    process_uri_break (uriStage_none (c := c₀.buffered _) hnew.state hnew.readpos hnone),
    after_waiting (c := c₀.buffered _) hnew.error hnew.outBuffer (by simp [buffered, hnew.state]) hnew.connstate]

/-- the first call that sees the end of the request line -/
theorem process_line (hnew : New c₀) (hcr : CR ∉ line) (hr : parseRequestLine line c₀.http.requestLine = (.success, r))
    (rest : Bytes) : (c₀.buffered (line ++ CR :: rest)).process = (c₀.inHeaders r .start rest).process := by
  rw [process_accept (c := c₀.buffered _) hnew.state hnew.readpos hcr (hnew.buffered _) hr]
  have hstart := hnew.parseState
  unfold inHeaders
  rw [← hstart]
  rfl

/-- a call that needs more data for the headers -/
theorem inHeaders_again (hnew : New c₀) {p : ParseState} {b : Bytes} {h : HttpData}
    (hp : (c₀.inHeaders r p b).http.parseHeaders = (.again, h)) :
    (c₀.inHeaders r p b).process.after = { c₀.inHeaders r p b with http := h } ∧ h.error = false ∧
      h.outBuffer = [] ∧ h.state = .parseHeaders ∧ h.connstate = .connected ∧
      h = { (c₀.inHeaders r p b).http with inBuffer := h.inBuffer, parseState := h.parseState, headers := h.headers } := by
  obtain ⟨p', m, b', heq, -⟩ := (c₀.inHeaders r p b).http.parseHeaders_frame
  rw [hp] at heq
  obtain rfl : h = _ := heq
  refine ⟨?_, hnew.error, hnew.outBuffer, rfl, hnew.connstate, rfl⟩
  rw [process_header_break (uriStage_skip rfl) (headerStage_again rfl hp)]
  exact after_waiting hnew.error hnew.outBuffer (by simp [inHeaders]) hnew.connstate

/-- a call that rejects the headers -/
theorem inHeaders_error {p : ParseState} {b : Bytes} {h : HttpData}
    (hp : (c₀.inHeaders r p b).http.parseHeaders = (.error, h)) :
    (c₀.inHeaders r p b).process.after = ({ c₀.inHeaders r p b with http := h } : Ctx).badRequest := by
  rw [process_header_break (uriStage_skip rfl) (headerStage_error rfl hp)]
  exact after_error rfl

/-- the states in which a harmless prefix of the request leaves the connection; `n` is the part of the first name that
such a prefix may reach -/
inductive Waiting (c₀ : Ctx) (r : RequestLine) (line n : Bytes) : Bytes → Ctx → Prop where
  | line {q : Bytes} (hcr : CR ∉ q) : Waiting c₀ r line n q (c₀.buffered q)
  | text {y : Bytes} (hy : y = [] ∨ y = [LF]) : Waiting c₀ r line n (line ++ CR :: y) (c₀.inHeaders r .start y)
  | name {k : Bytes} (hne : k ≠ []) (hk : k <+: n) : Waiting c₀ r line n (line ++ CR :: LF :: k) (c₀.inHeaders r .key k)

theorem Waiting.isOpen {n q : Bytes} {c : Ctx} (h : Waiting c₀ r line n q c) (hnew : New c₀) :
    c.http.error = false ∧ c.http.connstate = .connected := by
  cases h <;> exact ⟨hnew.error, hnew.connstate⟩

/-- a chunk that completes the request line, or follows it, is read as if there had been no cut; or the line feed of the
request line is gone and the state is KEY -/
theorem Waiting.resume {n q z : Bytes} {c : Ctx} {d : Chunk} (h : Waiting c₀ r line n q c) (hnew : New c₀) (hcr : CR ∉ line)
    (hr : parseRequestLine line c₀.http.requestLine = (.success, r)) (hz : q ++ d.bytes = line ++ CR :: z) :
    ∃ p b, c.deliver d = (c₀.inHeaders r p b).process.after ∧
      ((p = .start ∧ b = z) ∨ (p = .key ∧ z = LF :: b ∧ b ≠ [] ∧ n ≠ [])) := by
  obtain ⟨herr, hconn⟩ := h.isOpen hnew
  rw [deliver_eq herr hconn]
  cases h with
  | line _ =>
    refine ⟨.start, z, ?_, Or.inl ⟨rfl, rfl⟩⟩
    rw [← process_line hnew hcr hr, ← hz]
    simp only [buffered, List.append_assoc]
  | @text y _ =>
    refine ⟨.start, y ++ d.bytes, rfl, Or.inl ⟨rfl, ?_⟩⟩
    rw [List.append_assoc, List.append_cancel_left_eq] at hz
    exact (List.cons.inj hz).2
  | @name k hne hk =>
    refine ⟨.key, k ++ d.bytes, rfl, Or.inr ⟨rfl, ?_, by simp [hne], ?_⟩⟩
    · rw [List.append_assoc, List.append_cancel_left_eq] at hz
      exact (List.cons.inj hz).2.symm
    · rintro rfl
      exact hne (List.prefix_nil.1 hk)

/-- the same, where the chunk ends in the text `x` behind the request line -/
theorem Waiting.resume_text {n q x : Bytes} {c : Ctx} {d : Chunk} (h : Waiting c₀ r line n q c) (hnew : New c₀)
    (hcr : CR ∉ line) (hr : parseRequestLine line c₀.http.requestLine = (.success, r))
    (hz : q ++ d.bytes = line ++ CR :: LF :: x) :
    ∃ p b j, c.deliver d = (c₀.inHeaders r p b).process.after ∧ AtText (c₀.inHeaders r p b).http x j := by
  obtain ⟨p, b, hdeliver, hpb⟩ := h.resume hnew hcr hr hz
  rcases hpb with ⟨rfl, rfl⟩ | ⟨rfl, hb, -, -⟩
  · exact ⟨.start, _, 1, hdeliver, .start rfl rfl⟩
  · exact ⟨.key, b, 0, hdeliver, .key rfl (List.cons.inj hb).2.symm⟩

/-- **A harmless chunk.** -/
theorem deliver_early {n q : Bytes} {c : Ctx} {d : Chunk} (h : Waiting c₀ r line n q c) (hnew : New c₀) (hcr : CR ∉ line)
    (hr : parseRequestLine line c₀.http.requestLine = (.success, r)) (hn : ∀ x ∈ n, Plain x)
    (hpre : q ++ d.bytes <+: line ++ CR :: LF :: n) : Waiting c₀ r line n (q ++ d.bytes) (c.deliver d) := by
  by_cases hline : CR ∉ q ++ d.bytes
  · cases h with
    | text _ => exact absurd (by simp) hline
    | name _ _ => exact absurd (by simp) hline
    | line _ => rw [deliver_line hnew hline]; exact .line hline
  · obtain ⟨e, he⟩ := hpre
    obtain ⟨z, hz, hze⟩ := split_at_cr hcr he (not_not.1 hline)
    by_cases hy : z = [] ∨ z = [LF]
    · obtain ⟨p, b, hdeliver, hpb⟩ := h.resume hnew hcr hr hz
      have hstart : p = .start ∧ b = z := by
        rcases hpb with hpb | ⟨-, hzb, hb, -⟩
        · exact hpb
        · rcases hy with rfl | rfl
          · cases hzb
          · exact absurd (List.cons.inj hzb).2.symm hb
      obtain ⟨rfl, rfl⟩ := hstart
      rw [hdeliver, hz, (inHeaders_again hnew (parseHeaders_blank (h := (c₀.inHeaders r .start b).http) rfl hy)).1]
      exact .text hy
    · obtain ⟨k, rfl, hk, hkn⟩ : ∃ k, z = LF :: k ∧ k ≠ [] ∧ n = k ++ e := by
        cases z with
        | nil => exact absurd (Or.inl rfl) hy
        | cons x k =>
          obtain ⟨rfl, hkn⟩ := List.cons.inj hze
          exact ⟨k, rfl, fun hk => hy (Or.inr (by rw [hk])), hkn⟩
      have hplain : ∀ x ∈ k, Plain x := fun x hx => hn x (hkn ▸ List.mem_append_left _ hx)
      obtain ⟨p, b, j, hdeliver, hj⟩ := h.resume_text hnew hcr hr hz
      rw [hdeliver, hz, (inHeaders_again hnew (parseHeaders_name hplain hk hj)).1]
      exact .name hk ⟨e, hkn.symm⟩

/-- **The last chunk**, behind harmless ones. -/
theorem deliver_last {n q : Bytes} {c : Ctx} {d : Chunk} {fields : List Field} (h : Waiting c₀ r line n q c)
    (hnew : New c₀) (hcr : CR ∉ line) (hr : parseRequestLine line c₀.http.requestLine = (.success, r))
    (hok : ∀ f ∈ fields, FieldOk f) (hne : fields ≠ []) (hn : n = [] ∨ absorb fields ≠ none)
    (hq : q ++ d.bytes = requestBytes line fields) :
    c.deliver d = (c₀.buffered (requestBytes line fields)).process.after := by
  obtain ⟨p, b, hdeliver, hpb⟩ := h.resume hnew hcr hr hq
  rw [hdeliver, requestBytes, process_line hnew hcr hr]
  rcases hpb with ⟨rfl, rfl⟩ | ⟨rfl, hzb, -, hn'⟩
  · rfl
  · obtain rfl : blockBytes fields = b := (List.cons.inj hzb).2
    obtain ⟨⟨pairs, blank⟩, hab⟩ := Option.ne_none_iff_exists'.1 (hn.resolve_left hn')
    have hkey : AtText (c₀.inHeaders r .key (blockBytes fields)).http (blockBytes fields ++ []) 0 :=
      .key rfl (List.append_nil _).symm
    have hstart : AtText (c₀.inHeaders r .start (LF :: blockBytes fields)).http (blockBytes fields ++ []) 1 :=
      .start rfl (by rw [List.append_nil]; rfl)
    have hstage : (c₀.inHeaders r .key (blockBytes fields)).headerStage =
        (c₀.inHeaders r .start (LF :: blockBytes fields)).headerStage := by
      cases blank with
      | true =>
        rw [headerStage_success rfl (parseHeaders_block _ hok hne hab hkey),
          headerStage_success rfl (parseHeaders_block _ hok hne hab hstart)]
        rfl
      | false =>
        rw [List.append_nil] at hkey hstart
        rw [headerStage_again rfl (parseHeaders_open _ hok hne hab hkey),
          headerStage_again rfl (parseHeaders_open _ hok hne hab hstart)]
        rfl
    rw [process_headers rfl, process_headers rfl, hstage]

/-! ## Many deliveries -/

theorem prefix_of_request {n q : Bytes} {e : Bytes} {fields : List Field} (hq : q ++ e = requestBytes line fields)
    (hn : n <+: blockBytes fields) (hlen : q.length ≤ line.length + 2 + n.length) : q <+: line ++ CR :: LF :: n := by
  obtain ⟨e', he'⟩ := hn
  have hfull : line ++ CR :: LF :: n <+: requestBytes line fields := ⟨e', by simp [requestBytes, ← he']⟩
  refine List.prefix_of_prefix_length_le ⟨e, hq⟩ hfull ?_
  simp only [List.length_append, List.length_cons]; omega

theorem chunkBytes_cons (d : Chunk) (ds : List Chunk) : chunkBytes (d :: ds) = d.bytes ++ chunkBytes ds := rfl

theorem lastCut_cons (d : Chunk) {ds : List Chunk} (h : ds ≠ []) : lastCut (d :: ds) = d.bytes.length + lastCut ds := by
  rw [lastCut, List.dropLast_cons_of_ne_nil h, chunkBytes_cons, List.length_append]; rfl

/-- **Harmless cuts.** -/
theorem deliver_harmless {n q : Bytes} {c : Ctx} {ds : List Chunk} {fields : List Field} (h : Waiting c₀ r line n q c)
    (hnew : New c₀) (hcr : CR ∉ line) (hr : parseRequestLine line c₀.http.requestLine = (.success, r))
    (hok : ∀ f ∈ fields, FieldOk f) (hne : fields ≠ []) (hn : n = [] ∨ absorb fields ≠ none)
    (hplain : ∀ x ∈ n, Plain x) (hblock : n <+: blockBytes fields) (hds : ds ≠ [])
    (hq : q ++ chunkBytes ds = requestBytes line fields) (hcut : q.length + lastCut ds ≤ line.length + 2 + n.length) :
    ds.foldl deliver c = (c₀.buffered (requestBytes line fields)).process.after := by
  induction ds generalizing q c with
  | nil => exact absurd rfl hds
  | cons d ds ih =>
    rw [List.foldl_cons]
    rw [chunkBytes_cons] at hq
    by_cases hlast : ds = []
    · subst hlast
      exact deliver_last h hnew hcr hr hok hne hn (by simpa [chunkBytes] using hq)
    · rw [lastCut_cons d hlast] at hcut
      rw [← List.append_assoc] at hq
      have hpre := prefix_of_request hq hblock (by rw [List.length_append]; omega)
      exact ih (deliver_early h hnew hcr hr hplain hpre) hlast hq (by rw [List.length_append]; omega)

/-- the first chunk that ends in another place -/
theorem first_harmful {n q : Bytes} {c : Ctx} {ds : List Chunk} {fields : List Field} (h : Waiting c₀ r line n q c)
    (hnew : New c₀) (hcr : CR ∉ line) (hr : parseRequestLine line c₀.http.requestLine = (.success, r))
    (hplain : ∀ x ∈ n, Plain x) (hblock : n <+: blockBytes fields)
    (hlen : q.length ≤ line.length + 2 + n.length) (hq : q ++ chunkBytes ds = requestBytes line fields)
    (hcut : line.length + 2 + n.length < q.length + lastCut ds) :
    ∃ q' c' d ds', ds' ≠ [] ∧ Waiting c₀ r line n q' c' ∧ (q' ++ d.bytes) ++ chunkBytes ds' = requestBytes line fields ∧
      line.length + 2 + n.length < (q' ++ d.bytes).length ∧ ds.foldl deliver c = ds'.foldl deliver (c'.deliver d) := by
  induction ds generalizing q c with
  | nil => simp [lastCut, chunkBytes] at hcut; omega
  | cons d ds ih =>
    by_cases hlast : ds = []
    · subst hlast
      simp [lastCut, chunkBytes] at hcut; omega
    · rw [lastCut_cons d hlast] at hcut
      rw [chunkBytes_cons, ← List.append_assoc] at hq
      by_cases hd : (q ++ d.bytes).length ≤ line.length + 2 + n.length
      · have hpre := prefix_of_request hq hblock hd
        rw [List.foldl_cons]
        exact ih (deliver_early h hnew hcr hr hplain hpre) hd hq (by rw [List.length_append]; omega)
      · exact ⟨q, c, d, ds, hlast, h, hq, by omega, rfl⟩

/-! ## Behind the first ':' -/

/-- a request that the connection should not have accepted so -/
def BadRequest (req : Request) : Prop := BadKeys req.headers ∨ req.leftover ≠ []

/-- what a cut behind the first ':' leads to, with the requests `old` accepted before -/
inductive Tainted (old : List Request) (c : Ctx) : Prop where
  | rejected (he : c.http.error = true) (hreq : c.io.requests = old)
  | accepted (req : Request) (more : List Request) (hreq : c.io.requests = old ++ req :: more) (hbad : BadRequest req)
  | cut (he : c.http.error = false) (hconn : c.http.connstate = .connected) (hs : c.http.state = .parseHeaders)
      (hout : c.http.outBuffer = []) (hreq : c.io.requests = old) (hcut : Cut c.http.inBuffer c.http.parseState)

/-- the same, once one more chunk has come -/
inductive Spoiled (old : List Request) (c : Ctx) : Prop where
  | rejected (he : c.http.error = true) (hreq : c.io.requests = old)
  | accepted (req : Request) (more : List Request) (hreq : c.io.requests = old ++ req :: more) (hbad : BadRequest req)
  | waiting (he : c.http.error = false) (hreq : c.io.requests = old)
      (hbad : BadKeys c.http.headers ∨ 2 ≤ c.http.inBuffer.length)

/-- **A chunk behind the first ':'.** -/
theorem taint_deliver {old : List Request} {c : Ctx} (h : Tainted old c) (d : Chunk) :
    Tainted old (c.deliver d) ∧ Spoiled old (c.deliver d) := by
  cases h with
  | rejected he hreq =>
    rw [deliver_error he]
    exact ⟨.rejected he hreq, .rejected he hreq⟩
  | accepted req more hreq hbad =>
    obtain ⟨more', hmore⟩ := c.deliver_requests d
    rw [hreq, List.append_assoc] at hmore
    exact ⟨.accepted req _ hmore hbad, .accepted req _ hmore hbad⟩
  | cut he hconn hs hout hreq hcut =>
    rw [deliver_eq he hconn]
    set e := c.buffered d.bytes
    have hu : e.uriStage = (e, true) := uriStage_skip hs
    have hparse := parseHeaders_cut (h := e.http) hcut d.bytes_ne_nil rfl
    obtain ⟨p, m, b, hframe, -⟩ := e.http.parseHeaders_frame
    rcases hp : e.http.parseHeaders with ⟨flag, h'⟩
    rw [hp] at hparse hframe
    cases hparse with
    | error _ _ =>
      rw [process_header_break hu (headerStage_error hs hp), after_error rfl]
      exact ⟨.rejected rfl hreq, .rejected rfl hreq⟩
    | success _ hb =>
      rw [process_header_go hu (headerStage_success hs hp)]
      obtain ⟨more, hmore⟩ := after_requests (analysisStage (logRequest { e with http := { h' with
        state := if h'.method = .post then .recvBody else .analysis } }))
      rw [analysisStage_requests] at hmore
      have hlog : _ = old ++ ⟨h'.method, h'.version, h'.filename, h'.headers, h'.inBuffer⟩ :: more :=
        hmore.trans (by rw [logRequest, ← hreq]; simp [e, buffered])
      exact ⟨.accepted _ _ hlog hb, .accepted _ _ hlog hb⟩
    | again _ hcut' hb =>
      have hframe : h' = { e.http with inBuffer := b, parseState := p, headers := m } := hframe
      have he' : h'.error = false := by rw [hframe]; exact he
      have hconn' : h'.connstate = .connected := by rw [hframe]; exact hconn
      have hs' : h'.state = .parseHeaders := by rw [hframe]; exact hs
      have hout' : h'.outBuffer = [] := by rw [hframe]; exact hout
      rw [process_header_break hu (headerStage_again hs hp),
        after_waiting (c := { e with http := h' }) he' hout' (by simp [hs']) hconn']
      exact ⟨.cut he' hconn' hs' hout' hreq hcut', .waiting he' hreq hb⟩

theorem taint_deliver_all {old : List Request} {c : Ctx} (h : Tainted old c) {ds : List Chunk} (hds : ds ≠ []) :
    Spoiled old (ds.foldl deliver c) := by
  induction ds generalizing c with
  | nil => exact absurd rfl hds
  | cons d ds ih =>
    obtain ⟨htaint, hspoiled⟩ := taint_deliver h d
    rw [List.foldl_cons]
    by_cases hlast : ds = []
    · subst hlast; exact hspoiled
    · exact ih htaint hlast

/-- **The first cut behind the ':'.** -/
theorem taint_first {n q w e : Bytes} {c : Ctx} {d : Chunk} {fields : List Field} {pairs : List (Bytes × Bytes)}
    {blank : Bool} (h : Waiting c₀ r line n q c) (hnew : New c₀) (hcr : CR ∉ line)
    (hr : parseRequestLine line c₀.http.requestLine = (.success, r)) (hok : ∀ f ∈ fields, FieldOk f) (hne : fields ≠ [])
    (hab : absorb fields = some (pairs, blank)) (hn : Name n) (hq : q ++ d.bytes = line ++ CR :: LF :: (n ++ COLON :: w))
    (hblock : blockBytes fields = (n ++ COLON :: w) ++ e) (he : e ≠ []) :
    Tainted c₀.io.requests (c.deliver d) := by
  obtain ⟨p, b, j, hdeliver, hj⟩ := h.resume_text hnew hcr hr hq
  obtain ⟨h', hp, hcut⟩ := parseHeaders_first hok hne hab hn hblock he hj
  obtain ⟨hafter, herr', hout, hs, hconn', -⟩ := inHeaders_again hnew hp
  rw [hdeliver, hafter]
  exact .cut herr' hconn' hs hout rfl hcut

/-- a call on the first name or more, where the rest of the request will be rejected: the buffer is not longer than the
text, but for the line feed of a call that already rejects -/
theorem deliver_length_first {n q x : Bytes} {c : Ctx} {d : Chunk} (h : Waiting c₀ r line n q c) (hnew : New c₀)
    (hcr : CR ∉ line) (hr : parseRequestLine line c₀.http.requestLine = (.success, r)) {a : UInt8} {tail : Bytes}
    (hx : x = a :: tail) (ha : Plain a) (hq : q ++ d.bytes = line ++ CR :: LF :: x) :
    (c.deliver d).http.inBuffer.length ≤ x.length ∨
      ((c.deliver d).http.error = true ∧ (c.deliver d).http.inBuffer.length ≤ x.length + 1) := by
  obtain ⟨p, b, j, hdeliver, hj⟩ := h.resume_text hnew hcr hr hq
  subst hx
  have hlen := parseHeaders_length hj ha
  rw [hdeliver]
  rcases hp : (c₀.inHeaders r p b).http.parseHeaders with ⟨flag, h'⟩
  rw [hp] at hlen
  cases flag with
  | again =>
    rw [(inHeaders_again hnew hp).1]
    exact Or.inl (by simpa using hlen)
  | error =>
    rw [inHeaders_error hp]
    exact Or.inr ⟨rfl, by simpa using hlen⟩
  | success =>
    left
    rw [process_header_go (uriStage_skip rfl) (headerStage_success rfl hp)]
    set e := logRequest { c₀.inHeaders r p b with http := { h' with
      state := if h'.method = .post then .recvBody else .analysis } }
    have hkept := e.analysisStage_kept
    have hpending := after_pending e.analysisStage
    have hreads : e.io.reads = [] := rfl
    have hbuf : e.http.inBuffer = h'.inBuffer := rfl
    have hshrinks := hkept.shrinks
    have hlen : h'.inBuffer.length ≤ (a :: tail).length := by simpa using hlen
    unfold pending at hpending
    rw [hkept.reads, hreads, show scriptBytes [] = 0 from rfl] at hpending
    rw [hbuf] at hshrinks
    omega

theorem deliver_all_length (c : Ctx) (ds : List Chunk) :
    (ds.foldl deliver c).http.inBuffer.length ≤ c.http.inBuffer.length + (chunkBytes ds).length := by
  induction ds generalizing c with
  | nil => simp [chunkBytes]
  | cons d ds ih =>
    have hd := c.deliver_length d
    have hds := ih (c.deliver d)
    rw [List.foldl_cons, chunkBytes_cons, List.length_append]
    omega

/-! ## The request in one delivery -/

/-- the connection after the whole request -/
def whole (c₀ : Ctx) (line : Bytes) (fields : List Field) : Ctx :=
  (c₀.buffered (requestBytes line fields)).process.after

theorem whole_accepted {fields : List Field} {pairs : List (Bytes × Bytes)} (hnew : New c₀) (hcr : CR ∉ line)
    (hr : parseRequestLine line c₀.http.requestLine = (.success, r)) (hok : ∀ f ∈ fields, FieldOk f) (hne : fields ≠ [])
    (hab : absorb fields = some (pairs, true)) :
    (whole c₀ line fields).io.requests =
      c₀.io.requests ++ [⟨r.method, r.version, r.filename, store (fun _ => none) pairs, []⟩] := by
  have htext : HttpData.AtText (c₀.inHeaders r .start (LF :: blockBytes fields)).http (blockBytes fields ++ []) 1 :=
    .start rfl (by rw [List.append_nil]; rfl)
  have hp := parseHeaders_block _ hok hne hab htext
  rw [whole, requestBytes, process_line hnew hcr hr, process_header_go (uriStage_skip rfl) (headerStage_success rfl hp)]
  set e := logRequest { c₀.inHeaders r .start (LF :: blockBytes fields) with http := _ }
  have hempty : e.analysisStage.http.inBuffer = [] :=
    List.length_eq_zero_iff.1 (Nat.le_zero.1 e.analysisStage_kept.shrinks)
  rw [after_empty hempty, analysisStage_requests, ← hnew.headers]
  rfl

theorem whole_open {fields : List Field} {pairs : List (Bytes × Bytes)} (hnew : New c₀) (hcr : CR ∉ line)
    (hr : parseRequestLine line c₀.http.requestLine = (.success, r)) (hok : ∀ f ∈ fields, FieldOk f) (hne : fields ≠ [])
    (hab : absorb fields = some (pairs, false)) :
    (whole c₀ line fields).io.requests = c₀.io.requests ∧ (whole c₀ line fields).http.error = false ∧
      (whole c₀ line fields).http.headers = store (fun _ => none) pairs ∧
      (whole c₀ line fields).http.inBuffer = [LF] := by
  have hp := parseHeaders_open (c₀.inHeaders r .start (LF :: blockBytes fields)).http hok hne hab (.start rfl rfl)
  rw [whole, requestBytes, process_line hnew hcr hr, (inHeaders_again hnew hp).1, ← hnew.headers]
  exact ⟨rfl, hnew.error, rfl, rfl⟩

theorem whole_rejected {fields : List Field} (hnew : New c₀) (hcr : CR ∉ line)
    (hr : parseRequestLine line c₀.http.requestLine = (.success, r)) (hok : ∀ f ∈ fields, FieldOk f)
    (hab : absorb fields = none) : (whole c₀ line fields).http.inBuffer = LF :: blockBytes fields := by
  obtain ⟨p, m, hp⟩ := parseHeaders_reject (c₀.inHeaders r .start (LF :: blockBytes fields)).http hok hab (.start rfl rfl)
  rw [whole, requestBytes, process_line hnew hcr hr, inHeaders_error hp]
  rfl

/-- where parseURI rejects the line, every cut is harmless -/
theorem deliver_rejected {q : Bytes} {ds : List Chunk} {fields : List Field} (hnew : New c₀) (hcr : CR ∉ line)
    (hr : parseRequestLine line c₀.http.requestLine = (.error, r)) (hline : CR ∉ q)
    (hq : q ++ chunkBytes ds = requestBytes line fields) :
    ds.foldl deliver (c₀.buffered q) = whole c₀ line fields := by
  have hreject : ∀ z, (c₀.buffered (line ++ CR :: z)).process.after = (c₀.buffered []).rejected r := by
    intro z
    rw [process_uri_break (uriStage_reject (c := c₀.buffered _) hnew.state hnew.readpos hcr (hnew.buffered _) hr)]
    exact after_error rfl
  rw [whole, requestBytes, hreject]
  induction ds generalizing q with
  | nil =>
    rw [show chunkBytes [] = [] from rfl, List.append_nil] at hq
    exact absurd (hq ▸ by simp [requestBytes]) hline
  | cons d ds ih =>
    rw [chunkBytes_cons, ← List.append_assoc] at hq
    rw [List.foldl_cons]
    by_cases hd : CR ∉ q ++ d.bytes
    · rw [deliver_line hnew hd]
      exact ih hd hq
    · obtain ⟨z, hz, -⟩ := split_at_cr hcr hq (not_not.1 hd)
      have hbuf : (c₀.buffered q).buffered d.bytes = c₀.buffered (q ++ d.bytes) := by
        simp only [buffered, List.append_assoc]
      rw [deliver_eq (c := c₀.buffered q) hnew.error hnew.connstate, hbuf, hz, hreject]
      exact deliver_all_error rfl ds

end Request

/-! ## The condition -/

/-- the part of the first name that a cut may reach: all of it, but nothing where a field is rejected -/
def safeName (f : Field) (fs : List Field) : Bytes := if absorb (f :: fs) = none then [] else f.1

theorem deliver_start {c : Ctx} (hnew : New c) {ds : List Chunk} (hds : ds ≠ []) :
    ds.foldl deliver c = ds.foldl deliver (c.buffered []) := by
  obtain ⟨d, ds, rfl⟩ := List.exists_cons_of_ne_nil hds
  rw [List.foldl_cons, List.foldl_cons, deliver_eq hnew.error hnew.connstate,
    deliver_eq (c := c.buffered []) hnew.error hnew.connstate]
  simp only [buffered, List.append_nil]

/-- a cut behind the first ':' shows -/
theorem spoiled_not_same {c d : Ctx} {r : RequestLine} {line : Bytes} {fields : List Field}
    {pairs : List (Bytes × Bytes)} {blank : Bool} (hnew : New c) (hcr : CR ∉ line)
    (hr : parseRequestLine line c.http.requestLine = (.success, r)) (hok : ∀ f ∈ fields, FieldOk f) (hne : fields ≠ [])
    (hab : absorb fields = some (pairs, blank)) (h : Spoiled c.io.requests d) : ¬ Same d (whole c line fields) := by
  intro hsame
  obtain ⟨text, hlines, -, -⟩ := absorb_some hok hab
  have hgood := badKeys_store hlines.names
  have hlonger : ∀ (rs : List Request) (req : Request) (more : List Request), rs ≠ rs ++ req :: more := by
    intro rs req more heq
    simpa using congrArg List.length heq
  cases blank with
  | true =>
    have hreq := hsame.requests
    rw [whole_accepted hnew hcr hr hok hne hab] at hreq
    cases h with
    | rejected _ hold => exact hlonger _ _ _ (hold.symm.trans hreq)
    | waiting _ hold _ => exact hlonger _ _ _ (hold.symm.trans hreq)
    | accepted req more hold hbad =>
      rw [hold, List.append_cancel_left_eq] at hreq
      obtain rfl := (List.cons.inj hreq).1
      rcases hbad with hbad | hbad
      · exact hgood hbad
      · exact hbad rfl
  | false =>
    obtain ⟨hreq, herr, hheaders, hbuf⟩ := whole_open hnew hcr hr hok hne hab
    cases h with
    | rejected he _ =>
      rw [hsame.error, herr] at he
      cases he
    | accepted req more hold _ =>
      rw [hsame.requests, hreq] at hold
      exact hlonger _ _ _ hold
    | waiting _ _ hbad =>
      rw [hsame.headers.trans hheaders, hsame.inBuffer.trans hbuf] at hbad
      rcases hbad with hbad | hbad
      · exact hgood hbad
      · simp at hbad

/-- what is left of a longer prefix of the request -/
theorem split_at_name {line n p e : Bytes} {fields : List Field} (hp : p ++ e = requestBytes line fields)
    (hn : n <+: blockBytes fields) (hlen : line.length + 2 + n.length < p.length) :
    ∃ y, y ≠ [] ∧ p = line ++ CR :: LF :: (n ++ y) ∧ blockBytes fields = (n ++ y) ++ e := by
  obtain ⟨e', he'⟩ := hn
  have hfull : line ++ CR :: LF :: n <+: requestBytes line fields := ⟨e', by simp [requestBytes, ← he']⟩
  obtain ⟨y, hy⟩ : line ++ CR :: LF :: n <+: p := by
    refine List.prefix_of_prefix_length_le hfull ⟨e, hp⟩ ?_
    simp only [List.length_append, List.length_cons]; omega
  have hpy : p = line ++ CR :: LF :: (n ++ y) := by rw [← hy]; simp
  refine ⟨y, ?_, hpy, ?_⟩
  · rintro rfl
    rw [hpy] at hlen
    simp at hlen
    omega
  · rw [hpy, requestBytes, List.append_assoc, List.append_cancel_left_eq] at hp
    exact (List.cons.inj (List.cons.inj hp).2).2.symm

/-- a cut behind the harmless ones shows -/
theorem harmful_not_same {c c' : Ctx} {r : RequestLine} {line q : Bytes} {f : Field} {fs : List Field} {d : Chunk}
    {ds : List Chunk} (hnew : New c) (hcr : CR ∉ line)
    (hr : parseRequestLine line c.http.requestLine = (.success, r)) (hok : ∀ g ∈ f :: fs, FieldOk g) (hds : ds ≠ [])
    (hwait : Waiting c r line (safeName f fs) q c')
    (hq : (q ++ d.bytes) ++ chunkBytes ds = requestBytes line (f :: fs))
    (hlen : line.length + 2 + (safeName f fs).length < (q ++ d.bytes).length) :
    ¬ Same (ds.foldl deliver (c'.deliver d)) (whole c line (f :: fs)) := by
  have hname := (hok f List.mem_cons_self).name
  have hblock : blockBytes (f :: fs) = f.1 ++ COLON :: (f.2 ++ [CR, LF] ++ blockBytes fs) := by
    rw [blockBytes_cons]; simp [fieldBytes]
  cases hab : absorb (f :: fs) with
  | none =>
    obtain ⟨y, hy, hp, hrest⟩ := split_at_name hq List.nil_prefix (by simpa [safeName, hab] using hlen)
    obtain ⟨a, tail, rfl⟩ := List.exists_cons_of_ne_nil hy
    have ha : Plain a := by
      obtain ⟨x, t, hx, hxt⟩ := hname.cons (COLON :: (f.2 ++ [CR, LF] ++ blockBytes fs))
      rw [hblock, hxt] at hrest
      exact (List.cons.inj hrest).1 ▸ hx
    have hfirst := deliver_length_first hwait hnew hcr hr rfl ha hp
    have htail := List.length_pos_of_ne_nil (chunkBytes_ne_nil hds)
    have hall := deliver_all_length (c'.deliver d) ds
    have htotal := congrArg List.length hrest
    rw [List.length_append, List.nil_append] at htotal
    intro hsame
    have hbuf := congrArg List.length (hsame.inBuffer.trans (whole_rejected hnew hcr hr hok hab))
    rw [List.length_cons] at hbuf
    rcases hfirst with hshort | ⟨herr, hshort⟩
    · omega
    · rw [deliver_all_error herr] at hbuf
      omega
  | some p =>
    obtain ⟨pairs, blank⟩ := p
    have hsafe : safeName f fs = f.1 := by rw [safeName, hab]; rfl
    rw [hsafe] at hlen hwait
    obtain ⟨y, hy, hp, hrest⟩ := split_at_name hq ⟨_, hblock.symm⟩ hlen
    obtain ⟨a, w, rfl⟩ := List.exists_cons_of_ne_nil hy
    obtain rfl : a = COLON := by
      rw [hblock, List.append_assoc f.1, List.append_cancel_left_eq] at hrest
      exact (List.cons.inj hrest).1.symm
    have htaint := taint_first hwait hnew hcr hr hok (List.cons_ne_nil f fs) hab hname hp hrest (chunkBytes_ne_nil hds)
    exact spoiled_not_same hnew hcr hr hok (List.cons_ne_nil f fs) hab (taint_deliver_all htaint hds)

/-- **Chunk independence.** Delivering a request in chunks gives the result of delivering it at once if and only if
parseURI rejects its line, or the last chunk begins at most behind the first name; at most behind the request line where
a header field is rejected. -/
theorem chunk_independent_iff (c : Ctx) (hnew : New c) (line : Bytes) (hcr : CR ∉ line) (f : Field) (fs : List Field)
    (hok : ∀ g ∈ f :: fs, FieldOk g) (ds : List Chunk) (hds : chunkBytes ds = requestBytes line (f :: fs)) (w : Chunk)
    (hw : w.bytes = requestBytes line (f :: fs)) :
    Same (ds.foldl deliver c) (c.deliver w) ↔
      (parseRequestLine line c.http.requestLine).1 = .error ∨
        lastCut ds ≤ line.length + 2 + if absorb (f :: fs) = none then 0 else f.1.length := by
  have hne : f :: fs ≠ [] := List.cons_ne_nil f fs
  have hdsne : ds ≠ [] := by
    rintro rfl
    have := congrArg List.length hds
    simp [chunkBytes, requestBytes] at this
  have hwhole : c.deliver w = whole c line (f :: fs) := by
    rw [deliver_eq hnew.error hnew.connstate, hw]; rfl
  have hsafe : (if absorb (f :: fs) = none then 0 else f.1.length) = (safeName f fs).length := by
    unfold safeName; split_ifs <;> rfl
  rw [hwhole, deliver_start hnew hdsne, hsafe]
  rcases hparse : parseRequestLine line c.http.requestLine with ⟨flag, r⟩
  have hflag := parseRequestLine_flag line c.http.requestLine
  rw [hparse] at hflag
  rcases hflag with rfl | rfl
  · have hblock : blockBytes (f :: fs) = f.1 ++ COLON :: (f.2 ++ [CR, LF] ++ blockBytes fs) := by
      rw [blockBytes_cons]; simp [fieldBytes]
    have hplain : ∀ x ∈ safeName f fs, Plain x := by
      unfold safeName
      split_ifs
      · simp
      · exact (hok f List.mem_cons_self).name.plain
    have hprefix : safeName f fs <+: blockBytes (f :: fs) := by
      unfold safeName
      split_ifs
      · exact List.nil_prefix
      · exact ⟨_, hblock.symm⟩
    have hn : safeName f fs = [] ∨ absorb (f :: fs) ≠ none := by
      unfold safeName
      split_ifs with hab
      · exact Or.inl rfl
      · exact Or.inr hab
    have hstart : Waiting c r line (safeName f fs) [] (c.buffered []) := .line (by simp)
    constructor
    · intro hsame
      right
      by_contra hcut
      obtain ⟨q, c', d, ds', hds', hwait, hq, hlen, heq⟩ := first_harmful hstart hnew hcr hparse hplain hprefix
        (Nat.zero_le _) hds (by simpa using hcut)
      rw [heq] at hsame
      exact harmful_not_same hnew hcr hparse hok hds' hwait hq hlen hsame
    · intro hcut
      have hcut : lastCut ds ≤ line.length + 2 + (safeName f fs).length := hcut.resolve_left (by simp)
      have heq := deliver_harmless hstart hnew hcr hparse hok hne hn hplain hprefix hdsne hds (by simpa using hcut)
      rw [heq]
      exact ⟨rfl, rfl, rfl, rfl, rfl, rfl, rfl⟩
  · refine ⟨fun _ => Or.inl rfl, ?_⟩
    intro _
    rw [deliver_rejected (q := []) hnew hcr hparse (by simp) hds]
    exact ⟨rfl, rfl, rfl, rfl, rfl, rfl, rfl⟩

/-- a new connection on a system where every path is a readable file -/
def newConnection : Ctx where
  http := .new 5
  io := ⟨[], [.wrote 1000], fun _ => .regular (ascii "hello"), [], [], false⟩
  timers := []

/-- a chunk that one read(2) returns -/
def oneRead (text : Bytes) (h : text ≠ []) : Chunk := ⟨[text], List.cons_ne_nil _ _, by simpa using h⟩

def hostField : Field := (ascii "Host", ascii " a")

theorem hostField_ok : ∀ g ∈ [hostField], FieldOk g := fun g hg => by
  obtain rfl := List.mem_singleton.1 hg
  exact ⟨⟨by decide, by decide +kernel⟩, by decide⟩

/-- the request cut inside the name of its field -/
theorem chunk_independent_iff_name :
    Same ([oneRead (ascii "GET / HTTP/1.1\r\nHo") (by decide), oneRead (ascii "st: a\r\n\r\n") (by decide)].foldl
      deliver newConnection) (newConnection.deliver (oneRead (ascii "GET / HTTP/1.1\r\nHost: a\r\n\r\n") (by decide))) :=
  (chunk_independent_iff newConnection ⟨⟨rfl, rfl, rfl, rfl, rfl, rfl⟩, rfl, rfl⟩ (ascii "GET / HTTP/1.1") (by decide)
    hostField [] hostField_ok _ (by decide +kernel) _ (by decide +kernel)).2 (Or.inr (by decide +kernel))

/-- the request cut behind the ':' is answered with 400 -/
theorem cut_behind_colon :
    ¬ Same ([oneRead (ascii "GET / HTTP/1.1\r\nHost:") (by decide), oneRead (ascii " a\r\n\r\n") (by decide)].foldl
      deliver newConnection)
      (newConnection.deliver (oneRead (ascii "GET / HTTP/1.1\r\nHost: a\r\n\r\n") (by decide))) := by
  intro hsame
  exact absurd hsame.error (by decide +kernel)

end Ctx

end Glacier
