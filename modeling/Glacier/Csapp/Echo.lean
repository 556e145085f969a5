/-
The echo server: one line from each client, which is written back to it.

All clients share one array, and Readline leaves it as it is when a client closes its connection without a line. Such a
client gets the line of another one.
- `Readline`: the loop of `Source.line` on a descriptor, with the number that it returns;
- `echo`, `echoAll`: one client, and the clients one after the other;
- `echoAll_eq`: what each client gets, whatever its reads are.
-/
import Glacier.Csapp.Rio

namespace Glacier

open Cxx

namespace Csapp

def MAX_LINE : ℕ := 1000

/-! ## Lines -/

/-- the turns of the loop of Readline, by characters and by interruptions -/
def turns (fd : Fd) (r : Source.Line Fd UInt8) : ℕ := r.copied.length + (fd.delays - r.state.delays)

/-- Readline: the loop counts the interrupted calls as well. At the end of the input in the first turn nothing is stored. -/
def Readline (fd : Fd) (maxlen : ℕ) : Reply × Fd :=
  let r := Fd.source.line (· = LF) (maxlen - 1) fd
  let reply : Reply :=
    match r.ending with
    | .failed => ⟨-1, r.copied, false⟩
    | .stopped => ⟨turns fd r, r.copied, true⟩
    | .full => ⟨turns fd r + 1, r.copied, true⟩
    | .ended => if turns fd r = 0 then ⟨0, [], false⟩ else ⟨turns fd r + 1, r.copied, true⟩
  (reply, r.state)

/-- Writeline has the loop of rio_writen -/
abbrev Writeline : List WriteOutcome → Bytes → Bool × Bytes × List WriteOutcome := rio_writen

/-! ## Clients -/

structure EchoClient where
  fd : Fd
  writes : List WriteOutcome

/-- the loop of main on one client: the array after it, and what the client gets; main does not look at the results -/
def echo (buffer : Bytes) (c : EchoClient) : Bytes × Bytes :=
  let (reply, _) := Readline c.fd (MAX_LINE - 1)
  let buffer := reply.store buffer
  (buffer, (Writeline c.writes (cString buffer)).2.1)

/-- the clients one after the other: what each of them gets -/
def echoAll : Bytes → List EchoClient → List Bytes
  | _, [] => []
  | buffer, c :: cs => (echo buffer c).2 :: echoAll (echo buffer c).1 cs

structure EchoClient.Sound (c : EchoClient) : Prop where
  reads : c.fd.Sound
  writes : .fail ∉ c.writes

/-- the client has sent something, or a call of read(2) has been interrupted before its end -/
def EchoClient.Stores (c : EchoClient) : Prop := c.fd.input ≠ [] ∨ c.fd.script.head? = some .intr

instance (c : EchoClient) : Decidable c.Stores := inferInstanceAs (Decidable (_ ∨ _))

/-- the interrupted calls among those of Readline -/
def EchoClient.interruptions (c : EchoClient) : ℕ :=
  c.fd.delays - (Fd.source.line (· = LF) (MAX_LINE - 2) c.fd).state.delays

/-- the line that Readline finds: the interruptions take their part of the room -/
def EchoClient.line (c : EchoClient) : Bytes := (Source.lineOf (· = LF) (MAX_LINE - 2 - c.interruptions) c.fd.input).1

/-! ## What one client gets -/

theorem read_interrupted_iff {n : ℕ} {fd : Fd} : (∃ e, fd.read n = (.interrupted, e)) ↔ fd.script.head? = some .intr := by
  rcases fd with ⟨input, _ | ⟨o, rest⟩⟩
  · simp [Fd.read]
  · cases o <;> simp [Fd.read]

/-- a client that closes its connection at once -/
theorem readline_nothing {c : EchoClient} (hs : c.Sound) (h : ¬ c.Stores) (k : ℕ) :
    ∃ fd, Fd.source.line (· = LF) (k + 1) c.fd = ⟨[], .ended, fd⟩ ∧ fd.delays = c.fd.delays := by
  obtain ⟨hinput, hhead⟩ := not_or.1 h
  have hinput : c.fd.input = [] := not_not.1 hinput
  rcases hread : c.fd.read 1 with ⟨xs | _ | _, fd⟩
  · obtain ⟨m, -, -, rfl, -, hdelays⟩ := Fd.read_got hread
    rw [hinput, List.take_nil] at hread
    have hread : Fd.source.read 1 c.fd = (.got [], fd) := hread
    exact ⟨fd, by rw [Source.line, hread], hdelays⟩
  · exact absurd (read_interrupted_iff.1 ⟨fd, hread⟩) hhead
  · exact absurd (Fd.read_failed hread).2 hs.reads

/-- the interruptions and the line of a client, in the terms of the source -/
theorem EchoClient.line_eq {c : EchoClient} (hs : c.Sound) :
    c.interruptions ≤ MAX_LINE - 2 ∧
      ((Fd.source.line (· = LF) (MAX_LINE - 2) c.fd).copied, (Fd.source.line (· = LF) (MAX_LINE - 2) c.fd).ending) =
        Source.lineOf (· = LF) (MAX_LINE - 2 - c.interruptions) c.fd.input := by
  obtain ⟨hok, -⟩ := Source.line_steady (· = LF) Fd.steady (MAX_LINE - 2) hs.reads
  obtain ⟨-, hline⟩ := Fd.source.line_spec (· = LF) (MAX_LINE - 2) c.fd
  obtain ⟨d, hd, hcount, heq⟩ := hline hok
  have hinterruptions : c.interruptions = d := Nat.sub_eq_of_eq_add' hcount
  rw [hinterruptions]
  exact ⟨hd, heq⟩

/-- a call that is interrupted at once -/
theorem interruptions_pos {c : EchoClient} (hs : c.Sound) (h : c.fd.script.head? = some .intr) : 0 < c.interruptions := by
  obtain ⟨fd, hread⟩ := (read_interrupted_iff (n := 1)).2 h
  have hread' : Fd.source.read 1 c.fd = (.interrupted, fd) := hread
  obtain ⟨-, hdelays⟩ := Fd.read_interrupted hread
  have hsound : fd.Sound := by
    have := Fd.sound_read hs.reads 1
    rwa [hread] at this
  have hstep : Fd.source.line (· = LF) (MAX_LINE - 2) c.fd = Fd.source.line (· = LF) (MAX_LINE - 3) fd := by
    rw [show MAX_LINE - 2 = MAX_LINE - 3 + 1 from rfl, Source.line, hread']
  obtain ⟨hok, -⟩ := Source.line_steady (· = LF) Fd.steady (MAX_LINE - 3) hsound
  obtain ⟨-, hline⟩ := Fd.source.line_spec (· = LF) (MAX_LINE - 3) fd
  obtain ⟨d, -, hcount, -⟩ := hline hok
  have hcount : fd.delays = (Fd.source.line (· = LF) (MAX_LINE - 3) fd).state.delays + d := hcount
  rw [EchoClient.interruptions, hstep]
  omega

/-- **What Readline stores**: the line, or nothing -/
theorem Readline_eq {c : EchoClient} (hs : c.Sound) : ∃ n fd, Readline c.fd (MAX_LINE - 1) =
    (if c.Stores then ⟨n, c.line, true⟩ else ⟨0, [], false⟩, fd) := by
  by_cases hstores : c.Stores
  · obtain ⟨hroom, hline⟩ := EchoClient.line_eq hs
    obtain ⟨hcopied, hending⟩ := Prod.mk.inj hline
    have hnot := Source.lineOf_ending (· = LF) (MAX_LINE - 2 - c.interruptions) c.fd.input
    simp only [if_pos hstores]
    unfold Readline
    rw [show MAX_LINE - 1 - 1 = MAX_LINE - 2 from rfl]
    generalize hr : Fd.source.line (· = LF) (MAX_LINE - 2) c.fd = r at hcopied hending
    have hcopied : r.copied = c.line := hcopied
    have hturns : turns c.fd r = c.line.length + c.interruptions := by
      rw [turns, hcopied, EchoClient.interruptions, hr]
    dsimp only
    cases hend : r.ending with
    | failed => exact absurd (hending.symm.trans hend) hnot
    | stopped => exact ⟨_, r.state, by rw [hcopied]⟩
    | full => exact ⟨_, r.state, by rw [hcopied]⟩
    | ended =>
      -- the first turn has taken a byte, or has been interrupted
      have hpos : turns c.fd r ≠ 0 := by
        rw [hturns]
        intro hzero
        obtain ⟨hlen, hnone⟩ := Nat.add_eq_zero_iff.1 hzero
        have hinput : c.fd.input = [] := by
          refine (Source.lineOf_nil (· = LF) ?_).1 (List.length_eq_zero_iff.1 hlen)
          rw [hnone]; decide
        exact hstores.elim (fun hne => hne hinput) fun hhead => (interruptions_pos hs hhead).ne' hnone
      dsimp only
      rw [if_neg hpos]
      exact ⟨_, r.state, by rw [hcopied]⟩
  · obtain ⟨fd, hline, hdelays⟩ := readline_nothing hs hstores (MAX_LINE - 3)
    refine ⟨0, fd, ?_⟩
    rw [if_neg hstores, Readline, show MAX_LINE - 1 - 1 = MAX_LINE - 3 + 1 from rfl, hline]
    have hturns : turns c.fd ⟨[], .ended, fd⟩ = 0 := by simp [turns, hdelays]
    dsimp only
    rw [if_pos hturns]

/-- the text that a client leaves in the array, and gets -/
theorem echo_eq {c : EchoClient} (hs : c.Sound) (buffer : Bytes) :
    cString (echo buffer c).1 = (if c.Stores then cString c.line else cString buffer) ∧
      (echo buffer c).2 = cString (echo buffer c).1 := by
  obtain ⟨n, fd, hread⟩ := Readline_eq hs
  obtain ⟨rest, hsend, -⟩ := rio_writen_eq hs.writes (cString (echo buffer c).1)
  refine ⟨?_, congrArg (fun r => r.2.1) hsend⟩
  unfold echo
  rw [hread]
  dsimp only
  split_ifs
  · exact cString_store n c.line buffer
  · rw [cString_store_nil]

/-! ## What all clients get -/

/-- the line of the last client that has stored one, or what has been in the array before -/
def lastLine (buffer : Bytes) (cs : List EchoClient) : Bytes :=
  match (cs.filter fun c => c.Stores).getLast? with
  | some c => cString c.line
  | none => cString buffer

theorem lastLine_cons {c : EchoClient} (hs : c.Sound) (buffer : Bytes) (cs : List EchoClient) :
    lastLine buffer (c :: cs) = lastLine (echo buffer c).1 cs := by
  unfold lastLine
  rw [List.filter_cons]
  rcases hlast : (cs.filter fun c => c.Stores).getLast? with _ | d
  · rw [(echo_eq hs buffer).1]
    have hnil : cs.filter (fun c => c.Stores) = [] := List.getLast?_eq_none_iff.1 hlast
    split_ifs with h h' h'
    · rw [hnil]; rfl
    · exact absurd (of_decide_eq_true h) h'
    · exact absurd (decide_eq_true h') h
    · rw [hlast]
  · split_ifs
    · rw [List.getLast?_cons, hlast]; rfl
    · rw [hlast]

/-- **What the clients of the echo server get.** Whatever the reads of the clients give, each client gets the line of the
last client, itself included, that has stored one: its own if it has sent anything, and otherwise a line of another
client. -/
theorem echoAll_eq (buffer : Bytes) {cs : List EchoClient} (hs : ∀ c ∈ cs, c.Sound) {i : ℕ} (hi : i < cs.length) :
    (echoAll buffer cs)[i]? = some (lastLine buffer (cs.take (i + 1))) := by
  induction cs generalizing buffer i with
  | nil => exact absurd hi (Nat.not_lt_zero i)
  | cons c cs ih =>
    obtain ⟨hc, hrest⟩ := List.forall_mem_cons.1 hs
    obtain ⟨htext, hsent⟩ := echo_eq hc buffer
    rw [List.take_succ_cons, lastLine_cons hc]
    cases i with
    | zero => exact congrArg some hsent
    | succ i => exact ih _ hrest (Nat.lt_of_succ_lt_succ hi)

/-- the second client closes its connection at once, and gets the line of the first -/
def curious : List EchoClient :=
  [⟨⟨ascii "secret\n", [.upTo 0, .intr]⟩, [.upTo 2]⟩, ⟨⟨[], []⟩, []⟩]

theorem echoAll_eq_curious : (echoAll [] curious)[1]? = some (ascii "secret\n") := by
  have hs : ∀ c ∈ curious, c.Sound := by
    simp only [curious, List.forall_mem_cons]
    exact ⟨⟨show ReadOutcome.fail ∉ _ by decide, by decide⟩, ⟨show ReadOutcome.fail ∉ _ by decide, by decide⟩,
      fun _ hc => absurd hc List.not_mem_nil⟩
  rw [echoAll_eq [] hs (by decide)]
  decide +kernel

end Csapp

end Glacier
