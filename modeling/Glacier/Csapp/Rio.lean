/-
The Rio package: reads that do not mind short counts and interrupted calls, with a buffer or without one.

A descriptor is a source (Lib/Source), and so is the buffer in front of it: rio_read takes the place of read(2). The loops of
rio_readn and rio_readnb are `Source.collect` on the one and on the other, and that of rio_readlineb is `Source.line`.
- `Fd`, `Fd.read`: a descriptor with the bytes that its peer sends, and read(2), which may give any part of what it is asked
  for;
- `Rio`, `rio_read`: the buffer; `rioSource`: it is a source, which is not interrupted;
- `Call`, `run`: any calls of rio_readnb and rio_readlineb, one after the other;
- `direct`: the same calls on the bytes themselves;
- `rio_reads_stream`: no call loses a byte, and without failed reads the calls return what they return on the bytes;
- `Reply.store`, `cString`: what a call leaves in the array of its caller, and the text in it.
-/
import Glacier.Lib.ByteString
import Glacier.Lib.Source

namespace Glacier

open Cxx

namespace Csapp

/-! ## Descriptors -/

inductive ReadOutcome where
  /-- at most `k + 1` bytes -/
  | upTo (k : ℕ)
  | intr
  | fail
deriving DecidableEq, Repr

/-- a descriptor: the bytes that are sent before its end, and the outcomes of the next calls of read(2); the calls after
them give all that they are asked for -/
structure Fd where
  input : Bytes
  script : List ReadOutcome

namespace Fd

def read (n : ℕ) (fd : Fd) : Pulled UInt8 × Fd :=
  match fd.script with
  | [] => (.got (fd.input.take n), ⟨fd.input.drop n, []⟩)
  | .upTo k :: rest => (.got (fd.input.take (min n (k + 1))), ⟨fd.input.drop (min n (k + 1)), rest⟩)
  | .intr :: rest => (.interrupted, ⟨fd.input, rest⟩)
  | .fail :: rest => (.failed, ⟨fd.input, rest⟩)

def delays (fd : Fd) : ℕ := fd.script.count .intr

/-- what a call of read(2) that is neither interrupted nor failed has done -/
theorem read_got {n : ℕ} {fd e : Fd} {xs : Bytes} (h : fd.read n = (.got xs, e)) :
    ∃ m ≤ n, (n ≠ 0 → m ≠ 0) ∧ xs = fd.input.take m ∧ e.input = fd.input.drop m ∧ e.delays = fd.delays := by
  unfold read at h
  unfold delays
  split at h
  · rename_i hscript
    obtain ⟨hxs, rfl⟩ := Prod.mk.inj h
    exact ⟨n, le_rfl, id, (Pulled.got.inj hxs).symm, rfl, by rw [hscript]⟩
  · rename_i k rest hscript
    obtain ⟨hxs, rfl⟩ := Prod.mk.inj h
    refine ⟨min n (k + 1), min_le_left _ _, ?_, (Pulled.got.inj hxs).symm, rfl, ?_⟩
    · omega
    · rw [hscript]; rfl
  · cases (Prod.mk.inj h).1
  · cases (Prod.mk.inj h).1

theorem read_interrupted {n : ℕ} {fd e : Fd} (h : fd.read n = (.interrupted, e)) :
    e.input = fd.input ∧ fd.delays = e.delays + 1 := by
  unfold read at h
  unfold delays
  split at h
  · cases (Prod.mk.inj h).1
  · cases (Prod.mk.inj h).1
  · rename_i rest hscript
    obtain ⟨-, rfl⟩ := Prod.mk.inj h
    rw [hscript]
    exact ⟨rfl, List.count_cons_self⟩
  · cases (Prod.mk.inj h).1

theorem read_failed {n : ℕ} {fd e : Fd} (h : fd.read n = (.failed, e)) : e.input = fd.input ∧ .fail ∈ fd.script := by
  unfold read at h
  split at h
  · cases (Prod.mk.inj h).1
  · cases (Prod.mk.inj h).1
  · cases (Prod.mk.inj h).1
  · rename_i rest hscript
    obtain ⟨-, rfl⟩ := Prod.mk.inj h
    rw [hscript]
    exact ⟨rfl, List.mem_cons_self⟩

theorem read_script (n : ℕ) (fd : Fd) : (fd.read n).2.script <:+ fd.script := by
  rcases fd with ⟨input, _ | ⟨o, rest⟩⟩
  · exact List.suffix_rfl
  · cases o <;> exact List.suffix_cons _ _

/-- **A descriptor is a source.** -/
def source : Source Fd UInt8 where
  read := read
  left := input
  delays := delays
  got_left := fun h => by
    obtain ⟨m, -, -, rfl, hinput, -⟩ := read_got h
    rw [hinput, List.take_append_drop]
  got_le := fun h => by
    obtain ⟨m, hm, -, rfl, -, -⟩ := read_got h
    exact (List.length_take_le _ _).trans hm
  got_end := fun {n} _ _ h => by
    obtain ⟨m, -, hpos, htake, -, -⟩ := read_got h
    by_cases hn : n = 0
    · exact Or.inl hn
    · exact Or.inr ((List.take_eq_nil_iff.1 htake.symm).resolve_left (hpos hn))
  got_delays := fun h => by
    obtain ⟨m, -, -, -, -, hdelays⟩ := read_got h
    exact hdelays
  interrupted_left := fun h => (read_interrupted h).1
  interrupted_delays := fun h => (read_interrupted h).2
  failed_left := fun h => (read_failed h).1

/-- a descriptor whose reads do not fail -/
def Sound (fd : Fd) : Prop := .fail ∉ fd.script

theorem sound_read {fd : Fd} (h : fd.Sound) (n : ℕ) : (fd.read n).2.Sound := fun hf => h ((fd.read_script n).subset hf)

theorem steady : source.Steady Sound where
  succeeds := fun {n} fd h hread => h (read_failed (e := (fd.read n).2) (Prod.ext hread rfl)).2
  step := fun h => sound_read h _

end Fd

/-- rio_readn: the result, what it has copied, and the descriptor -/
def rio_readn (fd : Fd) (n : ℕ) : ℤ × Bytes × Fd :=
  let r := Fd.source.collect n fd
  (if r.failed then -1 else r.copied.length, r.copied, r.state)

/-- **Without a buffer** no byte is lost either, and without failed reads the next `n` bytes are copied, or all. -/
theorem rio_readn_eq (fd : Fd) (n : ℕ) :
    fd.input = (rio_readn fd n).2.1 ++ (rio_readn fd n).2.2.input ∧
      (fd.Sound → (rio_readn fd n).1 = (fd.input.take n).length ∧ (rio_readn fd n).2.1 = fd.input.take n ∧
        (rio_readn fd n).2.2.input = fd.input.drop n) := by
  refine ⟨(Fd.source.collect_spec n fd).1, ?_⟩
  intro h
  obtain ⟨hcopied, hleft, hok, -⟩ := Source.collect_eq Fd.steady n h
  refine ⟨?_, hcopied, hleft⟩
  change (if (Fd.source.collect n fd).failed then (-1 : ℤ) else _) = _
  rw [hok, hcopied]
  rfl

inductive WriteOutcome where
  /-- at most `k + 1` bytes -/
  | upTo (k : ℕ)
  | intr
  | fail
deriving DecidableEq, Repr

/-- rio_writen with the outcomes of its calls of write(2); those after them take all that they are given. True if it does not
fail, and what has been sent, and the outcomes that are left -/
def rio_writen : List WriteOutcome → Bytes → Bool × Bytes × List WriteOutcome
  | script, [] => (true, [], script)
  | [], bytes => (true, bytes, [])
  | .fail :: script, _ => (false, [], script)
  | .intr :: script, bytes => rio_writen script bytes
  | .upTo k :: script, bytes =>
    let r := rio_writen script (bytes.drop (k + 1))
    (r.1, bytes.take (k + 1) ++ r.2.1, r.2.2)

/-- a write that does not fail sends everything -/
theorem rio_writen_eq {script : List WriteOutcome} (h : .fail ∉ script) (bytes : Bytes) :
    ∃ rest, rio_writen script bytes = (true, bytes, rest) ∧ .fail ∉ rest := by
  induction script generalizing bytes with
  | nil => cases bytes <;> exact ⟨[], rfl, h⟩
  | cons o script ih =>
    obtain ⟨ho, hrest⟩ := not_or.1 (fun hm => h (List.mem_cons.2 hm))
    cases bytes with
    | nil => exact ⟨o :: script, by cases o <;> rfl, h⟩
    | cons b bs =>
      cases o with
      | fail => exact absurd rfl ho
      | intr => exact ih hrest (b :: bs)
      | upTo k =>
        obtain ⟨rest, hsend, hfail⟩ := ih hrest ((b :: bs).drop (k + 1))
        refine ⟨rest, ?_, hfail⟩
        rw [rio_writen, hsend]
        · dsimp only
          rw [List.take_append_drop]
        · exact List.cons_ne_nil b bs

/-! ## The buffer -/

def RIO_BUFSIZE : ℕ := 8192

/-- rio_t; of rio_buf the bytes that the last read(2) has stored, and rio_bufptr as an offset -/
structure Rio where
  fd : Fd
  rio_cnt : ℤ
  rio_bufptr : ℕ
  rio_buf : Bytes
  unread_le : rio_bufptr + rio_cnt.toNat ≤ rio_buf.length

namespace Rio

/-- what rio_buf still holds -/
def unread (rp : Rio) : Bytes := (rp.rio_buf.drop rp.rio_bufptr).take rp.rio_cnt.toNat

/-- all that is still to come -/
def left (rp : Rio) : Bytes := rp.unread ++ rp.fd.input

theorem emptied_le (rp : Rio) {cnt : ℤ} (h : cnt ≤ 0) : rp.rio_bufptr + cnt.toNat ≤ rp.rio_buf.length := by
  have := rp.unread_le
  omega

/-- rio_cnt after a read(2) without data -/
def emptied (rp : Rio) (fd : Fd) (cnt : ℤ) (h : cnt ≤ 0) : Rio :=
  ⟨fd, cnt, rp.rio_bufptr, rp.rio_buf, rp.emptied_le h⟩

/-- after a read(2) into rio_buf -/
def filled (fd : Fd) (bytes : Bytes) : Rio := ⟨fd, bytes.length, 0, bytes, (Nat.zero_add _).le⟩

theorem advanced_le (rp : Rio) (n : ℕ) :
    rp.rio_bufptr + min n rp.rio_cnt.toNat + (rp.rio_cnt - (min n rp.rio_cnt.toNat : ℕ)).toNat ≤ rp.rio_buf.length := by
  have := rp.unread_le
  omega

/-- `n` bytes, or all of them, are taken from rio_buf -/
def advanced (rp : Rio) (n : ℕ) : Rio :=
  ⟨rp.fd, rp.rio_cnt - (min n rp.rio_cnt.toNat : ℕ), rp.rio_bufptr + min n rp.rio_cnt.toNat, rp.rio_buf, rp.advanced_le n⟩

inductive Refilled where
  | ready
  | eof
  | error

/-- `while (rp->rio_cnt <= 0)` -/
def refillLoop : ℕ → Rio → Refilled × Rio
  | 0, rp => (.error, rp)
  | fuel + 1, rp =>
    if 0 < rp.rio_cnt then (.ready, rp)
    else
      match rp.fd.read RIO_BUFSIZE with
      | (.failed, fd) => (.error, rp.emptied fd (-1) neg_one_lt_zero.le)
      | (.interrupted, fd) => refillLoop fuel (rp.emptied fd (-1) neg_one_lt_zero.le)
      | (.got [], fd) => (.eof, rp.emptied fd 0 le_rfl)
      | (.got (b :: bs), fd) => (.ready, filled fd (b :: bs))

end Rio

/-- a read of `n` bytes through the buffer; each turn of the loop takes an interruption -/
def rio_read (n : ℕ) (rp : Rio) : Pulled UInt8 × Rio :=
  match rp.refillLoop (rp.fd.delays + 1) with
  | (.error, rp) => (.failed, rp)
  | (.eof, rp) => (.got [], rp)
  | (.ready, rp) => (.got (rp.unread.take n), rp.advanced n)

def rio_readinitb (fd : Fd) : Rio := ⟨fd, 0, 0, [], le_rfl⟩

namespace Rio

theorem unread_eq_nil {rp : Rio} : rp.unread = [] ↔ rp.rio_cnt ≤ 0 := by
  have := rp.unread_le
  rw [unread, List.take_eq_nil_iff, List.drop_eq_nil_iff]
  omega

theorem emptied_left (rp : Rio) (fd : Fd) {cnt : ℤ} (h : cnt ≤ 0) : (rp.emptied fd cnt h).left = fd.input := by
  rw [left, unread_eq_nil.2 h, List.nil_append]
  rfl

theorem filled_left (fd : Fd) (bytes : Bytes) : (filled fd bytes).left = bytes ++ fd.input := by
  have hunread : (filled fd bytes).unread = bytes := by
    change (bytes.drop 0).take ((bytes.length : ℤ).toNat) = bytes
    rw [List.drop_zero, Int.toNat_natCast, List.take_length]
  rw [left, hunread]
  rfl

/-- what is taken from rio_buf is no longer in it -/
theorem advanced_left (rp : Rio) (n : ℕ) : rp.left = rp.unread.take n ++ (rp.advanced n).left := by
  have hunread : (rp.advanced n).unread = rp.unread.drop n := by
    change (rp.rio_buf.drop (rp.rio_bufptr + min n rp.rio_cnt.toNat)).take _ = _
    rw [unread, List.drop_take, List.drop_drop]
    rcases Nat.le_total n rp.rio_cnt.toNat with hle | hle
    · rw [Nat.min_eq_left hle]
      congr 1
      change (rp.rio_cnt - (min n rp.rio_cnt.toNat : ℕ)).toNat = _
      omega
    · have hnone : rp.rio_cnt.toNat - n = 0 := by omega
      rw [hnone, List.take_zero, List.take_eq_nil_iff]
      left
      change (rp.rio_cnt - (min n rp.rio_cnt.toNat : ℕ)).toNat = _
      omega
  calc rp.left = rp.unread.take n ++ rp.unread.drop n ++ rp.fd.input := by rw [List.take_append_drop]; rfl
    _ = rp.unread.take n ++ (rp.advanced n).left := by rw [List.append_assoc, left, hunread]; rfl

/-- the ways in which the loop of rio_read ends; it takes nothing from what is left -/
inductive RefillEnd (rp : Rio) : Refilled × Rio → Prop where
  | ready {r : Rio} (hleft : r.left = rp.left) (hcnt : 0 < r.rio_cnt) (hfd : r.fd.script <:+ rp.fd.script) :
    RefillEnd rp (.ready, r)
  | eof {r : Rio} (hleft : r.left = rp.left) (hend : rp.left = []) (hfd : r.fd.script <:+ rp.fd.script) :
    RefillEnd rp (.eof, r)
  | error {r : Rio} (hleft : r.left = rp.left) (hfail : .fail ∈ rp.fd.script) : RefillEnd rp (.error, r)

theorem refillLoop_end {fuel : ℕ} {rp : Rio} (h : rp.fd.delays < fuel) : RefillEnd rp (rp.refillLoop fuel) := by
  induction fuel generalizing rp with
  | zero => exact absurd h (Nat.not_lt_zero _)
  | succ fuel ih =>
    unfold refillLoop
    by_cases hcnt : 0 < rp.rio_cnt
    · rw [if_pos hcnt]
      exact .ready rfl hcnt List.suffix_rfl
    · rw [if_neg hcnt]
      have hleft : rp.left = rp.fd.input := by rw [left, unread_eq_nil.2 (not_lt.1 hcnt), List.nil_append]
      have hscript := rp.fd.read_script RIO_BUFSIZE
      rcases hread : rp.fd.read RIO_BUFSIZE with ⟨bytes | _ | _, fd⟩
      · rw [hread] at hscript
        obtain ⟨m, -, hpos, rfl, hinput, -⟩ := Fd.read_got hread
        rcases hbytes : rp.fd.input.take m with _ | ⟨b, bs⟩
        · have hend : rp.fd.input = [] := (List.take_eq_nil_iff.1 hbytes).resolve_left (hpos (by decide))
          refine .eof ?_ (hleft.trans hend) hscript
          rw [emptied_left, hinput, hleft, hend, List.drop_nil]
        · refine .ready ?_ (by simp [filled]) hscript
          rw [filled_left, hinput, hleft, ← hbytes, List.take_append_drop]
      · obtain ⟨hinput, hdelays⟩ := Fd.read_interrupted hread
        rw [hread] at hscript
        have hempty : (rp.emptied fd (-1) neg_one_lt_zero.le).left = rp.left := by rw [emptied_left, hinput, hleft]
        have hloop := @ih (rp.emptied fd (-1) neg_one_lt_zero.le) (by change fd.delays < fuel; omega)
        dsimp only
        generalize (rp.emptied fd (-1) neg_one_lt_zero.le).refillLoop fuel = r at hloop ⊢
        cases hloop with
        | ready hl hc hfd => exact .ready (hl.trans hempty) hc (hfd.trans hscript)
        | eof hl he hfd => exact .eof (hl.trans hempty) (hempty.symm.trans he) (hfd.trans hscript)
        | error hl hf => exact .error (hl.trans hempty) (hscript.subset hf)
      · obtain ⟨hinput, hfail⟩ := Fd.read_failed hread
        exact .error (by rw [emptied_left, hinput, hleft]) hfail

/-- the ways in which rio_read ends -/
inductive ReadEnd (n : ℕ) (rp : Rio) : Pulled UInt8 × Rio → Prop where
  | got {r : Rio} (xs : Bytes) (hleft : rp.left = xs ++ r.left) (hle : xs.length ≤ n) (hend : xs = [] → n = 0 ∨ rp.left = [])
    (hfd : r.fd.script <:+ rp.fd.script) : ReadEnd n rp (.got xs, r)
  | failed {r : Rio} (hleft : r.left = rp.left) (hfail : .fail ∈ rp.fd.script) : ReadEnd n rp (.failed, r)

theorem rio_read_end (n : ℕ) (rp : Rio) : ReadEnd n rp (rio_read n rp) := by
  unfold rio_read
  have hloop := refillLoop_end (Nat.lt_succ_self rp.fd.delays)
  generalize rp.refillLoop (rp.fd.delays + 1) = r at hloop ⊢
  cases hloop with
  | @ready r hleft hcnt hfd =>
    refine .got _ (hleft.symm.trans (r.advanced_left n)) (List.length_take_le _ _) ?_ hfd
    intro hnil
    exact (List.take_eq_nil_iff.1 hnil).imp_right fun hunread => absurd (unread_eq_nil.1 hunread) (not_le.2 hcnt)
  | eof hleft hend hfd => exact .got [] hleft.symm (Nat.zero_le _) (fun _ => Or.inr hend) hfd
  | error hleft hfail => exact .failed hleft hfail

theorem read_got {n : ℕ} {rp r : Rio} {xs : Bytes} (h : rio_read n rp = (.got xs, r)) :
    rp.left = xs ++ r.left ∧ xs.length ≤ n ∧ (xs = [] → n = 0 ∨ rp.left = []) := by
  have hend := rp.rio_read_end n
  rw [h] at hend
  cases hend with
  | got _ hleft hle hend => exact ⟨hleft, hle, hend⟩

/-- rio_read is not interrupted -/
theorem read_uninterrupted {n : ℕ} {rp r : Rio} : rio_read n rp ≠ (.interrupted, r) := by
  intro h
  have hend := rp.rio_read_end n
  rw [h] at hend
  cases hend

end Rio

/-- **The buffer is a source.** -/
def rioSource : Source Rio UInt8 where
  read := rio_read
  left := Rio.left
  delays := fun _ => 0
  got_left := fun h => (Rio.read_got h).1
  got_le := fun h => (Rio.read_got h).2.1
  got_end := fun h => (Rio.read_got h).2.2 rfl
  got_delays := fun _ => rfl
  interrupted_left := fun h => absurd h Rio.read_uninterrupted
  interrupted_delays := fun h => absurd h Rio.read_uninterrupted
  failed_left := fun {n rp _} h => by
    have hend := rp.rio_read_end n
    rw [h] at hend
    cases hend with
    | failed hleft _ => exact hleft

theorem rioSource_steady : rioSource.Steady fun rp => rp.fd.Sound where
  succeeds := fun {n rp} h hread => by
    have hend := rp.rio_read_end n
    change (rio_read n rp).1 = _ at hread
    generalize rio_read n rp = r at hend hread
    cases hend with
    | got => cases hread
    | failed _ hfail => exact h hfail
  step := fun {n rp} h => by
    have hend := rp.rio_read_end n
    change (rio_read n rp).2.fd.Sound
    generalize rio_read n rp = r at hend
    cases hend with
    | got _ _ _ _ hfd => exact fun hf => h (hfd.subset hf)
    | failed _ hfail => exact absurd hfail h

/-! ## The calls of the package -/

/-- a call with a size up to which the callee can count: what rio_readnb returns is a ssize_t, and rio_readlineb counts in an
int -/
inductive Call where
  | readnb (n : ℕ) (counted : n < 2 ^ 63)
  | readlineb (maxlen : ℕ) (counted : maxlen < 2 ^ 31)

/-- the result of a call, what it has copied to the beginning of usrbuf, and whether it has put a NUL behind it -/
structure Reply where
  ret : ℤ
  copied : Bytes
  terminated : Bool
deriving DecidableEq, Repr

def rio_readnb (rp : Rio) (n : ℕ) (_counted : n < 2 ^ 63) : Reply × Rio :=
  let r := rioSource.collect n rp
  (⟨if r.failed then -1 else r.copied.length, r.copied, false⟩, r.state)

/-- what rio_readlineb returns for a line -/
def lineReply (copied : Bytes) : Source.Ending → Reply
  | .failed => ⟨-1, copied, false⟩
  | .ended => if copied = [] then ⟨0, [], false⟩ else ⟨copied.length, copied, true⟩
  | _ => ⟨copied.length, copied, true⟩

/-- `for (n = 1; n < maxlen; n++)`, where n is an int and maxlen a size_t: below 2^31 no n++ overflows -/
def rio_readlineb (rp : Rio) (maxlen : ℕ) (_counted : maxlen < 2 ^ 31) : Reply × Rio :=
  let r := rioSource.line (· = LF) (maxlen - 1) rp
  (lineReply r.copied r.ending, r.state)

def call (rp : Rio) : Call → Reply × Rio
  | .readnb n counted => rio_readnb rp n counted
  | .readlineb maxlen counted => rio_readlineb rp maxlen counted

def run : Rio → List Call → List Reply × Rio
  | rp, [] => ([], rp)
  | rp, o :: os =>
    let (reply, rp) := call rp o
    let (replies, rp) := run rp os
    (reply :: replies, rp)

/-- a call on the bytes themselves, with the bytes that it leaves -/
def direct (xs : Bytes) : Call → Reply × Bytes
  | .readnb n _ => (⟨(xs.take n).length, xs.take n, false⟩, xs.drop n)
  | .readlineb maxlen _ =>
    let (line, ending) := Source.lineOf (· = LF) (maxlen - 1) xs
    (lineReply line ending, xs.drop line.length)

def directRun : Bytes → List Call → List Reply × Bytes
  | xs, [] => ([], xs)
  | xs, o :: os =>
    let (reply, xs) := direct xs o
    let (replies, xs) := directRun xs os
    (reply :: replies, xs)

theorem lineReply_copied (copied : Bytes) (e : Source.Ending) : (lineReply copied e).copied = copied := by
  cases e with
  | ended =>
    unfold lineReply
    split_ifs with h
    · exact h.symm
    · rfl
  | _ => rfl

/-- a call copies what it takes -/
theorem call_left (rp : Rio) (o : Call) : rp.left = (call rp o).1.copied ++ (call rp o).2.left := by
  cases o with
  | readnb n counted => exact (rioSource.collect_spec n rp).1
  | readlineb maxlen counted =>
    change _ = (lineReply _ _).copied ++ _
    rw [lineReply_copied]
    exact (rioSource.line_spec (· = LF) (maxlen - 1) rp).1

/-- without failed reads a call is the call on the bytes -/
theorem call_direct {rp : Rio} (h : rp.fd.Sound) (o : Call) :
    (call rp o).1 = (direct rp.left o).1 ∧ (call rp o).2.left = (direct rp.left o).2 ∧ (call rp o).2.fd.Sound := by
  cases o with
  | readnb n counted =>
    obtain ⟨hcopied, hleft, hok, hsound⟩ := Source.collect_eq rioSource_steady n h
    refine ⟨?_, hleft, hsound⟩
    change Reply.mk (if (rioSource.collect n rp).failed then -1 else _) _ _ = _
    rw [hok, hcopied]
    rfl
  | readlineb maxlen counted =>
    obtain ⟨hline, hsplit, hsound⟩ := Source.line_eq (· = LF) rioSource_steady (maxlen - 1) h rfl
    obtain ⟨hcopied, hending⟩ := Prod.mk.inj hline
    refine ⟨?_, ?_, hsound⟩
    · change lineReply _ _ = lineReply _ _
      rw [hcopied, hending]
      rfl
    · set line := (Source.lineOf (· = LF) (maxlen - 1) rp.left).1
      have hsplit : rp.left = line ++ (call rp (.readlineb maxlen counted)).2.left := hsplit
      calc (call rp (.readlineb maxlen counted)).2.left
          = (line ++ (call rp (.readlineb maxlen counted)).2.left).drop line.length := List.drop_left.symm
        _ = rp.left.drop line.length := by rw [← hsplit]

/-- **Rio reads the stream.** Whatever a descriptor gives for each read(2): no sequence of calls of rio_readnb and
rio_readlineb, with sizes that they can count to, loses, repeats or reorders a byte, also where calls fail; and where no read
fails, interrupted calls and short counts are not seen, and every call returns what it returns on the bytes themselves. -/
theorem rio_reads_stream (rp : Rio) (os : List Call) :
    rp.left = (run rp os).1.flatMap Reply.copied ++ (run rp os).2.left ∧
      (rp.fd.Sound → (run rp os).1 = (directRun rp.left os).1 ∧ (run rp os).2.left = (directRun rp.left os).2) := by
  induction os generalizing rp with
  | nil => exact ⟨rfl, fun _ => ⟨rfl, rfl⟩⟩
  | cons o os ih =>
    obtain ⟨hsplit, hsame⟩ := ih (call rp o).2
    refine ⟨?_, ?_⟩
    · calc rp.left = (call rp o).1.copied ++ (call rp o).2.left := call_left rp o
        _ = (run rp (o :: os)).1.flatMap Reply.copied ++ (run rp (o :: os)).2.left := by
          rw [hsplit, ← List.append_assoc]; rfl
    · intro h
      obtain ⟨hreply, hleft, hsound⟩ := call_direct h o
      obtain ⟨hreplies, hrest⟩ := hsame hsound
      rw [hleft] at hreplies hrest
      change (call rp o).1 :: (run (call rp o).2 os).1 = (direct rp.left o).1 :: _ ∧ _
      rw [hreply, hreplies]
      exact ⟨rfl, hrest⟩

/-! ## The arrays of the callers -/

/-- the text of a char array up to its NUL -/
def cString (s : Bytes) : Bytes := s.takeWhile (· ≠ 0)

/-- a call has stored this much of the array `buf` -/
def Reply.store (r : Reply) (buf : Bytes) : Bytes :=
  let stored := r.copied ++ if r.terminated then [0] else []
  stored ++ buf.drop stored.length

/-- the text that a line leaves in an array -/
theorem cString_store (n : ℤ) (line buf : Bytes) : cString ((Reply.mk n line true).store buf) = cString line := by
  have hnul : ∀ rest : Bytes, cString (line ++ 0 :: rest) = cString line := by
    intro rest
    induction line with
    | nil => rfl
    | cons c line ih =>
      simp only [cString, List.cons_append, List.takeWhile_cons] at ih ⊢
      split_ifs
      · rw [ih]
      · rfl
  unfold Reply.store
  rw [if_pos rfl, List.append_assoc]
  exact hnul _

theorem cString_store_nil (n : ℤ) (buf : Bytes) : (Reply.mk n [] false).store buf = buf := by
  simp [Reply.store]

end Csapp

end Glacier
