/-
writen (utils.cc) on a string: the loop over write(2), and what is left of the string.

The loop ends with the string, or when the socket would block. The number of bytes sent is then compared with the size of the
string as an int, and where they are equal the string is cleared.
- `writeLoop_taken`: the loop sends the bytes from the front, and counts them;
- `writeLoop_offered`: how many it sends, by what the socket offers to take;
- `writen_exact_iff`: writen leaves what it has not sent, exactly unless it stops early after as many bytes as the size is as
  an int;
- `forgets_four_gigabytes`: a string of 2^32 + 5 bytes of which 5 are sent.
-/
import Glacier.Http.Connection

namespace Glacier

open Cxx HttpData

namespace Ctx

/-! ## The loop -/

/-- writen sends the bytes from the front, and counts them -/
theorem writeLoop_taken (ws : List WriteResult) (ptr : Bytes) (sum : ℕ) :
    (writeLoop ws ptr sum).2.1 <+: ptr ∧
      ∀ n, (writeLoop ws ptr sum).1 = some n → n = sum + (writeLoop ws ptr sum).2.1.length := by
  induction ws generalizing ptr sum with
  | nil => exact ⟨List.nil_prefix, by simp [writeLoop, eq_comm]⟩
  | cons w ws ih =>
    unfold writeLoop
    by_cases hptr : ptr = []
    · rw [if_pos hptr]
      exact ⟨List.nil_prefix, by simp [eq_comm]⟩
    · rw [if_neg hptr]
      cases w with
      | intr => exact ih ptr sum
      | again => exact ⟨List.nil_prefix, by simp [eq_comm]⟩
      | fail => exact ⟨List.nil_prefix, by simp⟩
      | wrote k =>
        obtain ⟨hpre, hcount⟩ := ih (ptr.drop (min k ptr.length)) (sum + min k ptr.length)
        dsimp only
        refine ⟨?_, ?_⟩
        · obtain ⟨rest, hrest⟩ := hpre
          refine ⟨rest, ?_⟩
          rw [List.append_assoc, hrest, List.take_append_drop]
        · intro n hn
          have hsum := hcount n hn
          have htake : (ptr.take (min k ptr.length)).length = min k ptr.length := by simp
          calc n = sum + min k ptr.length + _ := hsum
            _ = sum + ((ptr.take (min k ptr.length)).length + _) := by rw [htake, Nat.add_assoc]
            _ = _ := by rw [← List.length_append]

/-- what the loop has sent when it returns a number -/
theorem writeLoop_some {ws : List WriteResult} {buf : Bytes} {n : ℕ} (h : (writeLoop ws buf 0).1 = some n) :
    n ≤ buf.length ∧ (writeLoop ws buf 0).2.1 = buf.take n := by
  obtain ⟨hpre, hcount⟩ := writeLoop_taken ws buf 0
  have hn : n = (writeLoop ws buf 0).2.1.length := (hcount n h).trans (Nat.zero_add _)
  refine ⟨hn ▸ hpre.length_le, ?_⟩
  rw [hn]
  exact List.prefix_iff_eq_take.1 hpre

/-- the bytes that the socket offers to take until it would block -/
def offered : List WriteResult → ℕ
  | [] => 0
  | .wrote n :: ws => n + offered ws
  | .intr :: ws => offered ws
  | .again :: _ => 0
  | .fail :: _ => 0

/-- the loop sends what is offered, or all there is -/
theorem writeLoop_offered {ws : List WriteResult} (h : .fail ∉ ws) (ptr : Bytes) (sum : ℕ) :
    (writeLoop ws ptr sum).1 = some (sum + min (offered ws) ptr.length) := by
  induction ws generalizing ptr sum with
  | nil => simp [writeLoop, offered]
  | cons w ws ih =>
    have hws : .fail ∉ ws := fun hc => h (List.mem_cons_of_mem _ hc)
    unfold writeLoop
    by_cases hptr : ptr = []
    · simp [hptr]
    · rw [if_neg hptr]
      cases w with
      | intr => exact ih hws ptr sum
      | again => simp [offered]
      | fail => exact absurd List.mem_cons_self h
      | wrote n =>
        dsimp only
        rw [ih hws, List.length_drop, offered]
        congr 1
        omega

/-- writen fails only where a write fails -/
theorem writeLoop_ok {ws : List WriteResult} (h : .fail ∉ ws) (ptr : Bytes) (sum : ℕ) :
    ∃ n, (writeLoop ws ptr sum).1 = some n := ⟨_, writeLoop_offered h ptr sum⟩

/-! ## The string -/

/-- what writen leaves of a string of which it has sent `n` bytes -/
def unsent (n : ℕ) (buf : Bytes) : Bytes := if (n : ℤ) = toInt buf.length then [] else buf.drop n

theorem unsent_eq_drop_iff {n : ℕ} {buf : Bytes} :
    unsent n buf = buf.drop n ↔ ¬ (n < buf.length ∧ (n : ℤ) = toInt buf.length) := by
  unfold unsent
  split_ifs with hint
  · rw [eq_comm, List.drop_eq_nil_iff]
    constructor
    · exact fun hle hc => absurd hc.1 (not_lt.2 hle)
    · exact fun hc => not_lt.1 fun hlt => hc ⟨hlt, hint⟩
  · simp [hint]

theorem writeOut_none {c d : Ctx} (h : c.writeAll c.http.outBuffer = (none, d)) : c.writeOut = (none, d) := by
  rw [writeOut, h]

theorem writeOut_some {c d : Ctx} {n : ℕ} (h : c.writeAll c.http.outBuffer = (some n, d)) :
    c.writeOut = (some n, { d with http := { d.http with outBuffer := unsent n c.http.outBuffer } }) := by
  rw [writeOut, h]
  rfl

/-- writen gives up and leaves the connection, or takes a part of outBuffer_ -/
theorem writeOut_cases (c : Ctx) :
    c.writeOut = (none, (c.writeAll c.http.outBuffer).2) ∨
      ∃ n out, c.writeOut = (some n, { (c.writeAll c.http.outBuffer).2 with http := { c.http with outBuffer := out } }) ∧
        (writeLoop c.io.writes c.http.outBuffer 0).1 = some n ∧ out = unsent n c.http.outBuffer := by
  have hhttp := c.writeAll_http c.http.outBuffer
  rcases hw : c.writeAll c.http.outBuffer with ⟨_ | n, d⟩
  · exact Or.inl (writeOut_none hw)
  · rw [hw] at hhttp
    have hhttp : d.http = c.http := hhttp
    refine Or.inr ⟨n, _, ?_, congrArg Prod.fst hw, rfl⟩
    rw [writeOut_some hw, hhttp]

/-- writen returns the number of bytes that the socket has accepted, these are the first of the string, and the string that
is left is the rest -/
structure Exact (c : Ctx) (r : ℕ) (d : Ctx) : Prop where
  returns : c.writeOut = (some r, d)
  sent : d.io.sent = c.io.sent ++ c.http.outBuffer.take r
  left : d.http.outBuffer = c.http.outBuffer.drop r

/-- writen on a socket that does not fail -/
theorem writeOut_offered {c : Ctx} (h : .fail ∉ c.io.writes) :
    ∃ d, c.writeOut = (some (min (offered c.io.writes) c.http.outBuffer.length), d) ∧
      d.io.sent = c.io.sent ++ c.http.outBuffer.take (min (offered c.io.writes) c.http.outBuffer.length) ∧
      d.http.outBuffer = unsent (min (offered c.io.writes) c.http.outBuffer.length) c.http.outBuffer := by
  have hret := writeLoop_offered h c.http.outBuffer 0
  rw [Nat.zero_add] at hret
  have htaken := (writeLoop_some hret).2
  generalize min (offered c.io.writes) c.http.outBuffer.length = r at hret htaken ⊢
  have hw : c.writeAll c.http.outBuffer = (some r, (c.writeAll c.http.outBuffer).2) := Prod.ext hret rfl
  refine ⟨_, writeOut_some hw, ?_, ?_⟩
  · rw [← htaken]
    rfl
  · dsimp only

/-- **writen loses nothing exactly when it does not stop early at a number that is the size as an int.** -/
theorem writen_exact_iff (c : Ctx) (h : .fail ∉ c.io.writes) :
    (∃ r d, Exact c r d) ↔
      ¬ (offered c.io.writes < c.http.outBuffer.length ∧ (offered c.io.writes : ℤ) = toInt c.http.outBuffer.length) := by
  obtain ⟨d, hw, hsent, hleft⟩ := writeOut_offered h
  generalize hr : min (offered c.io.writes) c.http.outBuffer.length = r at hw hsent hleft
  have hstop : (r < c.http.outBuffer.length ∧ (r : ℤ) = toInt c.http.outBuffer.length) ↔
      offered c.io.writes < c.http.outBuffer.length ∧ (offered c.io.writes : ℤ) = toInt c.http.outBuffer.length := by
    constructor
    · rintro ⟨hlt, hint⟩
      have heq : offered c.io.writes = r := by omega
      rw [heq]
      exact ⟨hlt, hint⟩
    · rintro ⟨hlt, hint⟩
      have heq : offered c.io.writes = r := by omega
      rw [heq] at hlt hint
      exact ⟨hlt, hint⟩
  rw [← hstop, ← unsent_eq_drop_iff, ← hleft]
  constructor
  · rintro ⟨r', d', hexact⟩
    have heq := hw.symm.trans hexact.returns
    rw [Prod.mk.injEq, Option.some.injEq] at heq
    obtain ⟨rfl, rfl⟩ := heq
    exact hexact.left
  · exact fun hdrop => ⟨r, d, hw, hsent, hdrop⟩

/-- a connection with this text to send, on a socket with these results -/
def sending (outBuffer : Bytes) (writes : List WriteResult) : Ctx :=
  ⟨{ HttpData.new 5 with outBuffer := outBuffer }, ⟨[], writes, fun _ => .absent, [], [], false⟩, []⟩

theorem writen_exact_iff_partial :
    ∃ r d, Exact (sending (ascii "abcdef") [.intr, .wrote 2, .wrote 0, .wrote 1, .again, .wrote 9]) r d :=
  (writen_exact_iff _ (by decide)).2 (by decide)

/-- 2^32 + 5 bytes of which the socket takes 5 -/
theorem forgets_four_gigabytes :
    ¬ ∃ r d, Exact (sending (List.replicate (2 ^ 32 + 5) 0) [.wrote 5, .again]) r d := by
  rintro ⟨r, d, hexact⟩
  set c := sending (List.replicate (2 ^ 32 + 5) 0) [.wrote 5, .again] with hc
  have hbuf : c.http.outBuffer = List.replicate (2 ^ 32 + 5) 0 := rfl
  have hlen : c.http.outBuffer.length = 2 ^ 32 + 5 := by rw [hbuf, List.length_replicate]
  have hoffered : offered c.io.writes = 5 := rfl
  obtain ⟨d', hw, -, hleft⟩ := writeOut_offered (c := c) (by rw [hc]; decide)
  rw [hlen, hoffered] at hw hleft
  have heq := hw.symm.trans hexact.returns
  rw [Prod.mk.injEq, Option.some.injEq] at heq
  obtain ⟨hr, rfl⟩ := heq
  have hdrop := hleft.symm.trans hexact.left
  rw [← hr] at hdrop
  refine unsent_eq_drop_iff.1 hdrop ?_
  rw [hlen]
  decide

end Ctx

end Glacier
