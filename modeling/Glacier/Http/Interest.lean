/-
What handleRead and handleWrite leave for handleConn: the interest mask, the connection state and the timer.
- `Watched`: the descriptor and the kernel's side of the mask are untouched, the connection is not closed, and the timer
  is either left alone or detached;
- `HttpData.MaskOk`, `HttpData.Asks`: without an error the mask is 0 or EPOLLOUT, and unsent output asks for EPOLLOUT;
- `handleRead_interest`, `handleWrite_interest`: both callbacks leave the connection so.
-/
import Glacier.Http.ReadLoop

namespace Glacier

open Cxx

theorem has_or_self (ev bit : Events) (h : bit ≠ 0) : has (ev ||| bit) bit = true := by
  have habsorb : (ev ||| bit) &&& bit = bit := by
    ext i hi
    simp only [BitVec.getElem_and, BitVec.getElem_or]
    cases bit[i] <;> simp
  simp only [has, habsorb, bne_iff_ne]
  exact h

/-- unsent output asks for EPOLLOUT, unless there was an error -/
def HttpData.Asks (h : HttpData) : Prop := h.error = false → h.outBuffer ≠ [] → has h.channel.events EPOLLOUT = true

/-- without an error the mask is what handleEvents has set, or asks for EPOLLOUT -/
def HttpData.MaskOk (h : HttpData) : Prop := h.error = false → h.channel.events = 0 ∨ h.channel.events = EPOLLOUT

namespace Ctx

/-- what a callback keeps for the loop -/
structure Watched (c d : Ctx) : Prop where
  fd : d.http.fd = c.http.fd
  revents : d.http.channel.revents = c.http.channel.revents
  lastevents : d.http.channel.lastevents = c.http.channel.lastevents
  connstate : c.http.connstate ≠ .disconnected → d.http.connstate ≠ .disconnected
  mask : c.http.MaskOk → d.http.MaskOk
  timer : (d.timers = c.timers ∧ d.http.timer = c.http.timer) ∨
    (d.timers = resetTimer c.timers c.http.timer ∧ d.http.timer = none)

theorem Watched.trans {c d e : Ctx} (h1 : Watched c d) (h2 : Watched d e) : Watched c e where
  fd := h2.fd.trans h1.fd
  revents := h2.revents.trans h1.revents
  lastevents := h2.lastevents.trans h1.lastevents
  connstate := fun h => h2.connstate (h1.connstate h)
  mask := fun h => h2.mask (h1.mask h)
  timer := by
    rcases h1.timer with ⟨ht1, hn1⟩ | ⟨ht1, hn1⟩
    · rw [← ht1, ← hn1]; exact h2.timer
    · right
      rcases h2.timer with ⟨ht2, hn2⟩ | ⟨ht2, hn2⟩
      · exact ⟨ht2.trans ht1, hn2.trans hn1⟩
      · rw [hn1, resetTimer_none] at ht2
        exact ⟨ht2.trans ht1, hn2⟩

theorem Watched.refl (c : Ctx) : Watched c c := ⟨rfl, rfl, rfl, id, id, Or.inl ⟨rfl, rfl⟩⟩

theorem Kept.watched {c d : Ctx} (h : Kept c d) : Watched c d where
  fd := h.fd
  revents := by rw [h.channel]
  lastevents := by rw [h.channel]
  connstate := by rw [h.connstate]; exact id
  mask := fun hc he => by
    rw [h.channel]
    apply hc (Bool.eq_false_iff.2 _)
    intro ht
    rw [h.error ht] at he
    cases he
  timer := Or.inl ⟨h.timers, h.timer⟩

theorem reset_watched (c : Ctx) : Watched c c.reset := ⟨rfl, rfl, rfl, id, id, Or.inr ⟨rfl, rfl⟩⟩

theorem readIn_watched (c : Ctx) : Watched c c.readIn.2.2 := ⟨rfl, rfl, rfl, id, id, Or.inl ⟨rfl, rfl⟩⟩

theorem receive_watched (c : Ctx) : Watched c c.receive := by
  have hread := c.readIn_watched
  have hcases := c.receive_cases
  generalize c.receive = d at hcases ⊢
  cases hcases with
  | closing _ => exact hread.trans ⟨rfl, rfl, rfl, id, id, Or.inl ⟨rfl, rfl⟩⟩
  | failed _ => exact hread.trans ⟨rfl, rfl, rfl, id, fun _ he => (by cases he), Or.inl ⟨rfl, rfl⟩⟩
  | eof _ => exact hread.trans ⟨rfl, rfl, rfl, fun _ => by simp, id, Or.inl ⟨rfl, rfl⟩⟩
  | last _ =>
    have heof : Watched c.readIn.2.2 { c.readIn.2.2 with http := { c.readIn.2.2.http with connstate := .disconnecting } } :=
      ⟨rfl, rfl, rfl, fun _ => by simp, id, Or.inl ⟨rfl, rfl⟩⟩
    exact hread.trans (heof.trans (process_kept _).watched)
  | more _ => exact hread.trans (process_kept _).watched

theorem Wrote.interest {c d : Ctx} (h : Wrote c d) (hconn : c.http.connstate ≠ .disconnected) :
    Watched c d ∧ d.http.Asks := by
  obtain ⟨ev, err, out, hhttp, htimers, -, -, hev⟩ := h
  refine ⟨⟨by rw [hhttp], by rw [hhttp]; rfl, by rw [hhttp]; rfl, fun h => by rw [hhttp]; exact h, ?_,
    Or.inl ⟨htimers, by rw [hhttp]⟩⟩, ?_⟩
  · intro hmask he
    rw [hhttp] at he ⊢
    obtain ⟨hce, hev, -⟩ := hev he
    show ev = 0 ∨ ev = EPOLLOUT
    rcases hev with rfl | rfl
    · exact hmask hce
    · rcases hmask hce with h | h <;> rw [h] <;> decide
  · intro he hout
    rw [hhttp] at he hout ⊢
    show has ev EPOLLOUT = true
    rw [(hev he).2.2 hconn hout]
    exact has_or_self _ _ (by decide)

/-- **The write callback.** -/
theorem handleWrite_interest (c : Ctx) (hconn : c.http.connstate ≠ .disconnected) :
    Watched c c.handleWrite ∧ c.handleWrite.http.Asks :=
  c.handleWrite_frame.interest hconn

theorem respond_interest (c : Ctx) (hconn : c.http.connstate ≠ .disconnected) :
    Watched c c.respond.1 ∧ c.respond.1.http.Asks := by
  obtain ⟨hflush, hasks⟩ := c.flush_frame.interest hconn
  have hcases := c.respond_cases
  generalize c.respond = r at hcases ⊢
  cases hcases with
  | failed he => exact ⟨.refl c, fun hf => absurd (he.symm.trans hf) (by simp)⟩
  | finished _ _ _ _ _ => exact ⟨hflush.trans (reset_watched _), hasks⟩
  | waiting _ => exact ⟨hflush, hasks⟩
  | closed _ hd => exact absurd hd hconn

theorem handleReadOnce_interest (c : Ctx) (hconn : c.http.connstate ≠ .disconnected) :
    Watched c c.handleReadOnce.1 ∧ c.handleReadOnce.1.http.Asks := by
  have hreceive := c.receive_watched
  obtain ⟨hrespond, hasks⟩ := c.receive.respond_interest (hreceive.connstate hconn)
  exact ⟨hreceive.trans hrespond, hasks⟩

theorem handleReadLoop_interest (fuel : ℕ) (c : Ctx) (hconn : c.http.connstate ≠ .disconnected) :
    Watched c (handleReadLoop (fuel + 1) c) ∧ (handleReadLoop (fuel + 1) c).http.Asks := by
  induction fuel generalizing c with
  | zero =>
    obtain ⟨hwatched, hasks⟩ := c.handleReadOnce_interest hconn
    unfold handleReadLoop
    rcases ho : c.handleReadOnce with ⟨d, again⟩
    rw [ho] at hwatched hasks
    cases again <;> exact ⟨hwatched, hasks⟩
  | succ fuel ih =>
    obtain ⟨hwatched, hasks⟩ := c.handleReadOnce_interest hconn
    unfold handleReadLoop
    rcases ho : c.handleReadOnce with ⟨d, again⟩
    rw [ho] at hwatched hasks
    cases again with
    | false => exact ⟨hwatched, hasks⟩
    | true =>
      obtain ⟨hrest, hasks'⟩ := ih d (hwatched.connstate hconn)
      exact ⟨hwatched.trans hrest, hasks'⟩

/-- **The read callback**, over all the requests that it handles. -/
theorem handleRead_interest (c : Ctx) (hconn : c.http.connstate ≠ .disconnected) :
    Watched c c.handleRead ∧ c.handleRead.http.Asks := handleReadLoop_interest (c.pending + 1) c hconn

/-! ## Connections in any state -/

/-- a callback leaves the last mask alone, and does not reopen the connection -/
structure Steady (c d : Ctx) : Prop where
  lastevents : d.http.channel.lastevents = c.http.channel.lastevents
  connected : d.http.connstate = .connected → c.http.connstate = .connected

theorem Steady.trans {c d e : Ctx} (h1 : Steady c d) (h2 : Steady d e) : Steady c e where
  lastevents := h2.lastevents.trans h1.lastevents
  connected := fun h => h1.connected (h2.connected h)

theorem Wrote.steady {c d : Ctx} (h : Wrote c d) : Steady c d := by
  obtain ⟨ev, err, out, hhttp, -⟩ := h
  refine ⟨?_, ?_⟩
  · rw [hhttp]; rfl
  · intro hd
    rw [hhttp] at hd; exact hd

theorem process_steady (c : Ctx) : Steady c c.process := by
  have hkept := c.process_kept
  refine ⟨congrArg Channel.lastevents hkept.channel, ?_⟩
  intro h
  rw [← hkept.connstate]; exact h

theorem receive_steady (c : Ctx) : Steady c c.receive := by
  refine ⟨c.receive_watched.lastevents, ?_⟩
  have hread : c.readIn.2.2.http.connstate = c.http.connstate := rfl
  have hcases := c.receive_cases
  generalize c.receive = d at hcases ⊢
  cases hcases with
  | closing _ => exact fun h => hread.symm.trans h
  | failed _ => exact fun h => hread.symm.trans h
  | eof _ => exact fun h => nomatch h
  | last _ => exact fun h => nomatch (process_steady _).connected h
  | more _ => exact fun h => hread.symm.trans ((process_steady _).connected h)

theorem respond_steady (c : Ctx) : Steady c c.respond.1 :=
  c.respond_ends (P := Steady c) ⟨rfl, id⟩ c.flush_frame.steady (fun _ h => h.trans ⟨rfl, id⟩)
    (fun _ _ h => h.trans ⟨rfl, id⟩)

theorem handleRead_steady (c : Ctx) : Steady c c.handleRead := by
  refine handleRead_rel (fun c => ⟨rfl, id⟩) (fun c d e h1 h2 => h1.trans h2) ?_ c
  exact fun c => c.receive_steady.trans c.receive.respond_steady

/-- **The mask of an open connection**, after the read callback -/
theorem handleRead_maskOk (c : Ctx) (hmask : c.http.connstate = .connected → c.http.MaskOk)
    (hopen : c.handleRead.http.connstate = .connected) : c.handleRead.http.MaskOk := by
  have hconn : c.http.connstate = .connected := c.handleRead_steady.connected hopen
  obtain ⟨hwatched, -⟩ := c.handleRead_interest (by rw [hconn]; simp)
  exact hwatched.mask (hmask hconn)

/-- and after the write callback -/
theorem handleWrite_maskOk (c : Ctx) (hmask : c.http.connstate = .connected → c.http.MaskOk)
    (hopen : c.handleWrite.http.connstate = .connected) : c.handleWrite.http.MaskOk := by
  have hconn : c.http.connstate = .connected := c.handleWrite_frame.steady.connected hopen
  obtain ⟨hwatched, -⟩ := c.handleWrite_interest (by rw [hconn]; simp)
  exact hwatched.mask (hmask hconn)

end Ctx

end Glacier
