/-
The clients of a loop, each with its own conversation.

A client that waits for each response before it sends the next request is served by the loop as by a connection of its own:
what the loop does with other clients in the meantime, and with the timers and the descriptors, is not seen.
- `fresh_serves`: the conversation with a connection alone;
- `clients_served`: the same in every run of a loop, at its end and at every moment before it.
-/
import Glacier.Http.Exchange
import Glacier.Net.ConnectionCalls

namespace Glacier

open Cxx

namespace Observed

theorem fresh_new (fd : ℕ) : (Ctx.fresh fd).New := ⟨⟨rfl, rfl, rfl, rfl, rfl, rfl⟩, rfl, rfl⟩

/-- the calls of a conversation on a new connection -/
theorem fresh_serves (fd : ℕ) {xs : List Exchange} (hxs : ∀ x ∈ xs, x.Drains) :
    ∃ d, Machine.run Ctx.call (.fresh fd) (xs.flatMap Exchange.calls) = some d ∧
      d.io.sent = xs.flatMap Exchange.response ∧ d.io.requests = xs.map Exchange.accepted := by
  obtain ⟨d, hd, -, hsent, hrequests, -⟩ := Ctx.exchanges_served (fresh_new fd) rfl hxs
  exact ⟨d, hd, hsent, hrequests⟩

/-- **The clients of a loop are served.** In every run of a loop, a connection whose calls so far begin a conversation
has sent a beginning of its responses and accepted the first of its requests; it has sent and accepted them all once
the calls are complete. -/
theorem clients_served {s : Observed} {ops : List Descriptors.Op} (hrun : Machine.run step init ops = some s) (c : ConnId)
    (hc : c < s.nextConn) (xs : List Exchange) (hxs : ∀ x ∈ xs, x.Drains)
    (hcalls : s.calls c <+: xs.flatMap Exchange.calls) :
    s.sent c <+: xs.flatMap Exchange.response ∧ s.requests c <+: xs.map Exchange.accepted ∧
      (s.calls c = xs.flatMap Exchange.calls →
        s.sent c = xs.flatMap Exchange.response ∧ s.requests c = xs.map Exchange.accepted) := by
  obtain ⟨ctx, hctx⟩ := (run_inv hrun).told c hc
  obtain ⟨d, hd, hsent, hrequests⟩ := fresh_serves (s.conns c).fd hxs
  rw [← hctx.sent, ← hctx.requests, ← hsent, ← hrequests]
  obtain ⟨rest, hrest⟩ := hcalls
  rw [← hrest] at hd
  obtain ⟨e, he, hgo⟩ := Machine.run_append.1 hd
  obtain rfl : ctx = e := Option.some.inj (hctx.run.symm.trans he)
  obtain ⟨hsent', hrequests'⟩ := Ctx.calls_grow hgo
  refine ⟨hsent', hrequests', ?_⟩
  intro hall
  -- nothing is left of the conversation
  rw [← hall] at hrest
  obtain rfl : rest = [] := List.append_right_eq_self.1 hrest
  obtain rfl : ctx = d := Option.some.inj hgo
  exact ⟨rfl, rfl⟩

/-- the conversation of one connection: its request in two parts, between which another connection is served and closed, and
the response in three -/
def amongOthers : List Descriptors.Op :=
  let fs : FileSystem := fun _ => .regular (ascii "hello")
  let again : List Descriptors.Op := [.callback [] [] fs ⟨0, 0⟩ true, .doPendingFunctors]
  let expired (t : Timer) : Descriptors.Op := .handleExpired (some t) ⟨0, 0⟩ true
  [.accept 5] ++ registers ++ [expired ⟨0, false, 2000, some 0⟩, .accept 6] ++ registers ++
    [expired ⟨0, false, 2000, some 0⟩, .poll [(5, EPOLLIN), (6, EPOLLIN)], .handleEvents,
      .callback [.intr, .data (ascii "GET / HTTP/1.1\r\nHo"), .again] [.wrote 50, .again] fs ⟨0, 0⟩ true,
      .callback [] [] fs ⟨0, 0⟩ true, .handleEvents,
      .callback [.data (ascii "BAD\r\n"), .again] [.wrote 1000] fs ⟨0, 0⟩ true] ++ again ++
    [expired ⟨0, true, 2000, none⟩, expired ⟨1, true, 2000, none⟩, expired ⟨2, false, 150000, some 0⟩,
      .poll [(5, EPOLLIN)], .handleEvents,
      .callback [.data (ascii "st: a\r\n\r\n"), .again] [.wrote 50, .again] fs ⟨0, 0⟩ true] ++ again ++
    [expired ⟨3, false, 2000, some 0⟩, .poll [(5, EPOLLOUT)], .handleEvents,
      .callback [] [.intr, .wrote 40, .again] fs ⟨0, 0⟩ true] ++ again ++
    [expired ⟨3, true, 2000, none⟩, expired ⟨4, false, 2000, some 0⟩, .poll [(5, EPOLLOUT)], .handleEvents,
      .callback [] [.wrote 1000] fs ⟨0, 0⟩ true]

set_option maxRecDepth 20000 in
theorem clients_served_once : ∃ s, Machine.run step init amongOthers = some s ∧ 0 < s.nextConn ∧
    s.sent 0 = Ctx.getIndexInParts.response ∧ s.requests 0 = [Ctx.getIndexInParts.accepted] := by
  have hnext : (Machine.run step init amongOthers).map (fun s => s.nextConn) = some 2 := by decide +kernel
  have hcalls : (Machine.run step init amongOthers).map (fun s => s.calls 0) = some Ctx.getIndexInParts.calls := by rfl
  obtain ⟨s, hrun, hs⟩ := Option.map_eq_some_iff.1 hnext
  rw [hrun] at hcalls
  have hself : s.calls 0 = [Ctx.getIndexInParts].flatMap Exchange.calls := by
    simpa using hcalls
  have hpos : 0 < s.nextConn := by rw [hs]; decide
  have hdrains : ∀ x ∈ [Ctx.getIndexInParts], x.Drains := by
    simpa using (⟨by decide +kernel, by decide +kernel⟩ : Ctx.getIndexInParts.Drains)
  obtain ⟨hsent, hrequests⟩ :=
    (clients_served hrun 0 hpos [Ctx.getIndexInParts] hdrains (hself ▸ List.prefix_rfl)).2.2 hself
  exact ⟨s, hrun, hpos, by simpa using hsent, by simpa using hrequests⟩

end Observed

end Glacier
