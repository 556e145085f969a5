/-
Opening a socket: open_clientfd and open_listenfd, in glacier (utils.cc) and in csapp (csapp.c).

Both walk over the addresses that getaddrinfo has found and take the first one that works. The two programs differ in what
they do about a failed getaddrinfo or close: csapp prints a message and returns, glacier's LOG_FATAL aborts. A call of
close(2) takes its descriptor away, also if it fails.
- `Held`, `use`: what the calls may be made with: the list of addresses until it is freed, and one socket until it is closed;
- `opens_first`: the calls keep to these rules and leave nothing open but the descriptor that is returned, and which one
  that is.
-/
import Glacier.Lib.Machine

namespace Glacier.OpenSocket

/-- what the calls for one address give; the second is connect(2) or bind(2) -/
structure Address where
  socket : Option ℕ
  works : Bool
  closes : Bool
deriving DecidableEq, Repr

inductive Call where
  | getaddrinfo (ok : Bool)
  | socket (fd : Option ℕ)
  | setsockopt (fd : ℕ)
  | connect (fd : ℕ)
  | bind (fd : ℕ)
  | listen (fd : ℕ)
  | close (fd : ℕ)
  | freeaddrinfo
deriving DecidableEq, Repr

inductive Outcome where
  | returned (rc : ℤ)
  | aborted
deriving DecidableEq, Repr

inductive Program where
  | csapp
  | glacier
deriving DecidableEq, Repr

/-- the message of an error that is not passed over -/
def Program.fatal : Program → ℤ → Outcome
  | .csapp, rc => .returned rc
  | .glacier, _ => .aborted

inductive Side where
  | client
  /-- with the result of listen(2) -/
  | server (listens : Bool)
deriving DecidableEq, Repr

/-- what is done with a new socket -/
def Side.attempt : Side → ℕ → List Call
  | .client, fd => [.connect fd]
  | .server _, fd => [.setsockopt fd, .bind fd]

/-- what is done with the socket of the address that works -/
def Side.finish : Side → ℕ → List Call × Outcome
  | .client, fd => ([], .returned fd)
  | .server true, fd => ([.listen fd], .returned fd)
  | .server false, fd => ([.listen fd, .close fd], .returned (-1))

inductive Walk where
  | found (fd : ℕ)
  | exhausted
  | closeFailed
deriving DecidableEq, Repr

/-- `for (p = listp; p; p = p->ai_next)` -/
def walk (side : Side) : List Address → List Call × Walk
  | [] => ([], .exhausted)
  | a :: rest =>
    match a.socket with
    | none => (.socket none :: (walk side rest).1, (walk side rest).2)
    | some fd =>
      if a.works then (.socket fd :: side.attempt fd, .found fd)
      else if a.closes then
        (.socket fd :: (side.attempt fd ++ .close fd :: (walk side rest).1), (walk side rest).2)
      else (.socket fd :: (side.attempt fd ++ [.close fd]), .closeFailed)

/-- `lookup` is the list of getaddrinfo, if it succeeds -/
def openSocket (program : Program) (side : Side) (lookup : Option (List Address)) : List Call × Outcome :=
  match lookup with
  | none => ([.getaddrinfo false], program.fatal (-2))
  | some addresses =>
    let (calls, result) := walk side addresses
    match result with
    | .closeFailed => (.getaddrinfo true :: calls, program.fatal (-1))
    | .exhausted => (.getaddrinfo true :: (calls ++ [.freeaddrinfo]), .returned (-1))
    | .found fd => (.getaddrinfo true :: (calls ++ .freeaddrinfo :: (side.finish fd).1), (side.finish fd).2)

def open_clientfd (lookup : Option (List Address)) : List Call × Outcome := openSocket .glacier .client lookup

def open_listenfd (lookup : Option (List Address)) (listens : Bool) : List Call × Outcome :=
  openSocket .glacier (.server listens) lookup

def Csapp.open_clientfd (lookup : Option (List Address)) : List Call × Outcome := openSocket .csapp .client lookup

def Csapp.open_listenfd (lookup : Option (List Address)) (listens : Bool) : List Call × Outcome :=
  openSocket .csapp (.server listens) lookup

/-! ## The rules of the calls -/

/-- the list of addresses, and the socket that is open -/
structure Held where
  list : Bool
  fd : Option ℕ
deriving DecidableEq, Repr

/-- an address is read from the list, and a call is made on the socket that is open; there is one at a time -/
def use (h : Held) : Call → Option Held
  | .getaddrinfo ok => if h.list = false then some { h with list := ok } else none
  | .socket fd => if h.list = true ∧ h.fd = none then some { h with fd := fd } else none
  | .setsockopt fd | .listen fd => if h.fd = some fd then some h else none
  | .connect fd | .bind fd => if h.list = true ∧ h.fd = some fd then some h else none
  | .close fd => if h.fd = some fd then some { h with fd := none } else none
  | .freeaddrinfo => if h.list = true then some { h with list := false } else none

def Walk.fd : Walk → Option ℕ
  | .found fd => some fd
  | .exhausted | .closeFailed => none

/-- the descriptor that the caller gets -/
def Outcome.fd : Outcome → Option ℕ
  | .returned rc => if 0 ≤ rc then some rc.toNat else none
  | .aborted => none

@[simp] theorem fd_fatal (program : Program) {rc : ℤ} (h : rc < 0) : (program.fatal rc).fd = none := by
  cases program with
  | csapp => simp [Program.fatal, Outcome.fd, h]
  | glacier => rfl

theorem use_attempt (side : Side) (fd : ℕ) :
    Machine.run use ⟨true, some fd⟩ (side.attempt fd) = some ⟨true, some fd⟩ := by
  cases side with
  | client => simp [Machine.run, Side.attempt, use]
  | server listens => simp [Machine.run, Side.attempt, use]

theorem use_finish (side : Side) (fd : ℕ) :
    Machine.run use ⟨false, some fd⟩ (side.finish fd).1 = some ⟨false, (side.finish fd).2.fd⟩ := by
  match side with
  | .client => simp [Side.finish, Outcome.fd]
  | .server true => simp [Machine.run, Side.finish, use, Outcome.fd]
  | .server false => simp [Machine.run, Side.finish, use, Outcome.fd]

/-- the walk closes what it does not return -/
theorem use_walk (side : Side) (addresses : List Address) :
    Machine.run use ⟨true, none⟩ (walk side addresses).1 = some ⟨true, (walk side addresses).2.fd⟩ := by
  induction addresses with
  | nil => rfl
  | cons a rest ih =>
    unfold walk
    split
    · exact Machine.run_cons.2 ⟨_, rfl, ih⟩
    · rename_i fd _
      split_ifs with hworks hcloses
      · exact Machine.run_cons.2 ⟨_, rfl, use_attempt side fd⟩
      · have hrest : Machine.run use ⟨true, some fd⟩ (.close fd :: (walk side rest).1) =
            some ⟨true, (walk side rest).2.fd⟩ := Machine.run_cons.2 ⟨⟨true, none⟩, by simp [use], ih⟩
        exact Machine.run_cons.2 ⟨_, rfl, Machine.run_append.2 ⟨_, use_attempt side fd, hrest⟩⟩
      · exact Machine.run_cons.2 ⟨_, rfl, Machine.run_append.2 ⟨_, use_attempt side fd, by simp [Machine.run, use, Walk.fd]⟩⟩

/-! ## Which address -/

/-- the walk goes on behind this address -/
def Address.Skipped (a : Address) : Prop := a.socket = none ∨ (a.works = false ∧ a.closes = true)

instance (a : Address) : Decidable a.Skipped := by unfold Address.Skipped; infer_instance

/-- where the walk ends -/
def first (addresses : List Address) : Option Address := addresses.find? fun a => !decide a.Skipped

def Ends (addresses : List Address) : Walk → Prop
  | .found fd => ∃ a ∈ first addresses, a.socket = some fd ∧ a.works = true
  | .exhausted => first addresses = none
  | .closeFailed => ∃ a ∈ first addresses, a.works = false

theorem ends_cons_of_skipped {a : Address} (ha : a.Skipped) (rest : List Address) (result : Walk) :
    Ends (a :: rest) result ↔ Ends rest result := by
  have hfirst : first (a :: rest) = first rest := List.find?_cons_of_neg (by simp [ha])
  cases result <;> simp only [Ends, hfirst]

theorem walk_ends (side : Side) (addresses : List Address) : Ends addresses (walk side addresses).2 := by
  induction addresses with
  | nil => rfl
  | cons a rest ih =>
    unfold walk
    split
    · rename_i hsocket
      exact (ends_cons_of_skipped (Or.inl hsocket) rest _).2 ih
    · rename_i fd hsocket
      split_ifs with hworks hcloses
      · have hfirst : first (a :: rest) = some a := List.find?_cons_of_pos (by simp [Address.Skipped, hsocket, hworks])
        exact ⟨a, hfirst, hsocket, hworks⟩
      · exact (ends_cons_of_skipped (Or.inr ⟨by simpa using hworks, hcloses⟩) rest _).2 ih
      · have hfirst : first (a :: rest) = some a := List.find?_cons_of_pos (by simp [Address.Skipped, hsocket, hcloses])
        exact ⟨a, hfirst, by simpa using hworks⟩

/-! ## What is opened -/

/-- how the opening of a socket ends -/
inductive Opened (program : Program) (side : Side) : Option (List Address) → List Call × Outcome → Prop where
  | unknown : Opened program side none ([.getaddrinfo false], program.fatal (-2))
  | exhausted {addresses : List Address} {calls : List Call} (hfirst : first addresses = none)
    (hcalls : Machine.run use ⟨true, none⟩ calls = some ⟨true, none⟩) :
    Opened program side (some addresses) (.getaddrinfo true :: (calls ++ [.freeaddrinfo]), .returned (-1))
  | closeFailed {addresses : List Address} {calls : List Call} {a : Address} (hfirst : first addresses = some a)
    (hworks : a.works = false) (hcalls : Machine.run use ⟨true, none⟩ calls = some ⟨true, none⟩) :
    Opened program side (some addresses) (.getaddrinfo true :: calls, program.fatal (-1))
  | found {addresses : List Address} {calls : List Call} {a : Address} {fd : ℕ} (hfirst : first addresses = some a)
    (hsocket : a.socket = some fd) (hworks : a.works = true)
    (hcalls : Machine.run use ⟨true, none⟩ calls = some ⟨true, some fd⟩) :
    Opened program side (some addresses)
      (.getaddrinfo true :: (calls ++ .freeaddrinfo :: (side.finish fd).1), (side.finish fd).2)

theorem openSocket_opened (program : Program) (side : Side) (lookup : Option (List Address)) :
    Opened program side lookup (openSocket program side lookup) := by
  cases lookup with
  | none => exact .unknown
  | some addresses =>
    have hends := walk_ends side addresses
    have huse := use_walk side addresses
    rcases hwalk : walk side addresses with ⟨calls, result⟩
    rw [hwalk] at hends huse
    simp only [openSocket, hwalk]
    cases result with
    | exhausted => exact .exhausted hends huse
    | closeFailed =>
      obtain ⟨a, hfirst, hworks⟩ := hends
      exact .closeFailed hfirst hworks huse
    | found fd =>
      obtain ⟨a, hfirst, hsocket, hworks⟩ := hends
      exact .found hfirst hsocket hworks huse

/-- the walk over the list of getaddrinfo ends at this address -/
def Tried (lookup : Option (List Address)) (a : Address) : Prop := ∃ addresses ∈ lookup, a ∈ first addresses

theorem tried_some {addresses : List Address} {a : Address} : Tried (some addresses) a ↔ first addresses = some a := by
  simp [Tried]

def CloseFails (lookup : Option (List Address)) : Prop := ∃ a, Tried lookup a ∧ a.works = false

section Opened

variable {program : Program} {side : Side} {lookup : Option (List Address)} {r : List Call × Outcome}

theorem not_closeFails_none : ¬ CloseFails none := by
  rintro ⟨a, ⟨addresses, haddresses, -⟩, -⟩
  cases haddresses

theorem closeFails_some {addresses : List Address} {a : Address} (hfirst : first addresses = some a) :
    CloseFails (some addresses) ↔ a.works = false := by
  simp [CloseFails, tried_some, hfirst]

theorem not_closeFails_exhausted {addresses : List Address} (hfirst : first addresses = none) :
    ¬ CloseFails (some addresses) := by
  simp [CloseFails, tried_some, hfirst]

/-- only a failed close keeps the list of addresses -/
theorem Opened.use (h : Opened program side lookup r) :
    ∃ held, Machine.run OpenSocket.use ⟨false, none⟩ r.1 = some held ∧ held.fd = r.2.fd ∧
      (held.list = true ↔ CloseFails lookup) := by
  cases h with
  | unknown =>
    refine ⟨⟨false, none⟩, rfl, (fd_fatal program (by decide)).symm, ?_⟩
    simp [not_closeFails_none]
  | exhausted hfirst hcalls =>
    refine ⟨⟨false, none⟩, Machine.run_cons.2 ⟨_, rfl, Machine.run_append.2 ⟨_, hcalls, rfl⟩⟩, rfl, ?_⟩
    simp [not_closeFails_exhausted hfirst]
  | closeFailed hfirst hworks hcalls =>
    refine ⟨⟨true, none⟩, Machine.run_cons.2 ⟨_, rfl, hcalls⟩, (fd_fatal program (by decide)).symm, ?_⟩
    simp [closeFails_some hfirst, hworks]
  | @found addresses calls a fd hfirst hsocket hworks hcalls =>
    have hfinish : Machine.run OpenSocket.use ⟨true, some fd⟩ (.freeaddrinfo :: (side.finish fd).1) =
        some ⟨false, (side.finish fd).2.fd⟩ := Machine.run_cons.2 ⟨_, rfl, use_finish side fd⟩
    refine ⟨⟨false, (side.finish fd).2.fd⟩, Machine.run_cons.2 ⟨_, rfl, Machine.run_append.2 ⟨_, hcalls, hfinish⟩⟩, rfl, ?_⟩
    simp [closeFails_some hfirst, hworks]

theorem finish_returned {fd n : ℕ} : (side.finish fd).2 = .returned n ↔ side ≠ .server false ∧ fd = n := by
  match side with
  | .client => simp [Side.finish]
  | .server true => simp [Side.finish]
  | .server false => simp [Side.finish]

theorem finish_not_aborted (fd : ℕ) : (side.finish fd).2 ≠ .aborted := by
  match side with
  | .client => simp [Side.finish]
  | .server true => simp [Side.finish]
  | .server false => simp [Side.finish]

theorem fatal_not_returned {rc : ℤ} (hrc : rc < 0) (n : ℕ) : program.fatal rc ≠ .returned n := by
  cases program with
  | csapp => simp [Program.fatal]; omega
  | glacier => simp [Program.fatal]

theorem fatal_aborted {rc : ℤ} : program.fatal rc = .aborted ↔ program = .glacier := by
  cases program with
  | csapp => simp [Program.fatal]
  | glacier => simp [Program.fatal]

theorem Opened.returned_iff (h : Opened program side lookup r) (n : ℕ) :
    r.2 = .returned n ↔ side ≠ .server false ∧ ∃ a, Tried lookup a ∧ a.socket = some n ∧ a.works = true := by
  cases h with
  | unknown => simp [fatal_not_returned, Tried]
  | exhausted hfirst hcalls => simp [tried_some, hfirst]
  | closeFailed hfirst hworks hcalls => simp [fatal_not_returned, tried_some, hfirst, hworks]
  | found hfirst hsocket hworks hcalls => simp [finish_returned, tried_some, hfirst, hsocket, hworks]

theorem Opened.aborted_iff (h : Opened program side lookup r) :
    r.2 = .aborted ↔ program = .glacier ∧ (lookup = none ∨ CloseFails lookup) := by
  cases h with
  | unknown => simp [fatal_aborted]
  | exhausted hfirst hcalls => simp [not_closeFails_exhausted hfirst]
  | closeFailed hfirst hworks hcalls => simp [fatal_aborted, closeFails_some hfirst, hworks]
  | found hfirst hsocket hworks hcalls => simp [finish_not_aborted, closeFails_some hfirst, hworks]

end Opened

/-- **What opening a socket leaves open.** For every list of addresses and all results of the calls: each call is made on a
socket that is open, one is open at a time, and in the end none but the one that is returned, which belongs to the first
address that works if no close fails before it; the list is freed unless a close fails, and glacier then aborts. -/
theorem opens_first (program : Program) (side : Side) (lookup : Option (List Address)) :
    (∃ held, Machine.run use ⟨false, none⟩ (openSocket program side lookup).1 = some held ∧
      held.fd = (openSocket program side lookup).2.fd ∧ (held.list = true ↔ CloseFails lookup)) ∧
    (∀ n : ℕ, (openSocket program side lookup).2 = .returned n ↔
      side ≠ .server false ∧ ∃ a, Tried lookup a ∧ a.socket = some n ∧ a.works = true) ∧
    ((openSocket program side lookup).2 = .aborted ↔ program = .glacier ∧ (lookup = none ∨ CloseFails lookup)) := by
  have hopened := openSocket_opened program side lookup
  exact ⟨hopened.use, hopened.returned_iff, hopened.aborted_iff⟩

/-- the first address gets no socket, the second is in use, and the fourth, where a close would fail, is not reached -/
example : (open_listenfd (some [⟨none, false, true⟩, ⟨some 3, false, true⟩, ⟨some 3, true, true⟩, ⟨some 4, false, false⟩])
    true).1 = [.getaddrinfo true, .socket none, .socket (some 3), .setsockopt 3, .bind 3, .close 3, .socket (some 3),
      .setsockopt 3, .bind 3, .freeaddrinfo, .listen 3] := by decide

end Glacier.OpenSocket
