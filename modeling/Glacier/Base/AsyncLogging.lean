/-
The asynchronous log back-end (asynclogging.cc): any number of front-end threads append lines to `currentBuffer`, and
one back-end thread swaps the full buffers out and hands them to the LogFile.

Actors, all through `step`, interleaved arbitrarily:
- front-end threads: `append`, one critical section under mutex_;
- the owner: `start`, `startReturn` (latch_.wait() returned), then `stop` (the store to running_), `notify`, `join`;
- the back-end: `back`, its next micro-step. Its steps outside the lock touch only its own locals and the LogFile; the
  critical section is one step, or two when wait_for gives the mutex up in between (`waiting`). wait_for may return at
  any time (notification, timeout or spuriously).

A unique_ptr is an Option; a failed assert, a null dereference and back()/pop_back() on an empty vector are recorded
in `fault`, after which nothing runs. `lines`, `past` and `now` are history: the appended lines in the order the
appends took the mutex, and what each iteration of the loop took and handed to output.append.

The bytes behind `cur_` (bzero), reserve and the flush of the LogFile have no effect on the contents and are left out.
-/
import Glacier.Base.LogStream
import Glacier.Base.Timestamp
import Glacier.Lib.Machine

namespace Glacier.AsyncLogging

open Cxx

abbrev Buffer := FixedBuffer kLargeBuffer

/-- where the back-end thread stands in threadFunc -/
inductive Pc where
  | notStarted
  /-- before `assert(running_ == true); latch_.countDown();` -/
  | entry
  /-- before newBuffer1 and newBuffer2 are allocated -/
  | setup
  /-- before the test of `while (running_)` -/
  | test
  /-- before the three asserts at the loop head -/
  | head
  /-- before `std::unique_lock lock(mutex_)` -/
  | lock
  /-- in `condition_.wait_for`, the mutex released -/
  | waiting
  /-- after the critical section, before `assert(!buffersToWrite.empty())` -/
  | taken
  /-- the notice is handed over, the erase is next -/
  | dropping
  /-- in the write loop, before buffer i -/
  | writing (i : ℕ)
  | resize
  | refill1
  | refill2
  | clear
  /-- after the loop, before the last flush -/
  | exit
  | done
deriving DecidableEq, Repr

/-- where the owner stands in start() and stop() -/
inductive Owner where
  | constructed
  | starting
  | started
  | stopping
  | notified
  | stopped
deriving DecidableEq, Repr

inductive Fault where
  | assertion
  | nullPointer
  | emptyVector
deriving DecidableEq, Repr

/-- what one iteration took in its swap and what it has handed to output.append -/
structure Iteration where
  taken : List Bytes
  outs : List Bytes
deriving DecidableEq, Repr

structure St where
  running : Bool
  latch : ℕ
  currentBuffer : Option Buffer
  nextBuffer : Option Buffer
  buffers : List (Option Buffer)
  pc : Pc
  newBuffer1 : Option Buffer
  newBuffer2 : Option Buffer
  buffersToWrite : List (Option Buffer)
  /-- the argument of every output.append call so far -/
  output : List Bytes
  owner : Owner
  fault : Option Fault
  lines : List Bytes
  past : List Iteration
  now : Iteration
deriving DecidableEq, Repr

inductive Op where
  | append (logline : Bytes) (len : ℤ)
  | start
  | startReturn
  | stop
  | notify
  | join
  /-- the back-end's next micro-step; `now` is what Timestamp::now() returns if it is called -/
  | back (now : Timestamp)
deriving DecidableEq, Repr

/-- the constructor -/
def init : St where
  running := false
  latch := 1
  currentBuffer := some .new
  nextBuffer := some .new
  buffers := []
  pc := .notStarted
  newBuffer1 := none
  newBuffer2 := none
  buffersToWrite := []
  output := []
  owner := .constructed
  fault := none
  lines := []
  past := []
  now := ⟨[], []⟩

/-- AsyncLogging::append -/
def append (s : St) (logline : Bytes) (len : ℤ) : St :=
  match s.currentBuffer with
  | none => { s with fault := some .nullPointer }
  | some cur =>
    if cur.avail > len then
      { s with currentBuffer := some (cur.append logline (toSizeT len)), lines := s.lines ++ [logline] }
    else
      let fresh := match s.nextBuffer with
        | some next => next
        | none => .new
      { s with
        buffers := s.buffers ++ [some cur]
        nextBuffer := none
        currentBuffer := some (fresh.append logline (toSizeT len))
        lines := s.lines ++ [logline] }

/-- the bytes behind a buffer pointer -/
def bytes : Option Buffer → Bytes
  | none => []
  | some b => b.data

/-- the bytes a vector of buffers holds, buffer by buffer -/
def contents (l : List (Option Buffer)) : List Bytes := l.map bytes

/-- the critical section after the wait -/
def swapBuffers (s : St) : St :=
  let taken := s.buffers ++ [s.currentBuffer]
  { s with
    currentBuffer := s.newBuffer1
    newBuffer1 := none
    buffersToWrite := taken
    buffers := s.buffersToWrite
    nextBuffer := if s.nextBuffer.isNone then s.newBuffer2 else s.nextBuffer
    newBuffer2 := if s.nextBuffer.isNone then none else s.newBuffer2
    now := ⟨contents taken, []⟩
    pc := .taken }

/-- the snprintf into buf[256]: at most 255 characters are kept -/
def notice (now : Timestamp) (dropped : ℕ) : Bytes :=
  (ascii "Dropped log messages at " ++ now.toFormattedString true ++ ascii ", " ++ decimal dropped ++
    ascii " larger buffers\n").take 255

/-- output.append -/
def hand (s : St) (data : Bytes) : St :=
  { s with output := s.output ++ [data], now := { s.now with outs := s.now.outs ++ [data] } }

/-- `assert(!buffersToWrite.empty()); buf = std::move(buffersToWrite.back()); pop_back(); buf->reset()` -/
def takeBack (s : St) : Except Fault (Buffer × List (Option Buffer)) :=
  match s.buffersToWrite.getLast? with
  | none => .error .emptyVector
  | some none => .error .nullPointer
  | some (some b) => .ok (b.reset, s.buffersToWrite.dropLast)

/-- `assert(newBuffer && newBuffer->length() == 0)` -/
def emptyBuffer (p : Option Buffer) : Bool :=
  match p with
  | none => false
  | some b => b.length == 0

/-- the back-end's next micro-step -/
def back (s : St) (now : Timestamp) : Option St :=
  match s.pc with
  | .notStarted => none
  | .entry =>
    if s.running then some { s with latch := s.latch - 1, pc := .setup }
    else some { s with fault := some .assertion }
  | .setup => some { s with newBuffer1 := some .new, newBuffer2 := some .new, buffersToWrite := [], pc := .test }
  | .test => some { s with pc := if s.running then .head else .exit }
  | .head =>
    if emptyBuffer s.newBuffer1 && emptyBuffer s.newBuffer2 && s.buffersToWrite.isEmpty then some { s with pc := .lock }
    else some { s with fault := some .assertion }
  | .lock => if s.buffers.isEmpty then some { s with pc := .waiting } else some (swapBuffers s)
  | .waiting => some (swapBuffers s)
  | .taken =>
    if s.buffersToWrite.isEmpty then some { s with fault := some .assertion }
    else if s.buffersToWrite.length > 25 then
      some { hand s (notice now (s.buffersToWrite.length - 2)) with pc := .dropping }
    else some { s with pc := .writing 0 }
  | .dropping => some { s with buffersToWrite := s.buffersToWrite.take 2, pc := .writing 0 }
  | .writing i =>
    match s.buffersToWrite[i]? with
    | none => some { s with pc := .resize }
    | some none => some { s with fault := some .nullPointer }
    | some (some b) => some { hand s b.data with pc := .writing (i + 1) }
  | .resize =>
    some { s with
      buffersToWrite := if s.buffersToWrite.length > 2 then s.buffersToWrite.take 2 else s.buffersToWrite
      pc := .refill1 }
  | .refill1 =>
    if s.newBuffer1.isNone then
      match takeBack s with
      | .error f => some { s with fault := some f }
      | .ok (b, rest) => some { s with newBuffer1 := some b, buffersToWrite := rest, pc := .refill2 }
    else some { s with pc := .refill2 }
  | .refill2 =>
    if s.newBuffer2.isNone then
      match takeBack s with
      | .error f => some { s with fault := some f }
      | .ok (b, rest) => some { s with newBuffer2 := some b, buffersToWrite := rest, pc := .clear }
    else some { s with pc := .clear }
  | .clear => some { s with buffersToWrite := [], past := s.past ++ [s.now], now := ⟨[], []⟩, pc := .test }
  | .exit => some { s with pc := .done }
  | .done => none

def step (s : St) (o : Op) : Option St :=
  if s.fault.isSome then none else
  match o with
  | .append logline len => some (append s logline len)
  | .start => if s.owner = .constructed then some { s with running := true, pc := .entry, owner := .starting } else none
  | .startReturn => if s.owner = .starting ∧ s.latch = 0 then some { s with owner := .started } else none
  | .stop => if s.owner = .started then some { s with running := false, owner := .stopping } else none
  | .notify => if s.owner = .stopping then some { s with owner := .notified } else none
  | .join => if s.owner = .notified ∧ s.pc = .done then some { s with owner := .stopped } else none
  | .back now => back s now

end Glacier.AsyncLogging
