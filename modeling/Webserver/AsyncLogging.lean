import Webserver.FixedBuffer
import Webserver.Library.Machine

/-! The asynchronous log of `AsyncLogging.cc`: the threads that append to it and
the steps of `threadFunc`. An `append` and each critical section of the backend is
one step, as they hold the mutex throughout. -/

namespace Webserver
open Library

universe u

/-- A buffer on the heap; `address` tells one object from another. -/
structure LargeBuffer (α : Type u) (bufferSize : Nat) where
  address : Nat
  buffer : FixedBuffer α bufferSize

/-- A `unique_ptr`, which is null after it was moved from. -/
abbrev BufferPtr (α : Type u) (bufferSize : Nat) := Option (LargeBuffer α bufferSize)

/-- Where the backend is: not started, at the test of `running_`, before the lock, in
`wait_for`, before the `next`th buffer of its loop, or after its last `flush`. -/
inductive Backend where
  | idle
  | testing
  | locking
  | waiting
  | writing (next : Nat)
  | returned
  deriving DecidableEq

/-- `newbuffer1`, `newbuffer2` and `buffersToWrite` are the locals of `threadFunc`.
`output` is the list of the chunks passed to `LogFile::append`, and `allocated` the
number of buffers made so far. -/
structure AsyncLogging (α : Type u) (bufferSize : Nat) where
  running_ : Bool
  currentBuffer_ : BufferPtr α bufferSize
  nextBuffer_ : BufferPtr α bufferSize
  buffers_ : List (BufferPtr α bufferSize)
  newbuffer1 : BufferPtr α bufferSize
  newbuffer2 : BufferPtr α bufferSize
  buffersToWrite : List (BufferPtr α bufferSize)
  backend : Backend
  output : List (List α)
  allocated : Nat

inductive LogEvent (α : Type u) where
  | append (logline : List α)
  | start
  | stop
  | test
  | lock
  | wake
  | write
  | recycle
  deriving DecidableEq

namespace AsyncLogging
variable {α : Type u} {bufferSize : Nat}

def new [OfNat α 0] : AsyncLogging α bufferSize where
  running_ := false
  currentBuffer_ := some ⟨0, FixedBuffer.new.bzero⟩
  nextBuffer_ := some ⟨1, FixedBuffer.new.bzero⟩
  buffers_ := []
  newbuffer1 := none
  newbuffer2 := none
  buffersToWrite := []
  backend := .idle
  output := []
  allocated := 2

/-- There is no result when `currentBuffer_` is null. -/
def append [OfNat α 0] (log : AsyncLogging α bufferSize) (logline : List α) : Option (AsyncLogging α bufferSize) :=
  match log.currentBuffer_ with
  | none => none
  | some current =>
    if current.buffer.avail > logline.length then
      some { log with currentBuffer_ := some { current with buffer := current.buffer.append logline } }
    else
      let full := { log with buffers_ := log.buffers_ ++ [some current] }
      match log.nextBuffer_ with
      | some next =>
        some { full with
          currentBuffer_ := some { next with buffer := next.buffer.append logline }
          nextBuffer_ := none }
      | none =>
        some { full with
          currentBuffer_ := some ⟨log.allocated, (FixedBuffer.new).append logline⟩
          allocated := log.allocated + 1 }

/-- `start`, and what `threadFunc` does before its loop. -/
def start [OfNat α 0] (log : AsyncLogging α bufferSize) : AsyncLogging α bufferSize :=
  { log with
    running_ := true
    newbuffer1 := some ⟨log.allocated, FixedBuffer.new.bzero⟩
    newbuffer2 := some ⟨log.allocated + 1, FixedBuffer.new.bzero⟩
    buffersToWrite := []
    backend := .testing
    allocated := log.allocated + 2 }

/-- The end of the critical section, after the wait. -/
def swap (log : AsyncLogging α bufferSize) : AsyncLogging α bufferSize :=
  { log with
    currentBuffer_ := log.newbuffer1
    newbuffer1 := none
    nextBuffer_ := if log.nextBuffer_.isNone then log.newbuffer2 else log.nextBuffer_
    newbuffer2 := if log.nextBuffer_.isNone then none else log.newbuffer2
    buffersToWrite := log.buffers_ ++ [log.currentBuffer_]
    buffers_ := log.buffersToWrite
    backend := .writing 0 }

/-- Fill a null spare from the back of the written buffers. There is no result when
that takes from an empty vector or resets through a null pointer. -/
def refill (spare : BufferPtr α bufferSize) (written : List (BufferPtr α bufferSize)) :
    Option (BufferPtr α bufferSize × List (BufferPtr α bufferSize)) :=
  match spare with
  | some buffer => some (some buffer, written)
  | none =>
    match written.getLast? with
    | some (some buffer) => some (some { buffer with buffer := buffer.buffer.reset }, written.dropLast)
    | _ => none

/-- The rest of the iteration after its loop over the buffers. -/
def recycle (log : AsyncLogging α bufferSize) : Option (AsyncLogging α bufferSize) := do
  let kept := if log.buffersToWrite.length > 2 then log.buffersToWrite.take 2 else log.buffersToWrite
  let (first, kept) ← refill log.newbuffer1 kept
  let (second, _) ← refill log.newbuffer2 kept
  return { log with newbuffer1 := first, newbuffer2 := second, buffersToWrite := [], backend := .testing }

/-- The wait may return at any time. -/
def step [OfNat α 0] (event : LogEvent α) (log : AsyncLogging α bufferSize) : Option (AsyncLogging α bufferSize) :=
  match event with
  | .append logline => log.append logline
  | .start => if log.backend = .idle then some log.start else none
  | .stop => some { log with running_ := false }
  | .test =>
    if log.backend = .testing then some { log with backend := if log.running_ then .locking else .returned } else none
  | .lock =>
    if log.backend = .locking then
      if log.buffers_.isEmpty then some { log with backend := .waiting } else some log.swap
    else none
  | .wake => if log.backend = .waiting then some log.swap else none
  | .write =>
    match log.backend with
    | .writing next =>
      match log.buffersToWrite[next]? with
      | some (some buffer) =>
        some { log with output := log.output ++ [buffer.buffer.contents], backend := .writing (next + 1) }
      | _ => none
    | _ => none
  | .recycle =>
    match log.backend with
    | .writing next => if next = log.buffersToWrite.length then log.recycle else none
    | _ => none

def machine [OfNat α 0] : Machine (AsyncLogging α bufferSize) (LogEvent α) := ⟨step⟩

/-- The record of the appended lines, in the order in which the appends took the mutex. -/
def record (event : LogEvent α) (_ : AsyncLogging α bufferSize) (appended : List (List α)) : List (List α) :=
  match event with
  | .append logline => appended ++ [logline]
  | _ => appended

def recorded [OfNat α 0] : Machine (AsyncLogging α bufferSize × List (List α)) (LogEvent α) := machine.watch record

end AsyncLogging
end Webserver
