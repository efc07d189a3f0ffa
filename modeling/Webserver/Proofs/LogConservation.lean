import Webserver.AsyncLogging

/-! What the asynchronous log holds: every appended byte is in exactly one place, in
order, and every pointer that is used is not null. -/

namespace Webserver
open Library

universe u

def BufferPtr.contents {α : Type u} {bufferSize : Nat} : BufferPtr α bufferSize → List α
  | some buffer => buffer.buffer.contents
  | none => []

def Backend.collects : Backend → Bool
  | .locking | .waiting => true
  | _ => false

namespace AsyncLogging
variable {α : Type u} {bufferSize : Nat}

def contents (buffers : List (BufferPtr α bufferSize)) : List α := buffers.flatMap BufferPtr.contents

def unwritten (log : AsyncLogging α bufferSize) : List (BufferPtr α bufferSize) :=
  match log.backend with
  | .writing next => log.buffersToWrite.drop next
  | _ => log.buffersToWrite

/-- The bytes that wait for the next iteration of the backend. -/
def pending (log : AsyncLogging α bufferSize) : List α := contents log.buffers_ ++ log.currentBuffer_.contents

/-- The bytes that the backend has written or will write in this iteration. -/
def taken (log : AsyncLogging α bufferSize) : List α := log.output.flatten ++ contents log.unwritten

def Fresh (pointer : BufferPtr α bufferSize) : Prop := ∃ buffer, pointer = some buffer ∧ buffer.buffer.size_ = 0

def Spares (log : AsyncLogging α bufferSize) : Prop :=
  match log.backend with
  | .idle | .returned => log.buffersToWrite = []
  | .testing | .locking | .waiting => log.buffersToWrite = [] ∧ Fresh log.newbuffer1 ∧ Fresh log.newbuffer2
  | .writing next => next ≤ log.buffersToWrite.length ∧ 1 ≤ log.buffersToWrite.length ∧ log.newbuffer1 = none ∧
      (Fresh log.newbuffer2 ∨ log.newbuffer2 = none ∧ 2 ≤ log.buffersToWrite.length)

/-- Who owns which buffers. While `nextBuffer_` is null a full buffer waits. -/
structure Owned (log : AsyncLogging α bufferSize) : Prop where
  current : ∃ buffer, log.currentBuffer_ = some buffer
  next : Fresh log.nextBuffer_ ∨ log.nextBuffer_ = none ∧ log.buffers_ ≠ []
  queued : ∀ pointer ∈ log.buffers_, ∃ buffer, pointer = some buffer
  written : ∀ pointer ∈ log.buffersToWrite, ∃ buffer, pointer = some buffer
  spares : Spares log

theorem new_owned [OfNat α 0] : Owned (new : AsyncLogging α bufferSize) :=
  ⟨⟨_, rfl⟩, .inl ⟨_, rfl, rfl⟩, by simp [new], by simp [new], rfl⟩

theorem fresh_contents {pointer : BufferPtr α bufferSize} (fresh : Fresh pointer) : pointer.contents = [] := by
  obtain ⟨buffer, rfl, empty⟩ := fresh
  exact FixedBuffer.contents_nil empty

/-- A step of the log, by the branch that succeeds. -/
inductive Move [OfNat α 0] (log : AsyncLogging α bufferSize) : LogEvent α → AsyncLogging α bufferSize → Prop where
  | append (logline : List α) {after} (appended : log.append logline = some after) : Move log (.append logline) after
  | start (position : log.backend = .idle) : Move log .start log.start
  | stop : Move log .stop { log with running_ := false }
  | test (position : log.backend = .testing) :
      Move log .test { log with backend := if log.running_ then .locking else .returned }
  | wait (position : log.backend = .locking) : Move log .lock { log with backend := .waiting }
  | swap (position : log.backend = .locking) : Move log .lock log.swap
  | wake (position : log.backend = .waiting) : Move log .wake log.swap
  | write (next : Nat) (buffer : LargeBuffer α bufferSize) (position : log.backend = .writing next)
      (found : log.buffersToWrite[next]? = some (some buffer)) :
      Move log .write { log with output := log.output ++ [buffer.buffer.contents], backend := .writing (next + 1) }
  | recycle {after} (position : log.backend = .writing log.buffersToWrite.length) (recycled : log.recycle = some after) :
      Move log .recycle after

theorem step_cases [OfNat α 0] {event : LogEvent α} {log after : AsyncLogging α bufferSize}
    (stepped : step event log = some after) : Move log event after := by
  cases event with
  | append logline => exact .append logline stepped
  | start =>
    simp only [step] at stepped
    split at stepped <;> cases stepped
    next position => exact .start position
  | stop =>
    cases stepped
    exact .stop
  | test =>
    simp only [step] at stepped
    split at stepped <;> cases stepped
    next position => exact .test position
  | lock =>
    simp only [step] at stepped
    split at stepped
    next position =>
      split at stepped <;> cases stepped
      · exact .wait position
      · exact .swap position
    next => cases stepped
  | wake =>
    simp only [step] at stepped
    split at stepped <;> cases stepped
    next position => exact .wake position
  | write =>
    simp only [step] at stepped
    split at stepped
    next next position =>
      split at stepped <;> cases stepped
      next buffer found => exact .write next buffer position found
    next => cases stepped
  | recycle =>
    simp only [step] at stepped
    split at stepped
    next next position =>
      split at stepped
      next last => exact .recycle (last ▸ position) stepped
      next => cases stepped
    next => cases stepped

structure Appended [OfNat α 0] (logline : List α) (before after : AsyncLogging α bufferSize) : Prop where
  pending : logline.length < bufferSize → after.pending = before.pending ++ logline
  backend : after.backend = before.backend
  output : after.output = before.output
  buffersToWrite : after.buffersToWrite = before.buffersToWrite
  running_ : after.running_ = before.running_
  owned : Owned after

theorem Appended.taken [OfNat α 0] {logline : List α} {before after : AsyncLogging α bufferSize}
    (change : Appended logline before after) : after.taken = before.taken := by
  simp only [AsyncLogging.taken, unwritten, change.backend, change.buffersToWrite, change.output]

theorem append_appended [OfNat α 0] (logline : List α) {before : AsyncLogging α bufferSize} (owned : Owned before) :
    ∃ after, before.append logline = some after ∧ Appended logline before after := by
  obtain ⟨current, held⟩ := owned.current
  simp only [append, held]
  have moved : ∀ pointer ∈ before.buffers_ ++ [some current], ∃ buffer, pointer = some buffer := by
    intro pointer member
    rcases List.mem_append.mp member with old | new
    · exact owned.queued pointer old
    · exact ⟨current, List.mem_singleton.mp new⟩
  have rotated : (contents (before.buffers_ ++ [some current])) = before.pending := by
    simp [contents, AsyncLogging.pending, held]
  split
  next room =>
    refine ⟨_, rfl, ?_, rfl, rfl, rfl, rfl, ⟨_, rfl⟩, owned.next, owned.queued, owned.written, owned.spares⟩
    intro _
    simp only [AsyncLogging.pending, held, BufferPtr.contents, List.append_assoc]
    rw [FixedBuffer.contents_append _ _ room]
  next full =>
    split
    next next spare =>
      refine ⟨_, rfl, ?_, rfl, rfl, rfl, rfl, ⟨_, rfl⟩, .inr ⟨rfl, by simp⟩, moved, owned.written, owned.spares⟩
      intro short
      have empty : next.buffer.size_ = 0 := by
        rcases owned.next with ⟨buffer, same, empty⟩ | ⟨none, _⟩
        · rw [spare] at same
          cases same
          exact empty
        · rw [spare] at none
          cases none
      have room : logline.length < next.buffer.avail := by simpa [FixedBuffer.avail, empty] using short
      have start : next.buffer.contents = [] := FixedBuffer.contents_nil empty
      rw [AsyncLogging.pending, rotated]
      simp only [BufferPtr.contents, FixedBuffer.contents_append _ _ room, start, List.nil_append]
    next spare =>
      refine ⟨_, rfl, ?_, rfl, rfl, rfl, rfl, ⟨_, rfl⟩, .inr ⟨spare, by simp⟩, moved, owned.written, owned.spares⟩
      intro short
      have room : logline.length < (FixedBuffer.new : FixedBuffer α bufferSize).avail := short
      rw [AsyncLogging.pending, rotated]
      have start : (FixedBuffer.new : FixedBuffer α bufferSize).contents = [] := FixedBuffer.contents_nil rfl
      simp only [BufferPtr.contents, FixedBuffer.contents_append _ _ room, start, List.nil_append]

structure Swapped (before after : AsyncLogging α bufferSize) : Prop where
  taken : after.taken = before.taken ++ before.pending
  pending : after.pending = []
  backend : after.backend = .writing 0
  running_ : after.running_ = before.running_
  owned : Owned after

private theorem swap_swapped {before : AsyncLogging α bufferSize} (owned : Owned before)
    (position : before.backend = .locking ∨ before.backend = .waiting) : Swapped before before.swap := by
  obtain ⟨empty, first, second⟩ : before.buffersToWrite = [] ∧ Fresh before.newbuffer1 ∧ Fresh before.newbuffer2 := by
    have spares := owned.spares
    rcases position with locking | waiting
    · simpa only [Spares, locking] using spares
    · simpa only [Spares, waiting] using spares
  have idle : before.unwritten = [] := by
    rcases position with locking | waiting
    · simp only [unwritten, locking, empty]
    · simp only [unwritten, waiting, empty]
  refine ⟨?_, ?_, rfl, rfl, first.imp fun _ => And.left, ?_, by simp [swap, empty], ?_, ?_⟩
  · rw [taken, taken, idle]
    simp [pending, unwritten, swap, contents]
  · simp only [pending, swap, empty, fresh_contents first]
    rfl
  · left
    rcases owned.next with next | ⟨none, _⟩
    · obtain ⟨buffer, held, _⟩ := id next
      simpa only [swap, held, Option.isNone_some, Bool.false_eq_true, if_false] using held ▸ next
    · simpa only [swap, none, Option.isNone_none, if_true] using second
  · intro pointer member
    rcases List.mem_append.mp member with queued | current
    · exact owned.queued pointer queued
    · rw [List.mem_singleton.mp current]
      exact owned.current
  · refine ⟨Nat.zero_le _, by simp [swap], rfl, ?_⟩
    rcases owned.next with ⟨_, held, _⟩ | ⟨none, filled⟩
    · left
      simpa only [swap, held, Option.isNone_some, Bool.false_eq_true, if_false] using second
    · right
      have filled := List.length_pos_iff.mpr filled
      refine ⟨by simp only [swap, none, Option.isNone_none, if_true], ?_⟩
      simp only [swap, List.length_append, List.length_singleton]
      omega

private theorem refill_null {written : List (BufferPtr α bufferSize)}
    (held : ∀ pointer ∈ written, ∃ buffer, pointer = some buffer) (left : written ≠ []) :
    ∃ filled, Fresh filled ∧ refill none written = some (filled, written.dropLast) := by
  obtain ⟨buffer, last⟩ := held _ (List.getLast_mem left)
  have found : written.getLast? = some (some buffer) := by rw [List.getLast?_eq_some_getLast left, last]
  refine ⟨some { buffer with buffer := buffer.buffer.reset }, ⟨_, rfl, rfl⟩, ?_⟩
  simp only [refill, found]

private theorem refill_fresh {spare : BufferPtr α bufferSize} {written : List (BufferPtr α bufferSize)}
    (held : ∀ pointer ∈ written, ∃ buffer, pointer = some buffer) (left : Fresh spare ∨ spare = none ∧ written ≠ []) :
    ∃ filled rest, Fresh filled ∧ refill spare written = some (filled, rest) := by
  rcases left with fresh | ⟨rfl, left⟩
  · obtain ⟨buffer, rfl, empty⟩ := fresh
    exact ⟨_, _, ⟨buffer, rfl, empty⟩, rfl⟩
  · obtain ⟨filled, fresh, refilled⟩ := refill_null held left
    exact ⟨filled, _, fresh, refilled⟩

/-- Two buffers are enough for the two spares. -/
theorem recycle_enabled {before : AsyncLogging α bufferSize} (owned : Owned before) {next : Nat}
    (position : before.backend = .writing next) : ∃ first second, Fresh first ∧ Fresh second ∧ before.recycle =
      some { before with newbuffer1 := first, newbuffer2 := second, buffersToWrite := [], backend := .testing } := by
  have spares := owned.spares
  simp only [Spares, position] at spares
  obtain ⟨_, filled, null, second⟩ := spares
  have kept : (if before.buffersToWrite.length > 2 then before.buffersToWrite.take 2 else before.buffersToWrite) =
      before.buffersToWrite.take 2 := by
    split
    · rfl
    next few => rw [List.take_of_length_le (by omega)]
  have length : (before.buffersToWrite.take 2).length = min 2 before.buffersToWrite.length := List.length_take
  have held : ∀ pointer ∈ before.buffersToWrite.take 2, ∃ buffer, pointer = some buffer :=
    fun pointer member => owned.written pointer (List.mem_of_mem_take member)
  have left : Fresh before.newbuffer2 ∨ before.newbuffer2 = none ∧ (before.buffersToWrite.take 2).dropLast ≠ [] := by
    apply second.imp_right
    intro ⟨missing, two⟩
    refine ⟨missing, List.length_pos_iff.mp ?_⟩
    rw [List.length_dropLast]
    omega
  obtain ⟨first, fresh, taken⟩ := refill_null held (List.length_pos_iff.mp (by omega))
  obtain ⟨last, _, empty, refilled⟩ :=
    refill_fresh (fun pointer member => held pointer (List.dropLast_subset _ member)) left
  exact ⟨first, last, fresh, empty, by simp [recycle, kept, null, taken, refilled]⟩

structure Kept (before after : AsyncLogging α bufferSize) : Prop where
  taken : after.taken = before.taken
  pending : after.pending = before.pending
  stopped : before.running_ = false → before.backend ≠ .idle →
    after.running_ = false ∧ after.backend ≠ .idle ∧ after.backend.collects = before.backend.collects
  owned : Owned after

inductive Change [OfNat α 0] (event : LogEvent α) (before after : AsyncLogging α bufferSize) : Prop where
  | appended (logline : List α) (called : event = .append logline) (change : Appended logline before after)
  | swapped (silent : ∀ logline, event ≠ .append logline) (collects : before.backend.collects = true)
      (change : Swapped before after)
  | kept (silent : ∀ logline, event ≠ .append logline) (change : Kept before after)

private theorem test_kept {before : AsyncLogging α bufferSize} (owned : Owned before) (position : before.backend = .testing) :
    Kept before { before with backend := if before.running_ then .locking else .returned } := by
  have spares := owned.spares
  simp only [Spares, position] at spares
  obtain ⟨empty, first, second⟩ := spares
  refine ⟨?_, rfl, ?_, owned.current, owned.next, owned.queued, owned.written, ?_⟩
  · simp only [taken, unwritten, position]
    cases before.running_ <;> rfl
  · intro stopped _
    simp [stopped, position, Backend.collects]
  · cases before.running_
    · exact empty
    · exact ⟨empty, first, second⟩

private theorem wait_kept {before : AsyncLogging α bufferSize} (owned : Owned before) (position : before.backend = .locking) :
    Kept before { before with backend := .waiting } := by
  have spares := owned.spares
  simp only [Spares, position] at spares
  refine ⟨?_, rfl, ?_, owned.current, owned.next, owned.queued, owned.written, spares⟩
  · simp only [taken, unwritten, position]
  · intro stopped _
    simp [stopped, position, Backend.collects]

private theorem write_kept {before : AsyncLogging α bufferSize} (owned : Owned before) {next : Nat}
    (position : before.backend = .writing next) {buffer : LargeBuffer α bufferSize}
    (found : before.buffersToWrite[next]? = some (some buffer)) :
    Kept before { before with output := before.output ++ [buffer.buffer.contents], backend := .writing (next + 1) } := by
  have spares := owned.spares
  simp only [Spares, position] at spares
  obtain ⟨inside, held⟩ := List.getElem?_eq_some_iff.mp found
  refine ⟨?_, rfl, ?_, owned.current, owned.next, owned.queued, owned.written, inside, spares.2⟩
  · simp only [taken, unwritten, position, contents]
    rw [List.drop_eq_getElem_cons inside, held]
    simp [BufferPtr.contents]
  · intro stopped _
    simp [stopped, position, Backend.collects]

private theorem recycle_kept {before after : AsyncLogging α bufferSize} (owned : Owned before)
    (position : before.backend = .writing before.buffersToWrite.length) (recycled : before.recycle = some after) :
    Kept before after := by
  obtain ⟨first, second, fresh, fresh_, enabled⟩ := recycle_enabled owned position
  cases enabled.symm.trans recycled
  refine ⟨?_, rfl, ?_, owned.current, owned.next, owned.queued, by simp, rfl, fresh, fresh_⟩
  · simp [taken, unwritten, position]
  · intro stopped _
    simp [stopped, position, Backend.collects]

private theorem start_kept [OfNat α 0] {before : AsyncLogging α bufferSize} (owned : Owned before)
    (position : before.backend = .idle) : Kept before before.start := by
  have spares := owned.spares
  simp only [Spares, position] at spares
  refine ⟨?_, rfl, fun _ started => absurd position started, owned.current, owned.next, owned.queued, by simp [start], rfl,
    ⟨_, rfl, rfl⟩, ⟨_, rfl, rfl⟩⟩
  simp only [taken, unwritten, position, start, spares]

theorem stop_kept {before : AsyncLogging α bufferSize} (owned : Owned before) :
    Kept before { before with running_ := false } :=
  ⟨rfl, rfl, fun _ started => ⟨rfl, started, rfl⟩, owned.current, owned.next, owned.queued, owned.written, owned.spares⟩

theorem step_change [OfNat α 0] {event : LogEvent α} {before after : AsyncLogging α bufferSize} (owned : Owned before)
    (stepped : step event before = some after) : Change event before after := by
  cases step_cases stepped with
  | append logline appended =>
    obtain ⟨next, enabled, change⟩ := append_appended logline owned
    cases enabled.symm.trans appended
    exact .appended logline rfl change
  | start position => exact .kept (by simp) (start_kept owned position)
  | stop => exact .kept (by simp) (stop_kept owned)
  | test position => exact .kept (by simp) (test_kept owned position)
  | wait position => exact .kept (by simp) (wait_kept owned position)
  | swap position => exact .swapped (by simp) (by rw [position]; rfl) (swap_swapped owned (.inl position))
  | wake position => exact .swapped (by simp) (by rw [position]; rfl) (swap_swapped owned (.inr position))
  | write next buffer position found => exact .kept (by simp) (write_kept owned position found)
  | recycle position recycled => exact .kept (by simp) (recycle_kept owned position recycled)

theorem Change.owned [OfNat α 0] {event : LogEvent α} {before after : AsyncLogging α bufferSize}
    (change : Change event before after) : Owned after := by
  cases change with
  | appended _ _ change => exact change.owned
  | swapped _ _ change => exact change.owned
  | kept _ change => exact change.owned

/-- No position of the started backend is stuck. -/
theorem backend_enabled [OfNat α 0] {log : AsyncLogging α bufferSize} (owned : Owned log) (started : log.backend ≠ .idle)
    (running : log.backend ≠ .returned) :
    ∃ event ∈ [LogEvent.test, .lock, .wake, .write, .recycle], (step event log).isSome = true := by
  cases position : log.backend with
  | idle => exact absurd position started
  | returned => exact absurd position running
  | testing => exact ⟨.test, by simp, by simp [step, position]⟩
  | locking =>
    refine ⟨.lock, by simp, ?_⟩
    simp only [step, position, if_true]
    split <;> rfl
  | waiting => exact ⟨.wake, by simp, by simp [step, position]⟩
  | writing next =>
    have spares := owned.spares
    simp only [Spares, position] at spares
    rcases Nat.lt_or_ge next log.buffersToWrite.length with inside | last
    · obtain ⟨buffer, held⟩ := owned.written _ (List.getElem_mem inside)
      have found : log.buffersToWrite[next]? = some (some buffer) := by rw [List.getElem?_eq_getElem inside, held]
      exact ⟨.write, by simp, by simp [step, position, found]⟩
    · obtain ⟨_, _, _, _, enabled⟩ := recycle_enabled owned position
      have last : next = log.buffersToWrite.length := by omega
      exact ⟨.recycle, by simp, by simp [step, position, last, enabled]⟩

/-- Every line of the run fits an empty buffer. -/
def Short (bufferSize : Nat) (events : List (LogEvent α)) : Prop :=
  ∀ logline, .append logline ∈ events → logline.length < bufferSize

theorem Short.along {machine : Machine (AsyncLogging α bufferSize × List (List α)) (LogEvent α)}
    {events : List (LogEvent α)} (short : Short bufferSize events) (start : AsyncLogging α bufferSize × List (List α)) :
    machine.Along (fun event _ => ∀ logline, event = .append logline → logline.length < bufferSize) events start := by
  refine Machine.along_of_forall ?_ start
  intro event member logline called
  rw [called] at member
  exact short logline member

/-- What the log holds is what was appended. -/
structure Conserved (bytes : AsyncLogging α bufferSize × List (List α)) : Prop where
  owned : Owned bytes.1
  balance : bytes.1.taken ++ bytes.1.pending = bytes.2.flatten

private theorem record_silent {event : LogEvent α} {log : AsyncLogging α bufferSize} {appended : List (List α)}
    (silent : ∀ logline, event ≠ .append logline) : record event log appended = appended := by
  cases event with
  | append logline => exact absurd rfl (silent logline)
  | _ => rfl

theorem step_conserved [OfNat α 0] {event : LogEvent α} {before after : AsyncLogging α bufferSize × List (List α)}
    (short : ∀ logline, event = .append logline → logline.length < bufferSize) (conserved : Conserved before)
    (stepped : recorded.step event before = some after) : Conserved after := by
  obtain ⟨moved, recorded⟩ := Machine.watch_step.mp stepped
  have change := step_change conserved.owned moved
  refine ⟨change.owned, ?_⟩
  cases change with
  | appended logline called change =>
    rw [change.taken, change.pending (short logline called), recorded, called]
    simp [record, ← conserved.balance]
  | swapped silent _ change =>
    rw [change.taken, change.pending, recorded, record_silent silent, List.append_nil, conserved.balance]
  | kept silent change =>
    rw [change.taken, change.pending, recorded, record_silent silent, conserved.balance]

theorem run_conserved [OfNat α 0] {events : List (LogEvent α)} {start final : AsyncLogging α bufferSize × List (List α)}
    (reached : recorded.run events start = some final) (short : Short bufferSize events) (conserved : Conserved start) :
    Conserved final := by
  exact Machine.run_invariant (fun _ _ _ allowed held stepped => step_conserved allowed held stepped) reached
    (short.along _) conserved

theorem new_conserved [OfNat α 0] : Conserved ((new : AsyncLogging α bufferSize), []) := by
  have empty : (FixedBuffer.new.bzero : FixedBuffer α bufferSize).contents = [] := FixedBuffer.contents_nil rfl
  refine ⟨new_owned, ?_⟩
  simp [taken, pending, unwritten, new, contents, BufferPtr.contents, empty]

/-- After every step of every run each appended byte is in exactly one place, in the
order of the appends. No append fails, and the backend always has a next step. -/
theorem log_conservation [OfNat α 0] {events : List (LogEvent α)} {log : AsyncLogging α bufferSize}
    {appended : List (List α)} (reached : recorded.run events (new, []) = some (log, appended))
    (short : Short bufferSize events) :
    log.output.flatten ++ contents log.unwritten ++ contents log.buffers_ ++ log.currentBuffer_.contents =
      appended.flatten ∧
    (∀ logline, (log.append logline).isSome = true) ∧
    (log.backend ≠ .idle → log.backend ≠ .returned →
      ∃ event ∈ [LogEvent.test, .lock, .wake, .write, .recycle], (step event log).isSome = true) := by
  have conserved := run_conserved reached short new_conserved
  refine ⟨?_, ?_, backend_enabled conserved.owned⟩
  · simpa only [taken, pending, List.append_assoc] using conserved.balance
  · intro logline
    obtain ⟨_, enabled, _⟩ := append_appended logline conserved.owned
    rw [enabled]
    rfl

/-- Six lines in buffers of four bytes: the third append finds both buffers full. -/
theorem log_conservation_six : ∃ log : AsyncLogging Nat 4, ∃ appended, recorded.run
    [.start, .append [1, 2], .append [3, 4], .test, .append [5, 6], .lock, .append [7, 8], .write, .write, .write,
      .recycle, .append [9], .append [10, 11], .test] (new, []) = some (log, appended) ∧
    log.output.flatten = [1, 2, 3, 4, 5, 6] ∧ log.backend = .locking ∧
    log.output.flatten ++ contents log.unwritten ++ contents log.buffers_ ++ log.currentBuffer_.contents =
      appended.flatten := by
  have computed : (recorded.run
    [.start, .append [1, 2], .append [3, 4], .test, .append [5, 6], .lock, .append [7, 8], .write, .write, .write,
      .recycle, .append [9], .append [10, 11], .test] ((new : AsyncLogging Nat 4), [])).map
    (fun bytes => (bytes.1.output.flatten, bytes.1.backend)) = some ([1, 2, 3, 4, 5, 6], .locking) := by
    decide +kernel
  obtain ⟨⟨log, appended⟩, reached, seen⟩ := Option.map_eq_some_iff.mp computed
  have short : Short 4 ([.start, .append [1, 2], .append [3, 4], .test, .append [5, 6], .lock, .append [7, 8], .write,
      .write, .write, .recycle, .append [9], .append [10, 11], .test] : List (LogEvent Nat)) := by
    simp [Short]
  simp only [Prod.mk.injEq] at seen
  exact ⟨log, appended, reached, seen.1, seen.2, (log_conservation reached short).1⟩

end AsyncLogging
end Webserver
