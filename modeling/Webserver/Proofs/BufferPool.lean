import Webserver.Proofs.LogConservation
import Mathlib.Data.List.Nodup
import Mathlib.Data.List.Count
import Mathlib.Data.List.Flatten
import Mathlib.Tactic.SplitIfs
import Mathlib.Tactic.Tauto

/-! The buffers of the asynchronous log as a pool: each has one owner, the backend
always gets its spares back, and a buffer is emptied only after it was written. -/

namespace Webserver.AsyncLogging
open Library

universe u
variable {α : Type u} {bufferSize : Nat}

def holders (log : AsyncLogging α bufferSize) : List (BufferPtr α bufferSize) :=
  log.currentBuffer_ :: log.nextBuffer_ :: log.newbuffer1 :: log.newbuffer2 :: (log.buffers_ ++ log.buffersToWrite)

def addresses (pointers : List (BufferPtr α bufferSize)) : List Nat :=
  pointers.flatMap fun pointer => (pointer.map LargeBuffer.address).toList

/-- No buffer has two owners, and every buffer was allocated. -/
structure Exclusive (log : AsyncLogging α bufferSize) : Prop where
  once : (addresses log.holders).Nodup
  made : ∀ buffer, some buffer ∈ log.holders → buffer.address < log.allocated

/-- What the loop of the backend is past, it has passed to `LogFile::append`. -/
def Passed (log : AsyncLogging α bufferSize) : Prop :=
  ∀ next, log.backend = .writing next →
    ∃ earlier, log.output = earlier ++ (log.buffersToWrite.take next).map BufferPtr.contents

private theorem mem_addresses {pointers : List (BufferPtr α bufferSize)} {address : Nat} :
    address ∈ addresses pointers ↔ ∃ buffer, some buffer ∈ pointers ∧ buffer.address = address := by
  simp only [addresses, List.mem_flatMap, Option.mem_toList, Option.map_eq_some_iff]
  constructor
  · rintro ⟨_, member, buffer, rfl, same⟩
    exact ⟨buffer, member, same⟩
  · intro ⟨buffer, member, same⟩
    exact ⟨_, member, buffer, rfl, same⟩

private theorem addresses_append (first rest : List (BufferPtr α bufferSize)) :
    addresses (first ++ rest) = addresses first ++ addresses rest := List.flatMap_append

private theorem addresses_cons (pointer : BufferPtr α bufferSize) (rest : List (BufferPtr α bufferSize)) :
    addresses (pointer :: rest) = (pointer.map LargeBuffer.address).toList ++ addresses rest := List.flatMap_cons

private theorem addresses_nil : addresses ([] : List (BufferPtr α bufferSize)) = [] := rfl

theorem Exclusive.same {log : AsyncLogging α bufferSize} (exclusive : Exclusive log) {first second : LargeBuffer α bufferSize}
    (member : some first ∈ log.holders) (other : some second ∈ log.holders) (address : first.address = second.address) :
    first = second := by
  have once := exclusive.once
  generalize log.holders = pointers at member other once
  induction pointers with
  | nil => cases member
  | cons pointer rest ih =>
    rw [addresses_cons, List.nodup_append] at once
    obtain ⟨_, later, apart⟩ := once
    rcases List.mem_cons.mp member with here | member
    · rcases List.mem_cons.mp other with too | other
      · exact Option.some.inj (here.trans too.symm)
      · exact absurd address (apart _ (by simp [← here]) _ (mem_addresses.mpr ⟨second, other, rfl⟩))
    · rcases List.mem_cons.mp other with too | other
      · exact absurd address.symm (apart _ (by simp [← too]) _ (mem_addresses.mpr ⟨first, member, rfl⟩))
      · exact ih member other later

/-- What a step does to the buffers: it duplicates none, and empties one only when
`recycle` takes it from the written ones. -/
structure Moved (event : LogEvent α) (before after : AsyncLogging α bufferSize) : Prop where
  allocated : before.allocated ≤ after.allocated
  counted : ∀ address, (addresses after.holders).count address ≤
    (addresses before.holders).count address + if before.allocated ≤ address ∧ address < after.allocated then 1 else 0
  from_ : ∀ buffer, some buffer ∈ after.holders → before.allocated ≤ buffer.address ∧ buffer.address < after.allocated ∨
    ∃ old, some old ∈ before.holders ∧ old.address = buffer.address ∧
      (old.buffer.contents <+: buffer.buffer.contents ∨ event = .recycle ∧ some old ∈ before.buffersToWrite)

theorem Moved.exclusive {event : LogEvent α} {before after : AsyncLogging α bufferSize} (moved : Moved event before after)
    (exclusive : Exclusive before) : Exclusive after := by
  constructor
  · rw [List.nodup_iff_count_le_one]
    intro address
    have counted := moved.counted address
    by_cases present : address ∈ addresses before.holders
    · obtain ⟨buffer, member, rfl⟩ := mem_addresses.mp present
      have made := exclusive.made buffer member
      have once := List.nodup_iff_count_le_one.mp exclusive.once buffer.address
      rw [if_neg (by omega)] at counted
      omega
    · rw [List.count_eq_zero.mpr present] at counted
      split at counted <;> omega
  · intro buffer member
    rcases moved.from_ buffer member with new | ⟨old, held, same, _⟩
    · exact new.2
    · have made := exclusive.made old held
      have allocated := moved.allocated
      omega

theorem Moved.of_pointers {event : LogEvent α} {before after : AsyncLogging α bufferSize}
    (allocated : after.allocated = before.allocated)
    (counted : ∀ address, (addresses after.holders).count address ≤ (addresses before.holders).count address)
    (held : ∀ buffer, some buffer ∈ after.holders → some buffer ∈ before.holders) : Moved event before after := by
  refine ⟨Nat.le_of_eq allocated.symm, fun address => ?_, ?_⟩
  · exact Nat.le_trans (counted address) (Nat.le_add_right _ _)
  · intro buffer member
    exact .inr ⟨buffer, held buffer member, rfl, .inl List.prefix_rfl⟩

private theorem append_keeps (buffer : FixedBuffer α bufferSize) (logline : List α) :
    buffer.contents <+: (buffer.append logline).contents := by
  by_cases room : logline.length < buffer.avail
  · rw [FixedBuffer.contents_append buffer logline room]
    exact List.prefix_append _ _
  · have same : buffer.append logline = buffer := dif_neg room
    exact same.symm ▸ List.prefix_rfl

private theorem append_moved [OfNat α 0] {logline : List α} {before after : AsyncLogging α bufferSize}
    (appended : before.append logline = some after) : Moved (.append logline) before after := by
  simp only [append] at appended
  split at appended
  next => cases appended
  next current held =>
    split at appended
    next room =>
      cases appended
      refine ⟨Nat.le_refl _, fun address => ?_, fun buffer member => .inr ?_⟩
      · simp [holders, held, addresses_cons]
      · simp only [holders, List.mem_cons, Option.some.injEq] at member
        rcases member with rfl | member
        · exact ⟨current, by simp [holders, held], rfl, .inl (append_keeps _ _)⟩
        · exact ⟨buffer, List.mem_cons_of_mem _ (by simpa using member), rfl, .inl List.prefix_rfl⟩
    next full =>
      split at appended
      next next spare =>
        cases appended
        refine ⟨Nat.le_refl _, fun address => ?_, fun buffer member => .inr ?_⟩
        · simp [holders, held, spare, addresses_cons, addresses_append, List.count_cons]
          omega
        · simp only [holders, List.mem_cons, List.mem_append, Option.some.injEq] at member
          rcases member with rfl | member
          · exact ⟨next, by simp [holders, spare], rfl, .inl (append_keeps _ _)⟩
          · refine ⟨buffer, ?_, rfl, .inl List.prefix_rfl⟩
            simp only [holders, held, List.mem_cons, List.mem_append, Option.some.injEq]
            tauto
      next spare =>
        cases appended
        refine ⟨Nat.le_succ _, fun address => ?_, fun buffer member => ?_⟩
        · simp [holders, held, spare, addresses_cons, addresses_append, List.count_cons]
          split_ifs <;> omega
        · simp only [holders, List.mem_cons, List.mem_append, Option.some.injEq] at member
          rcases member with rfl | member
          · exact .inl ⟨Nat.le_refl _, Nat.lt_succ_self _⟩
          · refine .inr ⟨buffer, ?_, rfl, .inl List.prefix_rfl⟩
            simp only [holders, held, List.mem_cons, List.mem_append, Option.some.injEq]
            tauto

private theorem swap_moved (event : LogEvent α) (before : AsyncLogging α bufferSize) : Moved event before before.swap := by
  refine @Moved.of_pointers _ _ event before before.swap rfl ?_ ?_
  · intro address
    cases spare : before.nextBuffer_ <;>
      simp [holders, swap, spare, addresses_cons, addresses_append, addresses_nil, List.count_cons] <;> omega
  · intro buffer member
    cases spare : before.nextBuffer_ <;>
      simp only [holders, swap, spare, List.mem_cons, List.mem_append, List.not_mem_nil, Option.isNone_none,
        Option.isNone_some, Bool.false_eq_true, if_true, if_false] at member ⊢ <;>
      tauto

private theorem start_moved [OfNat α 0] (event : LogEvent α) (before : AsyncLogging α bufferSize) :
    Moved event before before.start := by
  refine ⟨Nat.le_add_right _ 2, fun address => ?_, fun buffer member => ?_⟩
  · have second : before.allocated + 1 = address ∨ before.allocated = address ↔
        before.allocated ≤ address ∧ address < before.allocated + 2 := by omega
    simp only [holders, start, addresses_cons, addresses_append, addresses_nil, List.count_append, Option.map_some,
      Option.toList_some, List.count_cons, List.count_nil, beq_iff_eq, ← second]
    split_ifs <;> omega
  · simp only [holders, start, List.mem_cons, List.mem_append, List.not_mem_nil, Option.some.injEq, or_false] at member
    rcases member with current | next | rfl | rfl | queued
    · exact .inr ⟨buffer, by simp [holders, current], rfl, .inl List.prefix_rfl⟩
    · exact .inr ⟨buffer, by simp [holders, next], rfl, .inl List.prefix_rfl⟩
    · exact .inl ⟨Nat.le_refl _, Nat.lt_add_of_pos_right (by decide)⟩
    · exact .inl ⟨Nat.le_succ _, Nat.lt_succ_self _⟩
    · exact .inr ⟨buffer, by simp [holders, queued], rfl, .inl List.prefix_rfl⟩

theorem refill_cases {spare filled : BufferPtr α bufferSize} {written left : List (BufferPtr α bufferSize)}
    (refilled : refill spare written = some (filled, left)) :
    filled = spare ∧ left = written ∨
      ∃ buffer, spare = none ∧ written = left ++ [some buffer] ∧ filled = some { buffer with buffer := buffer.buffer.reset } := by
  cases spare with
  | some buffer =>
    cases refilled
    exact .inl ⟨rfl, rfl⟩
  | none =>
    simp only [refill] at refilled
    split at refilled <;> cases refilled
    next buffer last =>
      have ends := List.getLast?_eq_some_iff.mp last
      obtain ⟨before, rfl⟩ := ends
      exact .inr ⟨buffer, rfl, by simp, rfl⟩

/-- A refill gives the spare to one owner only. -/
private theorem refill_counted {spare filled : BufferPtr α bufferSize} {written left : List (BufferPtr α bufferSize)}
    (refilled : refill spare written = some (filled, left)) (address : Nat) :
    (addresses (filled :: left)).count address = (addresses (spare :: written)).count address := by
  rcases refill_cases refilled with ⟨rfl, rfl⟩ | ⟨buffer, rfl, rfl, rfl⟩
  · rfl
  · simp [addresses_cons, addresses_append, addresses_nil, List.count_cons]

private theorem refill_from {spare filled : BufferPtr α bufferSize} {written left : List (BufferPtr α bufferSize)}
    (refilled : refill spare written = some (filled, left)) {buffer : LargeBuffer α bufferSize} (held : filled = some buffer) :
    spare = some buffer ∨ ∃ old, some old ∈ written ∧ old.address = buffer.address := by
  rcases refill_cases refilled with ⟨rfl, rfl⟩ | ⟨old, rfl, rfl, rfl⟩
  · exact .inl held
  · cases held
    exact .inr ⟨old, by simp, rfl⟩

private theorem refill_subset {spare filled : BufferPtr α bufferSize} {written left : List (BufferPtr α bufferSize)}
    (refilled : refill spare written = some (filled, left)) : left ⊆ written := by
  rcases refill_cases refilled with ⟨rfl, rfl⟩ | ⟨old, rfl, rfl, rfl⟩
  · exact List.Subset.refl _
  · exact List.subset_append_left _ _

private theorem recycle_moved {before after : AsyncLogging α bufferSize} (recycled : before.recycle = some after) :
    Moved .recycle before after := by
  simp only [recycle] at recycled
  generalize kept : (if before.buffersToWrite.length > 2 then before.buffersToWrite.take 2 else before.buffersToWrite) =
    written at recycled
  have part : written.Sublist before.buffersToWrite := by
    rw [← kept]
    split
    · exact List.take_sublist _ _
    · exact List.Sublist.refl _
  obtain ⟨⟨first, rest⟩, filled, recycled⟩ := Option.bind_eq_some_iff.mp recycled
  obtain ⟨⟨second, left⟩, refilled, recycled⟩ := Option.bind_eq_some_iff.mp recycled
  cases recycled
  refine ⟨Nat.le_refl _, fun address => ?_, fun buffer member => .inr ?_⟩
  · have one := refill_counted filled address
    have two := refill_counted refilled address
    have fewer : (addresses written).count address ≤ (addresses before.buffersToWrite).count address :=
      (part.flatMap _).count_le _
    simp only [holders, addresses_cons, addresses_append, List.count_append, List.append_nil] at *
    omega
  · simp only [holders, List.mem_cons, List.append_nil] at member
    have emptied : ∀ old, some old ∈ written → old.address = buffer.address →
        ∃ old, some old ∈ before.holders ∧ old.address = buffer.address ∧
          (old.buffer.contents <+: buffer.buffer.contents ∨
            LogEvent.recycle (α := α) = .recycle ∧ some old ∈ before.buffersToWrite) := by
      intro old found same
      have written := part.subset found
      exact ⟨old, by simp [holders, written], same, .inr ⟨rfl, written⟩⟩
    have unchanged : some buffer ∈ before.holders → ∃ old, some old ∈ before.holders ∧ old.address = buffer.address ∧
          (old.buffer.contents <+: buffer.buffer.contents ∨
            LogEvent.recycle (α := α) = .recycle ∧ some old ∈ before.buffersToWrite) :=
      fun held => ⟨buffer, held, rfl, .inl List.prefix_rfl⟩
    rcases member with current | next | one | two | queued
    · exact unchanged (by simp [holders, current])
    · exact unchanged (by simp [holders, next])
    · rcases refill_from filled one.symm with spare | ⟨old, found, same⟩
      · exact unchanged (by simp [holders, spare])
      · exact emptied old found same
    · rcases refill_from refilled two.symm with spare | ⟨old, found, same⟩
      · exact unchanged (by simp [holders, spare])
      · exact emptied old (refill_subset filled found) same
    · exact unchanged (by simp [holders, queued])

theorem step_moved [OfNat α 0] {event : LogEvent α} {before after : AsyncLogging α bufferSize}
    (stepped : step event before = some after) : Moved event before after := by
  have unmoved : ∀ {other : AsyncLogging α bufferSize}, other.allocated = before.allocated →
      other.holders = before.holders → Moved event before other :=
    fun allocated same =>
      .of_pointers allocated (fun _ => Nat.le_of_eq (by rw [same])) fun _ member => by rwa [same] at member
  cases step_cases stepped with
  | append logline appended => exact append_moved appended
  | start => exact start_moved _ before
  | swap | wake => exact swap_moved _ before
  | recycle _ recycled => exact recycle_moved recycled
  | stop | test | wait | write => exact unmoved rfl rfl

theorem Passed.of_backend {log : AsyncLogging α bufferSize} (elsewhere : ∀ next, log.backend ≠ .writing next) : Passed log :=
  fun next position => absurd position (elsewhere next)

private theorem swap_passed (log : AsyncLogging α bufferSize) : Passed log.swap := by
  intro next position
  cases position
  exact ⟨log.output, by simp [swap]⟩

theorem step_passed [OfNat α 0] {event : LogEvent α} {before after : AsyncLogging α bufferSize} (owned : Owned before)
    (passed : Passed before) (stepped : step event before = some after) : Passed after := by
  cases step_cases stepped with
  | append logline appended =>
    obtain ⟨_, enabled, change⟩ := append_appended logline owned
    cases enabled.symm.trans appended
    intro next position
    rw [change.output, change.buffersToWrite]
    exact passed next (change.backend.symm.trans position)
  | start => exact .of_backend (by simp [start])
  | stop => exact passed
  | test =>
    apply Passed.of_backend
    intro next
    cases before.running_ <;> simp
  | wait => exact .of_backend (by simp)
  | swap | wake => exact swap_passed before
  | write next buffer position found =>
    intro reached advanced
    cases advanced
    obtain ⟨earlier, output⟩ := passed next position
    refine ⟨earlier, ?_⟩
    rw [List.take_add_one, found, output]
    simp [BufferPtr.contents]
  | recycle position recycled =>
    obtain ⟨_, _, _, _, enabled⟩ := recycle_enabled owned position
    cases enabled.symm.trans recycled
    exact .of_backend (by simp)

structure Pooled (log : AsyncLogging α bufferSize) : Prop where
  owned : Owned log
  exclusive : Exclusive log
  passed : Passed log

theorem new_pooled [OfNat α 0] : Pooled (new : AsyncLogging α bufferSize) := by
  refine ⟨new_owned, ⟨by simp [holders, new, addresses], ?_⟩, .of_backend (by simp [new])⟩
  intro buffer member
  simp only [holders, new, List.mem_cons, List.append_nil, List.not_mem_nil, Option.some.injEq, or_false, reduceCtorEq] at member
  rcases member with rfl | rfl
  · exact Nat.zero_lt_two
  · exact Nat.one_lt_two

theorem step_pooled [OfNat α 0] (event : LogEvent α) (before after : AsyncLogging α bufferSize) (pooled : Pooled before)
    (stepped : step event before = some after) : Pooled after :=
  ⟨(step_change pooled.owned stepped).owned, (step_moved stepped).exclusive pooled.exclusive,
    step_passed pooled.owned pooled.passed stepped⟩

theorem run_pooled [OfNat α 0] {events : List (LogEvent α)} {log : AsyncLogging α bufferSize}
    (reached : machine.run events new = some log) : Pooled log :=
  Machine.run_preserves step_pooled reached new_pooled

/-- Only `recycle` empties a buffer, after all that was to be written was passed on. -/
theorem step_emptied [OfNat α 0] {event : LogEvent α} {before after : AsyncLogging α bufferSize} (pooled : Pooled before)
    (stepped : step event before = some after) {old buffer : LargeBuffer α bufferSize} (held : some old ∈ before.holders)
    (holds : some buffer ∈ after.holders) (same : old.address = buffer.address) :
    old.buffer.contents <+: buffer.buffer.contents ∨ event = .recycle ∧ some old ∈ before.buffersToWrite ∧
      ∃ earlier, before.output = earlier ++ before.buffersToWrite.map BufferPtr.contents := by
  rcases (step_moved stepped).from_ buffer holds with new | ⟨other, present, address, change⟩
  · have made := pooled.exclusive.made old held
    omega
  · rw [pooled.exclusive.same present held (address.trans same.symm)] at change
    apply change.imp_right
    rintro ⟨rfl, written⟩
    refine ⟨rfl, written, ?_⟩
    cases step_cases stepped with
    | recycle position recycled =>
      obtain ⟨earlier, output⟩ := pooled.passed _ position
      exact ⟨earlier, by rw [output, List.take_length]⟩

/-- In every interleaving the backend starts each iteration with two empty spares, the
frontend always has a buffer, and `recycle` finds a buffer for each null spare. No
buffer has two owners, and none is emptied before its contents were written. -/
theorem buffers_not_exhausted [OfNat α 0] {events : List (LogEvent α)} {log : AsyncLogging α bufferSize}
    (reached : machine.run events new = some log) :
    (log.backend = .testing ∨ log.backend = .locking → Fresh log.newbuffer1 ∧ Fresh log.newbuffer2) ∧
    log.currentBuffer_ ≠ none ∧
    (∀ next, log.backend = .writing next →
      log.buffersToWrite ≠ [] ∧ none ∉ log.buffersToWrite ∧ log.recycle.isSome = true) ∧
    (addresses log.holders).Nodup ∧
    (∀ event after, step event log = some after → ∀ old buffer : LargeBuffer α bufferSize,
      some old ∈ log.holders → some buffer ∈ after.holders → old.address = buffer.address →
      old.buffer.contents <+: buffer.buffer.contents ∨ event = .recycle ∧ some old ∈ log.buffersToWrite ∧
        ∃ earlier, log.output = earlier ++ log.buffersToWrite.map BufferPtr.contents) := by
  have pooled := run_pooled reached
  have spares := pooled.owned.spares
  refine ⟨?_, ?_, ?_, pooled.exclusive.once, ?_⟩
  · intro position
    rcases position with testing | locking
    · simp only [Spares, testing] at spares
      exact spares.2
    · simp only [Spares, locking] at spares
      exact spares.2
  · obtain ⟨buffer, held⟩ := pooled.owned.current
    rw [held]
    exact Option.some_ne_none buffer
  · intro next position
    simp only [Spares, position] at spares
    obtain ⟨_, _, _, _, enabled⟩ := recycle_enabled pooled.owned position
    refine ⟨List.length_pos_iff.mp spares.2.1, fun null => ?_, by rw [enabled]; rfl⟩
    obtain ⟨_, same⟩ := pooled.owned.written none null
    cases same
  · intro event after stepped old buffer held holds same
    exact step_emptied pooled stepped held holds same

/-- The frontend fills three buffers before the swap, so that both spares are refilled. -/
theorem buffers_not_exhausted_three : ∃ log : AsyncLogging Nat 4, machine.run
    [.start, .append [1, 2], .append [3, 4], .append [5, 6], .test, .lock, .append [7, 8], .write, .write, .write, .recycle]
      new = some log ∧ log.backend = .testing ∧ Fresh log.newbuffer1 ∧ Fresh log.newbuffer2 ∧
    addresses log.holders = [2, 3, 1, 0] ∧ (addresses log.holders).Nodup := by
  have computed : (machine.run
    [.start, .append [1, 2], .append [3, 4], .append [5, 6], .test, .lock, .append [7, 8], .write, .write, .write, .recycle]
      (new : AsyncLogging Nat 4)).map (fun log => (log.backend, addresses log.holders)) =
      some (.testing, [2, 3, 1, 0]) := by
    decide +kernel
  obtain ⟨log, reached, seen⟩ := Option.map_eq_some_iff.mp computed
  simp only [Prod.mk.injEq] at seen
  have pool := buffers_not_exhausted reached
  obtain ⟨first, second⟩ := pool.1 (.inl seen.1)
  exact ⟨log, reached, seen.1, first, second, seen.2, pool.2.2.2.1⟩

end Webserver.AsyncLogging
