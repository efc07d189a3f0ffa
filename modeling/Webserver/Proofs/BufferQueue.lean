import Webserver.Library.Fifo
import Webserver.Library.Machine
import Webserver.Buffer

/-! The buffer is a byte queue: each operation acts on the readable bytes as the
corresponding operation of a first-in first-out queue, over runs of any length. -/

namespace Webserver.Buffer
open Library

universe u
variable {α : Type u}

@[simp]
theorem readable_length (buffer : Buffer α) : buffer.readable.length = buffer.readableBytes := by
  have last := buffer.bounded
  simp only [readable, segment_length, readableBytes]
  omega

@[simp]
theorem readable_new [OfNat α 0] (initialSize : Nat) : (new initialSize : Buffer α).readable = [] :=
  segment_empty _ _

@[simp]
theorem readable_retrieveAll (buffer : Buffer α) : buffer.retrieveAll.readable = [] :=
  segment_empty _ _

@[simp]
theorem readable_retrieve (buffer : Buffer α) (len : Nat) :
    (buffer.retrieve len).readable = buffer.readable.drop len := by
  unfold retrieve
  split
  next inside => exact (segment_drop _ _ _ _).symm
  next outside =>
    rw [readable_retrieveAll, List.drop_of_length_le]
    rw [readable_length]
    omega

theorem retrieveAsString_eq (buffer : Buffer α) (len : Nat) (inside : len ≤ buffer.readableBytes) :
    buffer.retrieveAsString len = some (buffer.readable.take len, buffer.retrieve len) := by
  have middle := buffer.ordered
  have last := buffer.bounded
  unfold readableBytes at inside
  rw [retrieveAsString, if_pos (by omega), readable, segment_take _ _ _ _ (by omega)]

@[simp]
private theorem readable_ensureWritableBytes [OfNat α 0] (buffer : Buffer α) (len : Nat) :
    (buffer.ensureWritableBytes len).readable = buffer.readable := by
  have first := buffer.prepended
  have middle := buffer.ordered
  have last := buffer.bounded
  unfold ensureWritableBytes
  split
  next short =>
    unfold makeSpace
    unfold writableBytes at short
    split
    next grows => exact segment_resize _ _ _ _ _ last (by omega)
    next slides =>
      have moved := segment_overwrite buffer.buffer_ kCheapPrepend kCheapPrepend buffer.readable (Nat.le_refl _) (by omega)
      rw [segment_empty, List.nil_append, readable_length] at moved
      exact moved
  next enough => rfl

@[simp]
private theorem readable_copyToWrite (buffer : Buffer α) (data : List α) (room : data.length ≤ buffer.writableBytes) :
    (buffer.copyToWrite data room).readable = buffer.readable ++ data :=
  segment_overwrite _ _ _ _ buffer.ordered buffer.bounded

@[simp]
theorem readable_append [OfNat α 0] (buffer : Buffer α) (data : List α) :
    (buffer.append data).readable = buffer.readable ++ data := by
  simp [append]

/-- However `readv` splits the bytes over the two vectors, they arrive in order. -/
theorem readable_readFd [OfNat α 0] (buffer : Buffer α) (received : Option (List α)) :
    (buffer.readFd received).2.readable = buffer.readable ++ received.getD [] := by
  cases received with
  | none => simp [readFd]
  | some bytes =>
    simp only [readFd, Option.getD_some]
    split
    next fits => simp [List.take_of_length_le fits]
    next spills => simp [List.append_assoc]

inductive Call (α : Type u) where
  | append (data : List α)
  | retrieve (len : Nat)
  | retrieveAll
  | retrieveAsString (len : Nat)
  | ensureWritableBytes (len : Nat)
  | readFd (received : Option (List α))

/-- `readv` delivers at most what is offered, and the string is taken from the
readable bytes: the two conditions that callers and the kernel observe. -/
def Call.enabled (buffer : Buffer α) : Call α → Bool
  | .retrieveAsString len => len ≤ buffer.readableBytes
  | .readFd (some bytes) => bytes.length ≤ buffer.offered
  | _ => true

def Call.apply [OfNat α 0] (buffer : Buffer α) : Call α → Option (Buffer α)
  | .append data => some (buffer.append data)
  | .retrieve len => some (buffer.retrieve len)
  | .retrieveAll => some buffer.retrieveAll
  | .retrieveAsString len => (buffer.retrieveAsString len).map Prod.snd
  | .ensureWritableBytes len => some (buffer.ensureWritableBytes len)
  | .readFd received => some (buffer.readFd received).2

def machine [OfNat α 0] : Machine (Buffer α) (Call α) where
  step call buffer := if call.enabled buffer then call.apply buffer else none

/-- What the call means for a byte queue, whatever the buffer does inside. -/
def Call.meaning (fifo : Fifo α) : Call α → Fifo α
  | .append data => fifo.put data
  | .retrieve len => fifo.take len
  | .retrieveAll => fifo.take fifo.queue.length
  | .retrieveAsString len => fifo.take len
  | .ensureWritableBytes _ => fifo
  | .readFd received => fifo.put (received.getD [])

def Call.given : Call α → List α
  | .append data => data
  | .readFd received => received.getD []
  | _ => []

theorem step_refines [OfNat α 0] (call : Call α) (before after : Buffer α) (fifo : Fifo α)
    (same : before.readable = fifo.queue) (stepped : machine.step call before = some after) :
    after.readable = (Call.meaning fifo call).queue := by
  simp only [machine] at stepped
  split at stepped
  next enabled =>
    cases call with
    | append data => cases stepped; simp [Call.meaning, Fifo.put, same]
    | retrieve len => cases stepped; simp [Call.meaning, Fifo.take, same]
    | retrieveAll => cases stepped; simp [Call.meaning, Fifo.take]
    | retrieveAsString len =>
      have inside : len ≤ before.readableBytes := by simpa [Call.enabled] using enabled
      simp only [Call.apply, retrieveAsString_eq before len inside, Option.map_some] at stepped
      cases stepped
      simp [Call.meaning, Fifo.take, same]
    | ensureWritableBytes len => cases stepped; simp [Call.meaning, same]
    | readFd received => cases stepped; simp [Call.meaning, Fifo.put, same, readable_readFd]
  next disabled => cases stepped

theorem arrived_meaning (calls : List (Call α)) (fifo : Fifo α) :
    (calls.foldl Call.meaning fifo).arrived = fifo.arrived ++ calls.flatMap Call.given := by
  induction calls generalizing fifo with
  | nil => simp
  | cons call calls ih =>
    rw [List.foldl_cons, ih]
    cases call <;> simp [Call.meaning, Call.given, Fifo.put, Fifo.take]

/-- Over every run the indices stay in order and the readable bytes are those of
the queue: what was retrieved, followed by what is readable, is everything
appended or received. A retrieved string is the front of the readable bytes;
making room and a failed read leave them alone. -/
theorem refines_byte_queue [OfNat α 0] (initialSize : Nat) (calls : List (Call α)) (buffer : Buffer α)
    (reached : machine.run calls (new initialSize) = some buffer) :
    (kCheapPrepend ≤ buffer.readerIndex_ ∧ buffer.readerIndex_ ≤ buffer.writerIndex_ ∧
      buffer.writerIndex_ ≤ buffer.buffer_.length) ∧
    buffer.readable = (calls.foldl Call.meaning Fifo.empty).queue ∧
    (calls.foldl Call.meaning Fifo.empty).departed ++ buffer.readable = calls.flatMap Call.given ∧
    (∀ len ≤ buffer.readableBytes,
      buffer.retrieveAsString len = some (buffer.readable.take len, buffer.retrieve len)) ∧
    (∀ len, (buffer.ensureWritableBytes len).readable = buffer.readable) ∧
    (buffer.readFd none).2.readable = buffer.readable := by
  have queue : buffer.readable = (calls.foldl Call.meaning Fifo.empty).queue :=
    Machine.run_refines step_refines reached (readable_new initialSize)
  have arrived := arrived_meaning calls (Fifo.empty (α := α))
  refine ⟨⟨buffer.prepended, buffer.ordered, buffer.bounded⟩, queue, ?_, buffer.retrieveAsString_eq,
    buffer.readable_ensureWritableBytes, rfl⟩
  rw [queue, Fifo.conserved, arrived]
  rfl

/-- Six bytes through a buffer of two: the vector grows and slides. -/
theorem refines_byte_queue_six :
    ∃ buffer : Buffer UInt8,
      machine.run [.append [1, 2, 3], .retrieve 2, .append [4, 5], .readFd (some [6]), .retrieveAsString 1] (new 2) =
        some buffer ∧
      buffer.readable = [4, 5, 6] ∧ (buffer.ensureWritableBytes 9).readable = buffer.readable := by
  obtain ⟨buffer, reached⟩ : ∃ buffer : Buffer UInt8, machine.run
      [.append [1, 2, 3], .retrieve 2, .append [4, 5], .readFd (some [6]), .retrieveAsString 1] (new 2) = some buffer :=
    ⟨_, rfl⟩
  obtain ⟨_, queue, _, _, ensured, _⟩ := refines_byte_queue 2 _ buffer reached
  exact ⟨buffer, reached, queue.trans (by decide), ensured 9⟩

end Webserver.Buffer
