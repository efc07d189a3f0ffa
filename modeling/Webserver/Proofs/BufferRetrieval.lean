import Webserver.Proofs.BufferQueue

/-! The string of `retrieveAsString` against the bytes that the retrieval removes. The
indices are clamped to the readable bytes, the string is not. -/

namespace Webserver.Buffer
open Library

universe u
variable {α : Type u}

/-- The string is what left the front of the readable bytes. With what left before
and what is left, it is all that was ever given. -/
structure Exact (calls : List (Call α)) (buffer : Buffer α) (string : List α) (left : Buffer α) : Prop where
  removed : string = buffer.readable.take (buffer.readableBytes - left.readableBytes)
  rejoined : string ++ left.readable = buffer.readable
  conserved : (calls.foldl Call.meaning Fifo.empty).departed ++ string ++ left.readable = calls.flatMap Call.given

private theorem retrieveAsString_length {buffer left : Buffer α} {len : Nat} {string : List α}
    (retrieved : buffer.retrieveAsString len = some (string, left)) : string.length = len := by
  unfold retrieveAsString at retrieved
  split at retrieved
  next within =>
    cases retrieved
    rw [segment_length]
    omega
  next beyond => cases retrieved

/-- The string is exact just when it is no longer than the readable bytes. -/
theorem retrieval_exact_iff [OfNat α 0] (initialSize : Nat) (calls : List (Call α)) (buffer : Buffer α)
    (reached : machine.run calls (new initialSize) = some buffer) (len : Nat) :
    (∃ string left, buffer.retrieveAsString len = some (string, left) ∧ Exact calls buffer string left) ↔
      len ≤ buffer.readableBytes := by
  constructor
  · intro ⟨string, left, retrieved, exact⟩
    have joined := congrArg List.length exact.rejoined
    rw [List.length_append, readable_length, readable_length, retrieveAsString_length retrieved] at joined
    omega
  · intro inside
    have queue : buffer.readable = (calls.foldl Call.meaning Fifo.empty).queue :=
      Machine.run_refines step_refines reached (readable_new initialSize)
    have arrived := arrived_meaning calls (Fifo.empty (α := α))
    have rejoined : buffer.readable.take len ++ (buffer.retrieve len).readable = buffer.readable := by
      rw [readable_retrieve, List.take_append_drop]
    refine ⟨_, _, retrieveAsString_eq buffer len inside, ?_, rejoined, ?_⟩
    · have shorter : (buffer.retrieve len).readableBytes = buffer.readableBytes - len := by
        rw [← readable_length, readable_retrieve, List.length_drop, readable_length]
      rw [shorter, Nat.sub_sub_self inside]
    · rw [List.append_assoc, rejoined, queue, Fifo.conserved, arrived]
      rfl

/-- One byte of two, behind the two that were retrieved before. -/
theorem retrieval_exact_iff_one :
    ∃ buffer : Buffer UInt8,
      machine.run [.append [1, 2], .retrieve 2, .append [3, 4]] (new 2) = some buffer ∧
      ∃ string left, buffer.retrieveAsString 1 = some (string, left) ∧
        Exact [.append [1, 2], .retrieve 2, .append [3, 4]] buffer string left := by
  obtain ⟨buffer, reached⟩ : ∃ buffer : Buffer UInt8,
      machine.run [.append [1, 2], .retrieve 2, .append [3, 4]] (new 2) = some buffer := ⟨_, rfl⟩
  have inside : 1 ≤ buffer.readableBytes := by
    cases reached
    decide
  exact ⟨buffer, reached, (retrieval_exact_iff 2 _ buffer reached 1).mpr inside⟩

/-- Two bytes from a buffer with one: the second is of those that were retrieved before. -/
theorem retrieval_stale :
    ∃ buffer : Buffer UInt8,
      machine.run [.append [1, 2], .retrieve 2, .append [3]] (new 2) = some buffer ∧ buffer.readable = [3] ∧
      (∃ left, buffer.retrieveAsString 2 = some ([3, 2], left) ∧ left.readable = []) ∧
      ¬∃ string left, buffer.retrieveAsString 2 = some (string, left) ∧
        Exact [.append [1, 2], .retrieve 2, .append [3]] buffer string left := by
  refine ⟨_, rfl, by decide, ⟨_, rfl, by decide⟩, ?_⟩
  intro ⟨string, left, retrieved, exact⟩
  cases retrieved
  exact absurd exact.rejoined (by decide)

end Webserver.Buffer
