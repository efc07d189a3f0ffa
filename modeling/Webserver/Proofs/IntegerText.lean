import Webserver.Library.Decimal
import Webserver.LogStream

/-! What `formatInteger` writes through the cursor: the canonical text of the number,
for every integer type and from every position with enough room. -/

namespace Webserver
open Library

namespace LogStream

/-- The cursor stands after the `used` bytes of the buffer, which is never full. -/
structure Placed (stream : LogStream) (used : Nat) : Prop where
  size_ : stream.size_ = used
  cur_ : stream.cur_ = stream.data_ + used
  below : used < kSmallBufferSize

theorem Placed.avail {stream : LogStream} {used : Nat} (placed : Placed stream used) :
    stream.avail = kSmallBufferSize - used := by
  have below := placed.below
  have size : kSmallBufferSize = 4000 := rfl
  have word : UInt64.size = 18446744073709551616 := rfl
  rw [LogStream.avail, placed.size_, word, Int.emod_eq_of_lt] <;> omega

theorem Placed.contents {stream : LogStream} {used : Nat} (placed : Placed stream used) :
    stream.contents = stream.memory.read stream.data_ used := by
  rw [LogStream.contents, placed.size_, Int.toNat_natCast]

theorem Placed.length_contents {stream : LogStream} {used : Nat} (placed : Placed stream used) :
    stream.contents.length = used := by
  rw [placed.contents, FlatMemory.length_read]

theorem Placed.wrote {stream : LogStream} {used : Nat} (placed : Placed stream used) {memory : FlatMemory Char} {text : List Char}
    (room : used + text.length < kSmallBufferSize) (stored : memory.read stream.cur_ text.length = text)
    (kept : ∀ address < stream.cur_, memory.cells address = stream.memory.cells address) :
    Placed ({ stream with memory := memory }.add text.length) (used + text.length) ∧
    ({ stream with memory := memory }.add text.length).contents = stream.contents ++ text := by
  have size : kSmallBufferSize = 4000 := rfl
  have word : UInt32.size = 4294967296 := rfl
  have advanced : Placed ({ stream with memory := memory }.add text.length) (used + text.length) := by
    refine ⟨?_, ?_, room⟩
    · simp only [add, placed.size_, word]
      rw [Int.bmod_eq_of_le] <;> omega
    · simp only [add, placed.cur_, Nat.add_assoc]
  refine ⟨advanced, ?_⟩
  rw [advanced.contents, placed.contents, FlatMemory.read_add]
  simp only [add]
  rw [← placed.cur_, stored]
  congr 1
  apply FlatMemory.read_congr
  intro address _ before
  exact kept address (by rw [placed.cur_]; exact before)

/-- The table is mirrored: a remainder and its negative have the same digit. -/
private theorem digit_eq (num : Int) : digit num = Nat.digitChar (num.natAbs % 10) := by
  have table : ∀ i : Fin digits.length, digits.get i = Nat.digitChar ((i.val : Int) - 9).natAbs := by decide
  have bounded := remainder_bounded num
  have size : num.natAbs % 10 = (num.tmod 10).natAbs := by rw [Int.natAbs_tmod]; rfl
  rw [digit, table, size]
  congr 1
  simp only
  omega

/-- The loop stores the digits from the last one on. -/
private theorem writeDigits_eq {fuel : Nat} {num : Int} (enough : num.natAbs < fuel) (memory : FlatMemory Char) (cur : Nat) :
    writeDigits fuel memory cur num = (memory.copy cur (Nat.toDigits 10 num.natAbs).reverse,
      cur + (Nat.toDigits 10 num.natAbs).length) := by
  induction fuel generalizing num memory cur with
  | zero => exact absurd enough (Nat.not_lt_zero _)
  | succ fuel ih =>
    have rest : (num.tdiv 10).natAbs = num.natAbs / 10 := by rw [Int.natAbs_tdiv]; rfl
    rw [writeDigits, digit_eq, Nat.toDigits_eq_if (by decide)]
    by_cases last : num.natAbs < 10
    · have done : num.tdiv 10 = 0 := by omega
      rw [if_pos last, if_pos done, Nat.mod_eq_of_lt last]
      rfl
    · have more : num.tdiv 10 ≠ 0 := by omega
      rw [if_neg last, if_neg more, ih (by omega), rest, List.reverse_append, List.length_append]
      simp only [List.reverse_singleton, List.singleton_append, FlatMemory.copy, List.length_singleton, Nat.add_assoc,
        Nat.add_comm 1]

private theorem writeReversed_eq (memory : FlatMemory Char) (start : Nat) (num : Int) :
    writeReversed memory start num = (memory.copy start (decimal num).reverse, start + (decimal num).length) := by
  rw [writeReversed, writeDigits_eq (Nat.lt_succ_self _), decimal]
  by_cases negative : num < 0
  · simp only [if_pos negative, List.singleton_append, List.reverse_cons, FlatMemory.copy_append, List.length_reverse,
      List.length_cons, Nat.add_assoc]
    rfl
  · simp only [if_neg negative, List.nil_append]

theorem formatInteger_eq {stream : LogStream} (room : kMaxNumberSize ≤ stream.avail) (num : Int) :
    stream.formatInteger num =
      { stream with
          memory := (stream.memory.copy stream.cur_ ((decimal num).reverse ++ [Char.ofNat 0])).copy stream.cur_
            (decimal num) }.add (decimal num).length := by
  have terminated := stream.memory.copy_append stream.cur_ (decimal num).reverse [Char.ofNat 0]
  rw [FlatMemory.copy, FlatMemory.copy_nil, List.length_reverse] at terminated
  have reversed := stream.memory.reverse_copy_front stream.cur_ (decimal num).reverse [Char.ofNat 0]
  rw [List.length_reverse, List.reverse_reverse, terminated] at reversed
  simp only [formatInteger, if_pos room, writeReversed_eq, Nat.add_sub_cancel_left, reversed, terminated]

theorem value_small {type : IntegralType} (number : type.Value) : number.val.natAbs < Nat.pow 10 20 := by
  obtain ⟨number, above, below⟩ := number
  have half : Nat.pow 2 (type.width - 1) ≤ Nat.pow 2 64 :=
    Nat.pow_le_pow_right (by decide) (Nat.le_trans (Nat.sub_le _ _) type.bounded)
  have whole : Nat.pow 2 type.width ≤ Nat.pow 2 64 := Nat.pow_le_pow_right (by decide) type.bounded
  have large : Nat.pow 2 64 < Nat.pow 10 20 := by decide
  simp only [IntegralType.lowest, IntegralType.highest] at above below
  split at above
  next signed =>
    rw [if_pos signed] at below
    simp only
    omega
  next unsigned =>
    rw [if_neg unsigned] at below
    simp only
    omega

/-- The text and its terminator take 22 bytes at most. -/
theorem length_value {type : IntegralType} (number : type.Value) : (decimal number.val).length + 1 ≤ kMaxNumberSize := by
  have length := length_decimal_le (by decide) (value_small number)
  exact Nat.le_trans (Nat.succ_le_succ length) (by decide)

theorem Placed.formatInteger {stream : LogStream} {used : Nat} (placed : Placed stream used)
    (room : kMaxNumberSize ≤ stream.avail) {type : IntegralType} (number : type.Value) :
    Placed (stream.formatInteger number.val) (used + (decimal number.val).length) ∧
    (stream.formatInteger number.val).contents = stream.contents ++ decimal number.val := by
  have length := length_value number
  have avail := placed.avail
  have below := placed.below
  rw [formatInteger_eq room]
  apply placed.wrote
  · have limit : kMaxNumberSize = 32 := rfl
    omega
  · exact FlatMemory.read_copy _ _ _
  · intro address before
    rw [FlatMemory.cells_copy_outside _ _ (.inl before), FlatMemory.cells_copy_outside _ _ (.inl before)]

theorem formatInteger_stored {stream : LogStream} (room : kMaxNumberSize ≤ stream.avail) {type : IntegralType}
    (number : type.Value) (address : Nat) (stored : address ∈ (stream.formatInteger number.val).memory.stored) :
    address ∈ stream.memory.stored ∨ stream.cur_ ≤ address ∧ address < stream.cur_ + kMaxNumberSize := by
  have length := length_value number
  rw [formatInteger_eq room] at stored
  simp only [add, FlatMemory.mem_stored_copy, List.length_append, List.length_reverse, List.length_singleton] at stored
  rcases stored with (old | reversed) | text
  · exact .inl old
  · exact .inr (by omega)
  · exact .inr (by omega)

end LogStream
end Webserver
