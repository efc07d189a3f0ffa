import Webserver.Proofs.IntegerText

/-! What a sequence of insertions leaves in a stream: each is there whole or not at
all, and nothing is stored outside of the buffer. -/

namespace Webserver
open Library

/-- What an insertion adds when there is room. -/
def Insertion.text : Insertion → List Char
  | .bool express => if express then ['t', 'r', 'u', 'e'] else ['f', 'a', 'l', 's', 'e']
  | .integer _ number => decimal number.val
  | .double number => number.take 31
  | .char str => [str]
  | .string str => str
  | .general g => g.data_.take g.len_

/-- Whether an insertion has room: an integer asks for 32 bytes, whatever its length. -/
def Insertion.fits (avail : Nat) : Insertion → Bool
  | .integer _ _ => decide (LogStream.kMaxNumberSize ≤ avail)
  | insertion => decide (insertion.text.length < avail)

/-- The insertions that fit when they are made, after `used` bytes. -/
def Insertion.kept : Nat → List Insertion → List Insertion
  | _, [] => []
  | used, insertion :: insertions =>
    if insertion.fits (kSmallBufferSize - used) then insertion :: kept (used + insertion.text.length) insertions
    else kept used insertions

theorem Insertion.general_length (g : GeneralTemplate) : (Insertion.general g).text.length = g.len_ := by
  rw [Insertion.text, List.length_take, Nat.min_eq_left g.readable]

theorem Insertion.kept_general {used : Nat} {g : GeneralTemplate} (room : g.len_ < kSmallBufferSize - used)
    (insertions : List Insertion) :
    Insertion.kept used (.general g :: insertions) = .general g :: Insertion.kept (used + g.len_) insertions := by
  have fits : (Insertion.general g).fits (kSmallBufferSize - used) = true := by
    rw [← general_length g] at room
    exact decide_eq_true room
  rw [Insertion.kept, if_pos fits, general_length]

theorem Insertion.kept_string {used : Nat} {str : List Char} (room : str.length < kSmallBufferSize - used) :
    Insertion.kept used [.string str] = [.string str] := by
  have fits : (Insertion.string str).fits (kSmallBufferSize - used) = true := decide_eq_true room
  rw [Insertion.kept, if_pos fits, Insertion.kept]

namespace LogStream

structure Bounded (stream : LogStream) (used : Nat) : Prop extends Placed stream used where
  inside : stream.memory.Inside stream.data_ (stream.data_ + kSmallBufferSize)

theorem new_bounded (cells : Nat → Char) (data_ : Nat) : Bounded (new cells data_) 0 :=
  ⟨⟨rfl, rfl, by decide⟩, fun address stored => absurd stored List.not_mem_nil⟩

/-- The buffer lies in the memory at `data_`. -/
structure Represents (stream : LogStream) (buffer : FixedBuffer Char kSmallBufferSize) : Prop where
  data_ : stream.memory.read stream.data_ kSmallBufferSize = buffer.data_
  cur_ : stream.cur_ = stream.data_ + buffer.cur_
  size_ : stream.size_ = buffer.size_

/-- On the memory `append` does what it does on the buffer by itself. -/
theorem Represents.append {stream : LogStream} {buffer : FixedBuffer Char kSmallBufferSize}
    (represents : Represents stream buffer) (buf : List Char) : Represents (stream.append buf) (buffer.append buf) := by
  have bounded := buffer.bounded
  have size : kSmallBufferSize = 4000 := rfl
  have word : UInt64.size = 18446744073709551616 := rfl
  have int : UInt32.size = 4294967296 := rfl
  have avail : stream.avail = buffer.avail := by
    rw [LogStream.avail, FixedBuffer.avail, represents.size_, word, Int.emod_eq_of_lt] <;> omega
  rw [LogStream.append, FixedBuffer.append, avail]
  split
  next room =>
    unfold FixedBuffer.avail at room
    have aligned := buffer.aligned
    refine ⟨?_, ?_, ?_⟩
    · simp only [add, represents.cur_]
      rw [FlatMemory.read_copy_inside _ _ _ (by omega), represents.data_]
    · simp only [add, represents.cur_, Nat.add_assoc]
    · simp only [add, represents.size_, int]
      rw [Int.bmod_eq_of_le] <;> omega
  next => exact represents

theorem Represents.contents {stream : LogStream} {buffer : FixedBuffer Char kSmallBufferSize}
    (represents : Represents stream buffer) : stream.contents = buffer.contents := by
  rw [LogStream.contents, FixedBuffer.contents, ← represents.data_, represents.size_, Int.toNat_natCast, FixedBuffer.length,
    FlatMemory.read_segment _ _ buffer.bounded]

private theorem append_full {stream : LogStream} {buf : List Char} (full : stream.avail ≤ buf.length) :
    stream.append buf = stream := by
  rw [append, if_neg (by omega)]

theorem Bounded.append {stream : LogStream} {used : Nat} (bounded : Bounded stream used) {buf : List Char}
    (room : buf.length < stream.avail) :
    Bounded (stream.append buf) (used + buf.length) ∧ (stream.append buf).contents = stream.contents ++ buf := by
  have avail := bounded.avail
  have below := bounded.below
  have start := bounded.cur_
  rw [LogStream.append, if_pos room]
  have enough : used + buf.length < kSmallBufferSize := by omega
  have wrote := bounded.toPlaced.wrote enough (stream.memory.read_copy stream.cur_ buf)
    fun address before => FlatMemory.cells_copy_outside _ _ (.inl before)
  exact ⟨⟨wrote.1, bounded.inside.copy (by omega) (by omega)⟩, wrote.2⟩

theorem Bounded.formatInteger {stream : LogStream} {used : Nat} (bounded : Bounded stream used)
    (room : kMaxNumberSize ≤ stream.avail) {type : IntegralType} (number : type.Value) :
    Bounded (stream.formatInteger number.val) (used + (decimal number.val).length) ∧
    (stream.formatInteger number.val).contents = stream.contents ++ decimal number.val := by
  have avail := bounded.avail
  have below := bounded.below
  have start := bounded.cur_
  obtain ⟨placed, contents⟩ := bounded.toPlaced.formatInteger room number
  refine ⟨⟨placed, fun address stored => ?_⟩, contents⟩
  have data : (stream.formatInteger number.val).data_ = stream.data_ := by rw [formatInteger_eq room]; rfl
  rw [data]
  rcases formatInteger_stored room number address stored with old | new
  · exact bounded.inside address old
  · omega

private theorem formatInteger_full {stream : LogStream} (full : stream.avail < kMaxNumberSize) (num : Int) :
    stream.formatInteger num = stream := by
  rw [LogStream.formatInteger, if_neg (by omega)]

private theorem insert_full {stream : LogStream} {insertion : Insertion} (full : insertion.fits stream.avail = false) :
    stream.insert insertion = stream := by
  cases insertion with
  | integer type number => exact formatInteger_full (Nat.not_le.mp (of_decide_eq_false full)) number.val
  | _ => exact append_full (Nat.not_lt.mp (of_decide_eq_false full))

theorem Bounded.insert {stream : LogStream} {used : Nat} (bounded : Bounded stream used) {insertion : Insertion}
    (room : insertion.fits stream.avail = true) :
    Bounded (stream.insert insertion) (used + insertion.text.length) ∧
    (stream.insert insertion).contents = stream.contents ++ insertion.text := by
  cases insertion with
  | integer type number => exact bounded.formatInteger (of_decide_eq_true room) number
  | _ => exact bounded.append (of_decide_eq_true room)

private theorem append_data (stream : LogStream) (buf : List Char) : (stream.append buf).data_ = stream.data_ := by
  rw [append]
  split <;> rfl

private theorem insert_data (stream : LogStream) (insertion : Insertion) : (stream.insert insertion).data_ = stream.data_ := by
  cases insertion with
  | integer type number =>
    rw [insert, LogStream.formatInteger]
    split <;> rfl
  | _ => exact append_data stream _

theorem Bounded.foldl_insert {stream : LogStream} {used : Nat} (bounded : Bounded stream used) (insertions : List Insertion) :
    ∃ total, Bounded (insertions.foldl LogStream.insert stream) total ∧
      (insertions.foldl LogStream.insert stream).data_ = stream.data_ ∧
      (insertions.foldl LogStream.insert stream).contents =
        stream.contents ++ (Insertion.kept used insertions).flatMap Insertion.text := by
  induction insertions generalizing stream used with
  | nil => exact ⟨used, bounded, rfl, by simp [Insertion.kept]⟩
  | cons insertion insertions ih =>
    rw [List.foldl_cons, Insertion.kept, ← bounded.avail]
    cases room : insertion.fits stream.avail with
    | true =>
      obtain ⟨next, contents⟩ := bounded.insert room
      obtain ⟨total, final, data, all⟩ := ih next
      refine ⟨total, final, data.trans (insert_data stream insertion), ?_⟩
      rw [all, contents, if_pos rfl, List.flatMap_cons, List.append_assoc]
    | false =>
      rw [insert_full room, if_neg Bool.false_ne_true]
      exact ih bounded

/-- After any insertions the cursor is inside the buffer, only the buffer was stored to,
and it holds the texts of exactly the insertions that fitted; the others do nothing. -/
theorem insertions_bounded (cells : Nat → Char) (data_ : Nat) (insertions : List Insertion) :
    ∃ stream, insertions.foldl LogStream.insert (new cells data_) = stream ∧ stream.data_ = data_ ∧
      (stream.cur_ : Int) = data_ + stream.size_ ∧ 0 ≤ stream.size_ ∧ stream.size_ < 4000 ∧
      stream.memory.Inside data_ (data_ + 4000) ∧
      stream.contents = (Insertion.kept 0 insertions).flatMap Insertion.text ∧
      ∀ insertion : Insertion, insertion.fits stream.avail = false → stream.insert insertion = stream := by
  obtain ⟨total, bounded, data, contents⟩ := (new_bounded cells data_).foldl_insert insertions
  have size := bounded.size_
  have start := bounded.cur_
  have below := bounded.below
  have limit : kSmallBufferSize = 4000 := rfl
  change _ = data_ at data
  have inside := bounded.inside
  rw [data] at inside
  refine ⟨_, rfl, data, by omega, by omega, by omega, inside, ?_, fun insertion => insert_full⟩
  rw [contents]
  rfl

/-- For every stream with the room that is checked for, and for every integer type and
value, the minimum included: what is added is the canonical decimal text, which with its
terminator fits the 32 bytes. -/
theorem formatInteger_canonical (cells : Nat → Char) (data_ : Nat) (insertions : List Insertion)
    (room : kMaxNumberSize ≤ (insertions.foldl LogStream.insert (new cells data_)).avail) (type : IntegralType)
    (number : type.Value) :
    ∃ stream text, insertions.foldl LogStream.insert (new cells data_) = stream ∧
      (stream.formatInteger number.val).contents = stream.contents ++ text ∧ text = (toString number.val).toList ∧
      Canonical number.val text ∧ text.length + 1 ≤ kMaxNumberSize ∧
      ∀ address ∈ (stream.formatInteger number.val).memory.stored,
        address ∈ stream.memory.stored ∨ stream.cur_ ≤ address ∧ address < stream.cur_ + kMaxNumberSize := by
  obtain ⟨_, bounded, _⟩ := (new_bounded cells data_).foldl_insert insertions
  have added := (bounded.toPlaced.formatInteger room number).2
  exact ⟨_, decimal number.val, rfl, added, decimal_eq_toString _, canonical_decimal _, length_value number,
    formatInteger_stored room number⟩

/-- The least number of a signed type of 64 bits. -/
theorem formatInteger_canonical_lowest : ∃ stream text, LogStream.new (fun _ => ' ') 0 = stream ∧
    (stream.formatInteger (-9223372036854775808)).contents = text ∧
      text = ['-', '9', '2', '2', '3', '3', '7', '2', '0', '3', '6', '8', '5', '4', '7', '7', '5', '8', '0', '8'] ∧
      Canonical (-9223372036854775808) text := by
  obtain ⟨_, text, rfl, contents, rfl, canonical, _⟩ := formatInteger_canonical (fun _ => ' ') 0 [] (by decide)
    ⟨true, 64, by decide, by decide⟩ ⟨-9223372036854775808, by decide⟩
  exact ⟨_, _, rfl, contents, by decide +kernel, canonical⟩

end LogStream
end Webserver
