import Webserver.Library.Segment

/-! The fixed log buffers of `FixedBuffer.h`. A value of the type carries what
`append` relies on: the cursor stands after the data, inside the array. -/

namespace Webserver
open Library

universe u

def kLargeBufferSize : Nat := 4000 * 1000

/-- `cur_` is kept as its distance from `data_`. -/
structure FixedBuffer (α : Type u) (bufferSize : Nat) where
  data_ : List α
  cur_ : Nat
  size_ : Nat
  full : data_.length = bufferSize
  aligned : cur_ = size_
  bounded : size_ ≤ bufferSize

namespace FixedBuffer
variable {α : Type u} {bufferSize : Nat}

/-- The array of a new object is taken to hold zeros. -/
def new [OfNat α 0] : FixedBuffer α bufferSize where
  data_ := List.replicate bufferSize 0
  cur_ := 0
  size_ := 0
  full := List.length_replicate
  aligned := rfl
  bounded := Nat.zero_le _

def avail (buffer : FixedBuffer α bufferSize) : Nat := bufferSize - buffer.size_
def length (buffer : FixedBuffer α bufferSize) : Nat := buffer.size_

/-- The `length()` bytes from `data()` on. -/
def contents (buffer : FixedBuffer α bufferSize) : List α := segment buffer.data_ 0 buffer.length

def append (buffer : FixedBuffer α bufferSize) (buf : List α) : FixedBuffer α bufferSize :=
  if room : buf.length < buffer.avail then
    { data_ := overwrite buffer.data_ buffer.cur_ buf
      cur_ := buffer.cur_ + buf.length
      size_ := buffer.size_ + buf.length
      full := by
        have aligned := buffer.aligned
        have full := buffer.full
        unfold avail at room
        rw [overwrite_length _ _ _ (by omega), full]
      aligned := by rw [buffer.aligned]
      bounded := by unfold avail at room; omega }
  else buffer

def reset (buffer : FixedBuffer α bufferSize) : FixedBuffer α bufferSize where
  data_ := buffer.data_
  cur_ := 0
  size_ := 0
  full := buffer.full
  aligned := rfl
  bounded := Nat.zero_le _

def bzero [OfNat α 0] (buffer : FixedBuffer α bufferSize) : FixedBuffer α bufferSize where
  data_ := List.replicate bufferSize 0
  cur_ := buffer.cur_
  size_ := buffer.size_
  full := List.length_replicate
  aligned := buffer.aligned
  bounded := buffer.bounded

theorem contents_nil {buffer : FixedBuffer α bufferSize} (empty : buffer.size_ = 0) : buffer.contents = [] := by
  rw [contents, length, empty, segment_empty]

theorem contents_append (buffer : FixedBuffer α bufferSize) (buf : List α) (room : buf.length < buffer.avail) :
    (buffer.append buf).contents = buffer.contents ++ buf := by
  have full := buffer.full
  have bounded := buffer.bounded
  simp only [append, dif_pos room, contents, length, buffer.aligned]
  exact segment_overwrite _ _ _ _ (Nat.zero_le _) (by omega)

end FixedBuffer
end Webserver
