import Webserver.Library.Segment

/-! The network buffer of `Buffer.h` and `Buffer.cc`. A value of the type carries
its index invariant, so every operation proves that it keeps the indices in
order. Sizes are unbounded: the model is the code where no `size_t` sum wraps. -/

namespace Webserver
open Library

universe u

def kCheapPrepend : Nat := 8
def kInitialSize : Nat := 1024

structure Buffer (α : Type u) where
  buffer_ : List α
  readerIndex_ : Nat
  writerIndex_ : Nat
  prepended : kCheapPrepend ≤ readerIndex_
  ordered : readerIndex_ ≤ writerIndex_
  bounded : writerIndex_ ≤ buffer_.length

namespace Buffer
variable {α : Type u}

def new [OfNat α 0] (initialSize : Nat := kInitialSize) : Buffer α where
  buffer_ := List.replicate (kCheapPrepend + initialSize) 0
  readerIndex_ := kCheapPrepend
  writerIndex_ := kCheapPrepend
  prepended := Nat.le_refl _
  ordered := Nat.le_refl _
  bounded := by simp

def readableBytes (buffer : Buffer α) : Nat := buffer.writerIndex_ - buffer.readerIndex_
def writableBytes (buffer : Buffer α) : Nat := buffer.buffer_.length - buffer.writerIndex_
def prependableBytes (buffer : Buffer α) : Nat := buffer.readerIndex_

/-- The bytes from `peek()` up to `beginWrite()`. -/
def readable (buffer : Buffer α) : List α := segment buffer.buffer_ buffer.readerIndex_ buffer.writerIndex_

def retrieveAll (buffer : Buffer α) : Buffer α where
  buffer_ := buffer.buffer_
  readerIndex_ := kCheapPrepend
  writerIndex_ := kCheapPrepend
  prepended := Nat.le_refl _
  ordered := Nat.le_refl _
  bounded := Nat.le_trans buffer.prepended (Nat.le_trans buffer.ordered buffer.bounded)

def retrieve (buffer : Buffer α) (len : Nat) : Buffer α :=
  if inside : len < buffer.readableBytes then
    { buffer with
      readerIndex_ := buffer.readerIndex_ + len
      prepended := Nat.le_trans buffer.prepended (Nat.le_add_right _ _)
      ordered := by unfold readableBytes at inside; omega }
  else
    buffer.retrieveAll

/-- The string is built from `len` bytes at `peek()`. There is no result when
that reads past the end of the vector. -/
def retrieveAsString (buffer : Buffer α) (len : Nat) : Option (List α × Buffer α) :=
  if buffer.readerIndex_ + len ≤ buffer.buffer_.length then
    some (segment buffer.buffer_ buffer.readerIndex_ (buffer.readerIndex_ + len), buffer.retrieve len)
  else
    none

/-- Grow the vector, or slide the readable bytes down to `kCheapPrepend`. -/
def makeSpace [OfNat α 0] (buffer : Buffer α) (len : Nat) : Buffer α :=
  if buffer.writableBytes + buffer.prependableBytes < len + kCheapPrepend then
    { buffer with
      buffer_ := resize buffer.buffer_ (buffer.writerIndex_ + len) 0
      bounded := by simp }
  else
    { buffer_ := overwrite buffer.buffer_ kCheapPrepend buffer.readable
      readerIndex_ := kCheapPrepend
      writerIndex_ := kCheapPrepend + buffer.readableBytes
      prepended := Nat.le_refl _
      ordered := Nat.le_add_right _ _
      bounded := by
        have first := buffer.prepended
        have second := buffer.ordered
        have third := buffer.bounded
        rw [overwrite_length _ _ _ (by simp only [readable, segment_length]; omega)]
        unfold readableBytes
        omega }

def ensureWritableBytes [OfNat α 0] (buffer : Buffer α) (len : Nat) : Buffer α :=
  if buffer.writableBytes < len then buffer.makeSpace len else buffer

theorem ensureWritableBytes_writable [OfNat α 0] (buffer : Buffer α) (len : Nat) :
    len ≤ (buffer.ensureWritableBytes len).writableBytes := by
  unfold ensureWritableBytes
  split
  next short =>
    have first := buffer.prepended
    have second := buffer.ordered
    have third := buffer.bounded
    unfold makeSpace
    split
    next grows => simp only [writableBytes, resize_length]; omega
    next slides =>
      simp only [writableBytes]
      rw [overwrite_length _ _ _ (by simp only [readable, segment_length]; omega)]
      simp only [writableBytes, prependableBytes, readableBytes] at slides ⊢
      omega
  next enough => omega

/-- Copy `data` to `beginWrite()`, which must have room for it. -/
def copyToWrite (buffer : Buffer α) (data : List α) (room : data.length ≤ buffer.writableBytes) : Buffer α where
  buffer_ := overwrite buffer.buffer_ buffer.writerIndex_ data
  readerIndex_ := buffer.readerIndex_
  writerIndex_ := buffer.writerIndex_ + data.length
  prepended := buffer.prepended
  ordered := Nat.le_trans buffer.ordered (Nat.le_add_right _ _)
  bounded := by
    have last := buffer.bounded
    unfold writableBytes at room
    rw [overwrite_length _ _ _ (by omega)]
    omega

def append [OfNat α 0] (buffer : Buffer α) (data : List α) : Buffer α :=
  (buffer.ensureWritableBytes data.length).copyToWrite data (buffer.ensureWritableBytes_writable data.length)

/-- `sizeof extrabuf` in `readFd`. -/
def extrabufSize : Nat := 65536

/-- The total length of the vectors that `readFd` offers to `readv`. -/
def offered (buffer : Buffer α) : Nat :=
  if buffer.writableBytes < extrabufSize then buffer.writableBytes + extrabufSize else buffer.writableBytes

/-- `received` is what `readv` delivers, `none` when it fails. The first vector is
the tail of the buffer; what does not fit there goes through `extrabuf`. The
number of bytes is the result of the function, `none` for a negative one. -/
def readFd [OfNat α 0] (buffer : Buffer α) (received : Option (List α)) : Option Nat × Buffer α :=
  match received with
  | none => (none, buffer)
  | some bytes =>
    let filled := buffer.copyToWrite (bytes.take buffer.writableBytes) (List.length_take_le _ _)
    if bytes.length ≤ buffer.writableBytes then (some bytes.length, filled)
    else (some bytes.length, filled.append (bytes.drop buffer.writableBytes))

end Buffer
end Webserver
