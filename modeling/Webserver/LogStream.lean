import Webserver.FixedBuffer
import Webserver.Library.FlatMemory

/-! The stream of `LogStream.cc`, with its buffer in a flat memory: strings are copied
by the checked `append`, integers are stored through the cursor itself. -/

namespace Webserver
open Library

def kSmallBufferSize : Nat := 4000

/-- The integer types that the stream takes. -/
structure IntegralType where
  signed : Bool
  width : Nat
  positive : 1 ≤ width
  bounded : width ≤ 64

namespace IntegralType

def lowest (type : IntegralType) : Int := if type.signed then -(Nat.pow 2 (type.width - 1)) else 0
def highest (type : IntegralType) : Int := if type.signed then Nat.pow 2 (type.width - 1) - 1 else Nat.pow 2 type.width - 1

abbrev Value (type : IntegralType) := { number : Int // type.lowest ≤ number ∧ number ≤ type.highest }

end IntegralType

/-- `len_` bytes from `data_` on. -/
structure GeneralTemplate where
  data_ : List Char
  len_ : Nat
  readable : len_ ≤ data_.length

/-- The overloads of `<<`. A `float` is inserted as a `double`, whose `%.12g` text is
taken as given, and a C string as a string. -/
inductive Insertion where
  | bool (express : Bool)
  | integer (type : IntegralType) (number : type.Value)
  | double (number : List Char)
  | char (str : Char)
  | string (str : List Char)
  | general (g : GeneralTemplate)

/-- The members of the buffer; `data_` and `cur_` are addresses. -/
structure LogStream where
  memory : FlatMemory Char
  data_ : Nat
  cur_ : Nat
  size_ : Int

namespace LogStream

def kMaxNumberSize : Nat := 32

/-- The bytes of a new object are not initialised. -/
def new (cells : Nat → Char) (data_ : Nat) : LogStream := ⟨⟨cells, []⟩, data_, data_, 0⟩

/-- The difference of two `int`s, as a `size_t`. -/
def avail (stream : LogStream) : Nat := ((kSmallBufferSize - stream.size_) % UInt64.size).toNat

/-- The sum of an `int` and a `size_t`, as an `int`. -/
def add (stream : LogStream) (len : Nat) : LogStream :=
  { stream with cur_ := stream.cur_ + len, size_ := (stream.size_ + len).bmod UInt32.size }

def append (stream : LogStream) (buf : List Char) : LogStream :=
  if stream.avail > buf.length then { stream with memory := stream.memory.copy stream.cur_ buf }.add buf.length
  else stream

def contents (stream : LogStream) : List Char := stream.memory.read stream.data_ stream.size_.toNat

def digits : List Char := ['9', '8', '7', '6', '5', '4', '3', '2', '1', '0', '1', '2', '3', '4', '5', '6', '7', '8', '9']

/-- The remainder has the sign of the number. -/
theorem remainder_bounded (num : Int) : -9 ≤ num.tmod 10 ∧ num.tmod 10 ≤ 9 := by
  have below := Int.tmod_lt_of_pos num (by decide : (0 : Int) < 10)
  have above := Int.lt_tmod_of_pos num (by decide : (0 : Int) < 10)
  omega

/-- `zero[num % 10]`, where `zero` points to the middle of the table. -/
def digit (num : Int) : Char :=
  digits.get ⟨(9 + num.tmod 10).toNat, by
    have bounded := remainder_bounded num
    have length : digits.length = 19 := rfl
    omega⟩

/-- The loop of `formatInteger`. The fuel is more than the rounds that it makes. -/
def writeDigits : Nat → FlatMemory Char → Nat → Int → FlatMemory Char × Nat
  | 0, memory, cur, _ => (memory, cur)
  | fuel + 1, memory, cur, num =>
    let memory := memory.store cur (digit num)
    let num := num.tdiv 10
    if num = 0 then (memory, cur + 1) else writeDigits fuel memory (cur + 1) num

/-- The digits and the sign, from the last digit on. -/
def writeReversed (memory : FlatMemory Char) (start : Nat) (num : Int) : FlatMemory Char × Nat :=
  let (memory, cur) := writeDigits (num.natAbs + 1) memory start num
  if num < 0 then (memory.store cur '-', cur + 1) else (memory, cur)

def formatInteger (stream : LogStream) (num : Int) : LogStream :=
  if stream.avail ≥ kMaxNumberSize then
    let start := stream.cur_
    let (memory, cur) := writeReversed stream.memory start num
    let memory := (memory.store cur (Char.ofNat 0)).reverse start (cur - start)
    { stream with memory := memory }.add (cur - start)
  else stream

/-- The buffer that a `double` is printed to has 32 bytes. -/
def insert (stream : LogStream) : Insertion → LogStream
  | .bool express => stream.append (if express then ['t', 'r', 'u', 'e'] else ['f', 'a', 'l', 's', 'e'])
  | .integer _ number => stream.formatInteger number
  | .double number => stream.append (number.take 31)
  | .char str => stream.append [str]
  | .string str => stream.append str
  | .general g => stream.append (g.data_.take g.len_)

end LogStream
end Webserver
