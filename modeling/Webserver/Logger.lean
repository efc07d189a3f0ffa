import Webserver.LogStream
import Webserver.Timestamp

/-! The records of `Logger.cc`: the header that the constructor writes, and the suffix
that the destructor adds before it hands the record on. -/

namespace Webserver
open Library

inductive LogLevel where
  | TRACE
  | DEBUG
  | INFO
  | WARN
  | ERROR
  | FATAL
  deriving DecidableEq

def getLevelName : LogLevel → List Char
  | .TRACE => ['T', 'R', 'A', 'C', 'E', ' ']
  | .DEBUG => ['D', 'E', 'B', 'U', 'G', ' ']
  | .INFO => ['I', 'N', 'F', 'O', ' ', ' ']
  | .WARN => ['W', 'A', 'R', 'N', ' ', ' ']
  | .ERROR => ['E', 'R', 'R', 'O', 'R', ' ']
  | .FATAL => ['F', 'A', 'T', 'A', 'L', ' ']

def IntegralType.int : IntegralType := ⟨true, 32, by decide, by decide⟩

/-- The name of a source file, from the last slash on. -/
structure SourceFile where
  data_ : List Char
  size_ : Nat
  whole : size_ = data_.length

def SourceFile.new (filename : List Char) : SourceFile :=
  let data := (filename.reverse.takeWhile (· ≠ '/')).reverse
  ⟨data, data.length, rfl⟩

/-- The members of `Logger::Impl`. -/
structure Logger where
  time_ : Timestamp
  stream_ : LogStream
  level_ : LogLevel
  line_ : IntegralType.int.Value
  basename_ : SourceFile

/-- What the destructor does besides: it calls the output function with the record. -/
inductive LogEffect where
  | output (data : List Char)
  | flush
  | abort
  deriving DecidableEq

namespace Logger

/-- A buffer of the given size after a text was printed to it, up to the terminator. -/
def printed (size : Nat) (text : List Char) : List Char := snprintf size text ++ [Char.ofNat 0]

theorem printed_readable {size count : Nat} {text : List Char} (long : count ≤ text.length) (fits : count ≤ size) :
    count ≤ (printed size text).length := by
  simp only [printed, snprintf, List.length_append, List.length_take, List.length_singleton]
  omega

section Clock
variable (localtime : Int → Tm)

/-- The first 17 bytes of the formatted time. -/
def timer (now : Timestamp) : GeneralTemplate where
  data_ := printed 64 (formatTm (localtime now.secondsSinceEpoch))
  len_ := 17
  readable := printed_readable (Nat.le_trans (by decide) (length_formatTm _)) (by decide)

/-- The microseconds by `%06d `. -/
def micros (now : Timestamp) : GeneralTemplate where
  data_ := printed 32 (zeroPadded 6 now.microseconds ++ [' '])
  len_ := 7
  readable := printed_readable (by rw [List.length_append, length_zeroPadded, List.length_singleton]; omega) (by decide)

def formatTime (now : Timestamp) (stream : LogStream) : LogStream :=
  (stream.insert (.general (timer localtime now))).insert (.general (micros now))

def levelName (level : LogLevel) : GeneralTemplate where
  data_ := getLevelName level
  len_ := 6
  readable := by cases level <;> decide

/-- The constructor of `Logger`, with the two readings of the clock. It passes no `errno` on. -/
def new (first second : Timestamp) (filename : List Char) (line : IntegralType.int.Value) (level : LogLevel)
    (stream : LogStream) : Logger where
  time_ := first
  stream_ := (formatTime localtime second stream).insert (.general (levelName level))
  level_ := level
  line_ := line
  basename_ := .new filename

end Clock

/-- What is inserted into `stream()` between the constructor and the destructor. -/
def log (logger : Logger) (insertions : List Insertion) : Logger :=
  { logger with stream_ := insertions.foldl LogStream.insert logger.stream_ }

/-- The insertions of `finish`. -/
def suffix (basename : SourceFile) (line : IntegralType.int.Value) : List Insertion :=
  [.string [' ', '-', ' '], .general ⟨basename.data_, basename.size_, Nat.le_of_eq basename.whole⟩, .char ':',
    .integer .int line, .char '\n']

def finish (logger : Logger) : Logger := logger.log (suffix logger.basename_ logger.line_)

/-- The destructor. -/
def destroy (logger : Logger) : List LogEffect :=
  let record := .output logger.finish.stream_.contents
  if logger.level_ = .FATAL then [record, .flush, .abort] else [record]

end Logger
end Webserver
