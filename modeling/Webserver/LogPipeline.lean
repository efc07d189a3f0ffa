import Webserver.AsyncLogging
import Webserver.LogFile
import Webserver.Logger

/-! The asynchronous log together with the `LogFile` that `threadFunc` keeps: what the
backend does to the files happens in the steps of the log. -/

namespace Webserver
open Library

universe u

/-- The buffer that the backend passes to `LogFile::append` next. -/
def AsyncLogging.chunk {α : Type u} {bufferSize : Nat} (log : AsyncLogging α bufferSize) : Option (List α) :=
  match log.backend with
  | .writing next =>
    match log.buffersToWrite[next]? with
    | some (some buffer) => some buffer.buffer.contents
    | _ => none
  | _ => none

/-- `output` is the local of `threadFunc`, which is not there before the start. -/
structure LogPipeline (α : Type u) (bufferSize : Nat) where
  log : AsyncLogging α bufferSize
  basename_ : String
  rollSize_ : Int
  output : Option (LogFile α)

/-- The events of the log, with the readings of the clock that the files need. The
`count_` of the new `LogFile` is whatever the memory held. -/
inductive PipelineEvent (α : Type u) where
  | append (logline : List α)
  | start (count now : Int)
  | stop
  | test
  | lock
  | wake
  | write (now later : Int)
  | recycle

namespace PipelineEvent

def log {α : Type u} : PipelineEvent α → LogEvent α
  | .append logline => .append logline
  | .start _ _ => .start
  | .stop => .stop
  | .test => .test
  | .lock => .lock
  | .wake => .wake
  | .write _ _ => .write
  | .recycle => .recycle

end PipelineEvent

namespace LogPipeline
variable {α : Type u} {bufferSize : Nat}

def kFlushInterval : Int := 3
def kCheckEveryN : Int := 1024

def new [OfNat α 0] (basename : String) (rollSize : Int) : LogPipeline α bufferSize := ⟨.new, basename, rollSize, none⟩

section Clock
variable (strftime : Int → String)

/-- What the step does to `output`: it is made at the start, written to, flushed after every
iteration and after the last one, and destroyed at the end. -/
def written (event : PipelineEvent α) (pipeline : LogPipeline α bufferSize) : Option (Option (LogFile α)) :=
  match event with
  | .start count now =>
    some (some (.new strftime pipeline.basename_ pipeline.rollSize_ kFlushInterval kCheckEveryN count now))
  | .test =>
    if pipeline.log.running_ then some pipeline.output
    else (pipeline.output.bind LogFile.flush).map fun output => some output.destroy
  | .write now later =>
    pipeline.log.chunk.bind fun data =>
      (pipeline.output.bind (LogFile.appendInlock strftime data now later)).map some
  | .recycle => (pipeline.output.bind LogFile.flush).map some
  | _ => some pipeline.output

def step [OfNat α 0] (event : PipelineEvent α) (pipeline : LogPipeline α bufferSize) :
    Option (LogPipeline α bufferSize) :=
  (AsyncLogging.step event.log pipeline.log).bind fun log =>
    (pipeline.written strftime event).map fun output => { pipeline with log := log, output := output }

def machine [OfNat α 0] : Machine (LogPipeline α bufferSize) (PipelineEvent α) := ⟨step strftime⟩

/-- The machine beside the record of the appended lines. -/
def recorded [OfNat α 0] : Machine (LogPipeline α bufferSize × List (List α)) (PipelineEvent α) :=
  (machine strftime).watch fun event pipeline appended => AsyncLogging.record event.log pipeline.log appended

end Clock

/-- All files that were made, in the order of their creation. -/
def files (pipeline : LogPipeline α bufferSize) : List (FileUtil α) := (pipeline.output.map LogFile.files).getD []

def durable (pipeline : LogPipeline α bufferSize) : List α := (pipeline.output.map LogFile.durable).getD []

end LogPipeline

instance charNul : OfNat Char 0 := ⟨Char.ofNat 0⟩

/-- A log statement of the program: what its `Logger` is constructed with, what the memory
of its stream held, and what is inserted. -/
structure LogStatement where
  first : Timestamp
  second : Timestamp
  filename : List Char
  line : IntegralType.int.Value
  level : LogLevel
  cells : Nat → Char
  data_ : Nat
  insertions : List Insertion

/-- The `Logger` of the statement, just before it is destroyed. -/
def LogStatement.logger (localtime : Int → Tm) (statement : LogStatement) : Logger :=
  (Logger.new localtime statement.first statement.second statement.filename statement.line statement.level
    (.new statement.cells statement.data_)).log statement.insertions

end Webserver
