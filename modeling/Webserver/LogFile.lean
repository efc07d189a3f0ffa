import Webserver.Library.Machine

/-! The rolling log of `LogFile.cc` on the files of `FileUtil.cc`. Each call of `time`
is an argument of the step that makes it, and `fwrite` takes all that it is given. -/

namespace Webserver
open Library

universe u

/-- `created` is the reading of the clock that the name was made of, `flushed` how many
bytes have been flushed by `flush`. -/
structure FileUtil (α : Type u) where
  filename : String
  created : Int
  contents : List α
  writtenBytes_ : Int
  flushed : Nat

namespace FileUtil
variable {α : Type u}

def new (filename : String) (created : Int) : FileUtil α := ⟨filename, created, [], 0, 0⟩

def append (file : FileUtil α) (data : List α) : FileUtil α :=
  { file with contents := file.contents ++ data, writtenBytes_ := file.writtenBytes_ + data.length }

def flush (file : FileUtil α) : FileUtil α := { file with flushed := file.contents.length }

end FileUtil

/-- `closed` are the files that `file_` was reset from, oldest first. -/
structure LogFile (α : Type u) where
  basename_ : String
  rollsize_ : Int
  flushInterval_ : Int
  checkEveryN_ : Int
  count_ : Int
  startOfPeriod_ : Int
  lastRoll_ : Int
  lastFlush_ : Int
  file_ : Option (FileUtil α)
  closed : List (FileUtil α)

namespace LogFile
variable {α : Type u}

def kRollPerSeconds_ : Int := 60 * 60 * 24

/-- All files, in the order of their creation. -/
def files (log : LogFile α) : List (FileUtil α) := log.closed ++ log.file_.toList

section Clock
variable (strftime : Int → String)

def getLogFileName (basename : String) (now : Int) : String := basename ++ strftime now ++ ".log"

/-- The division of `time_t` rounds towards zero. -/
def periodOf (now : Int) : Int := now.tdiv kRollPerSeconds_ * kRollPerSeconds_

def rollFile (now : Int) (log : LogFile α) : Bool × LogFile α :=
  if now > log.lastRoll_ then
    (true, { log with
      lastFlush_ := now
      lastRoll_ := now
      startOfPeriod_ := periodOf now
      file_ := some (.new (getLogFileName strftime log.basename_ now) now)
      closed := log.files })
  else (false, log)

/-- The code does not initialise `count_`. -/
def new (basename : String) (rollsize flushInterval checkEveryN count now : Int) : LogFile α :=
  (rollFile strftime now
    { basename_ := basename
      rollsize_ := rollsize
      flushInterval_ := flushInterval
      checkEveryN_ := checkEveryN
      count_ := count
      startOfPeriod_ := 0
      lastRoll_ := 0
      lastFlush_ := 0
      file_ := none
      closed := [] }).2

/-- `++` of an `int`, which is taken to wrap. -/
def increment (count : Int) : Int := if count = 2147483647 then -2147483648 else count + 1

/-- The first step of `appendInlock`. There is no result when `file_` is null. -/
def write (data : List α) (log : LogFile α) : Option (FileUtil α × LogFile α) :=
  log.file_.map fun file =>
    (file.append data, { log with file_ := some (file.append data), count_ := increment log.count_ })

/-- Whether `appendInlock` calls `rollFile`, and what it leaves in `count_`. -/
def rolls (now : Int) (file : FileUtil α) (log : LogFile α) : Bool × Int :=
  if file.writtenBytes_ > log.rollsize_ then (true, log.count_)
  else if log.count_ ≥ log.checkEveryN_ then (periodOf now != log.startOfPeriod_, 0)
  else (false, log.count_)

/-- The first check of `appendInlock`. -/
def checkRoll (now later : Int) (file : FileUtil α) (log : LogFile α) : LogFile α :=
  let (roll, count) := log.rolls now file
  if roll then (rollFile strftime later { log with count_ := count }).2 else { log with count_ := count }

/-- The second check, which does not depend on the first. -/
def checkFlush (now : Int) (log : LogFile α) : LogFile α :=
  if now - log.lastFlush_ > log.flushInterval_ then { log with lastFlush_ := now, file_ := log.file_.map FileUtil.flush }
  else log

/-- `now` is the reading of `appendInlock`, `later` that of `rollFile` if it is called. -/
def appendInlock (data : List α) (now later : Int) (log : LogFile α) : Option (LogFile α) := do
  let (file, written) ← log.write data
  return (written.checkRoll strftime now later file).checkFlush now

/-- A call of `append`, with the readings of the clock that it makes. -/
structure Append (α : Type u) where
  data : List α
  now : Int
  later : Int

def machine : Machine (LogFile α) (Append α) where
  step call log := log.appendInlock strftime call.data call.now call.later

end Clock

/-- There is no result when `file_` is null. -/
def flush (log : LogFile α) : Option (LogFile α) := log.file_.map fun file => { log with file_ := some file.flush }

/-- The destructor closes the file. -/
def destroy (log : LogFile α) : LogFile α := { log with file_ := none, closed := log.files }

/-- What is safe if the process ends now: a file that was closed, and what was flushed of the open one. -/
def durable (log : LogFile α) : List α :=
  log.closed.flatMap FileUtil.contents ++ log.file_.toList.flatMap fun file => file.contents.take file.flushed

/-- A call of a public function. -/
inductive Call (α : Type u) where
  | append (call : Append α)
  | flush
  | rollFile (now : Int)

/-- The readings of the clock that a call may make, in their order. -/
def Call.readings : Call α → List Int
  | .append call => [call.now, call.later]
  | .flush => []
  | .rollFile now => [now]

def Call.appended : Call α → List (Append α)
  | .append call => [call]
  | _ => []

/-- Any of the public functions, one call at a time. -/
def calls (strftime : Int → String) : Machine (LogFile α) (Call α) where
  step call log :=
    match call with
    | .append call => log.appendInlock strftime call.data call.now call.later
    | .flush => log.flush
    | .rollFile now => some (log.rollFile strftime now).2

end LogFile
end Webserver
