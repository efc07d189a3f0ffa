import Webserver.LogFile

/-! `FileUtil::append` with the results that `fwrite_unlocked` gives it. They are the
argument of the step that makes the calls, one after another. -/

namespace Webserver

universe u

/-- The stream takes `room` bytes, or all that it is asked to if they are fewer, and
then has `error` as its error flag, which is zero for none. -/
structure Fwrite where
  room : Nat
  error : Int
  deriving DecidableEq

/-- One call of `fwrite_unlocked`: what it was handed, and how much of it was taken. -/
structure Handed (α : Type u) where
  part : List α
  n : Nat
  deriving DecidableEq

def Handed.accepted {α : Type u} (call : Handed α) : List α := call.part.take call.n

/-- What the loop of `append` leaves: `writen`, its calls, and what it printed to `stderr`. -/
structure Loop (α : Type u) where
  writen : Nat
  calls : List (Handed α)
  stderr : List String
  deriving DecidableEq

namespace FileUtil
variable {α : Type u} (strerror : Int → String)

/-- The loop from a value of `writen` on. There is no result when it has not ended
after the given results. -/
def appendLoop (data : List α) (writen : Nat) : List Fwrite → Option (Loop α)
  | [] => if writen = data.length then some ⟨writen, [], []⟩ else none
  | result :: results =>
    if writen = data.length then some ⟨writen, [], []⟩
    else
      let part := data.drop writen
      let n := min result.room part.length
      if n ≠ part.length ∧ result.error ≠ 0 then
        some ⟨writen, [⟨part, n⟩], ["AppendFile::append() failed " ++ strerror result.error ++ "\n"]⟩
      else
        (appendLoop data (writen + n) results).map fun rest => { rest with calls := ⟨part, n⟩ :: rest.calls }

/-- `append`, with the loop that it ran. The contents are what the stream has taken. -/
def appendWith (results : List Fwrite) (data : List α) (file : FileUtil α) : Option (FileUtil α × Loop α) :=
  (appendLoop strerror data 0 results).map fun loop =>
    ({ file with
        contents := file.contents ++ loop.calls.flatMap Handed.accepted
        writtenBytes_ := file.writtenBytes_ + loop.writen }, loop)

end FileUtil
end Webserver
