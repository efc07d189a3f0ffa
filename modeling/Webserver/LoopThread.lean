import Webserver.Library.Machine
import Webserver.TcpConnection

/-! Runs of one established connection on its loop thread: user calls, write
events and the rounds of `doPendingFunctors`, in any order. -/

namespace Webserver
open Library

universe u

/-- A step of the loop thread, with the result of the system call it may make. -/
inductive LoopCall (α : Type u) where
  | send (buf : List α) (result : IoResult)
  | sendFile (fileDescriptor offset count : Nat) (result : IoResult)
  | shutdown
  | handleWrite (result : IoResult)
  | swapFunctors
  | runFunctor (result : IoResult)
  | endFunctors
  deriving DecidableEq

namespace LoopCall
variable {α : Type u}

/-- The system call of the step, if it makes one, fails with `EPIPE` or `ECONNRESET`. -/
def isFault : LoopCall α → Bool
  | .send _ result | .sendFile _ _ _ result | .handleWrite result | .runFunctor result => result.isFault
  | _ => false

def isSendFile : LoopCall α → Bool
  | .sendFile .. => true
  | _ => false

end LoopCall

namespace LoopThread
variable {α : Type u}

/-- Events are handled between two rounds of functors; user calls may come at any
time, from a handler or from a functor. -/
def step [OfNat α 0] (call : LoopCall α) (conn : TcpConnection α) : Option (TcpConnection α) :=
  match call with
  | .send buf result => if result.fits buf.length then some (conn.send buf result) else none
  | .sendFile fileDescriptor offset count result =>
    if result.fits (conn.range fileDescriptor offset count).length then
      some (conn.sendFile fileDescriptor offset count result)
    else none
  | .shutdown => some conn.shutdown
  | .handleWrite result =>
    if !conn.loop_.callingPendingFunctors_ && result.fits conn.outputBuffer_.readableBytes then
      some (conn.handleWrite result)
    else none
  | .swapFunctors =>
    if conn.loop_.callingPendingFunctors_ then none else some { conn with loop_ := conn.loop_.swapFunctors }
  | .runFunctor result =>
    match conn.loop_.functors with
    | [] => none
    | functor :: rest =>
      if result.fits (conn.request functor) then
        some ({ conn with loop_ := { conn.loop_ with functors := rest } }.execute functor result)
      else none
  | .endFunctors =>
    if conn.loop_.callingPendingFunctors_ && conn.loop_.functors.isEmpty then
      some { conn with loop_ := conn.loop_.endFunctors }
    else none

def machine [OfNat α 0] : Machine (TcpConnection α) (LoopCall α) := ⟨step⟩

/-- The bytes that an accepted `send` or `sendFile` is called with. -/
def accepts (call : LoopCall α) (conn : TcpConnection α) : Option (List α) :=
  match call with
  | .send buf _ => if conn.connected then some buf else none
  | .sendFile fileDescriptor offset count _ =>
    if conn.connected then some (conn.range fileDescriptor offset count) else none
  | _ => none

/-- The record of the accepted calls, in call order. -/
def submit (call : LoopCall α) (conn : TcpConnection α) (submitted : List (List α)) : List (List α) :=
  submitted ++ (accepts call conn).toList

/-- The machine beside the record of what has been submitted. -/
def recorded [OfNat α 0] : Machine (TcpConnection α × List (List α)) (LoopCall α) := machine.watch submit

/-- A connection at the end of `connectEstablished`, with nothing submitted. -/
def established [OfNat α 0] (setup : Setup α) : TcpConnection α × List (List α) :=
  ((TcpConnection.new setup).connectEstablished, [])

end LoopThread
end Webserver
