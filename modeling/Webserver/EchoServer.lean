import Webserver.Process

/-! The echo server of `main.cc` at one of its connections: the process whose only call of
`send` is the one that `onMessage` makes, in the read event that brought the message. -/

namespace Webserver
open Library

universe u

def Buffer.retrieveAllAsString {α : Type u} (buffer : Buffer α) : Option (List α × Buffer α) :=
  buffer.retrieveAsString buffer.readableBytes

/-- The events of the process but for those of a user, and the read event with the result
of the `write` that the answer may make. -/
inductive EchoEvent (α : Type u) where
  | process (event : Event α)
  | read (received : Option (List α)) (result : IoResult)

namespace EchoEvent
variable {α : Type u}

/-- The `write` of the answer, if it makes one, fails with `EPIPE` or `ECONNRESET`. -/
def isFault : EchoEvent α → Bool
  | .read _ result => result.isFault
  | .process _ => false

end EchoEvent

namespace EchoServer
variable {α : Type u}

def onMessage [OfNat α 0] (conn : TcpConnection α) (result : IoResult) : Option (TcpConnection α) :=
  conn.inputBuffer_.retrieveAllAsString.bind fun (msg, buffer) =>
    if result.fits msg.length then some (TcpConnection.send { conn with inputBuffer_ := buffer } msg result) else none

/-- The read event reaches `messageCallback_`. -/
def delivers (process : Process α) (received : Option (List α)) : Bool :=
  match process.dispatch, received with
  | .read revents, some (_ :: _) => Channel.reads revents
  | _, _ => false

/-- No thread but the loop's uses the connection. -/
def internal : Event α → Bool
  | .read _ | .send .. | .sendFile .. | .shutdown | .call .. | .proceed _ | .store .. | .discard .. => false
  | _ => true

def step [OfNat α 0] (event : EchoEvent α) (process : Process α) : Option (Process α) :=
  match event with
  | .process event => if internal event then process.step event else none
  | .read received result =>
    (process.step (.read received)).bind fun handled =>
      if delivers process received then
        (onMessage handled.conn result).map fun conn => { handled with conn := conn }
      else some handled

def machine [OfNat α 0] : Machine (Process α) (EchoEvent α) := ⟨step⟩

/-- The record of the messages, in the order in which they came. -/
def record (event : EchoEvent α) (process : Process α) (messages : List (List α)) : List (List α) :=
  match event with
  | .read (some received) _ => if delivers process (some received) then messages ++ [received] else messages
  | _ => messages

def recorded [OfNat α 0] : Machine (Process α × List (List α)) (EchoEvent α) := machine.watch record

end EchoServer
end Webserver
