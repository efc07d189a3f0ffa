import Webserver.Library.Machine
import Webserver.TcpConnection

/-! A connection among the threads of its server: its loop, the loop of the
server and any number of threads that call `send`, `sendFile` and `shutdown`. A
test of `state_` and the action that follows it are steps of their own wherever
another thread can come between. -/

namespace Webserver
open Library

universe u

/-- A call of the user on another thread. A `send` has the address of its data. -/
inductive Request where
  | send (data len : Nat)
  | sendFile (fileDescriptor offset count : Nat)
  | shutdown
  deriving DecidableEq

/-- Where another thread is in such a call, past the test of `state_`. -/
inductive Caller where
  | outside
  | tested (request : Request)
  | shuttingDown
  deriving DecidableEq

/-- The branch of `handleEventWithGuard` that is next, with `revents_`. -/
inductive Dispatch where
  | idle
  | close (revents : Mask)
  | error (revents : Mask)
  | read (revents : Mask)
  | write (revents : Mask)
  deriving DecidableEq

/-- The part of `TcpServer` that concerns the connection. `removals` counts the
`removeConnectionInLoop` functors in the queue of the server's loop. -/
structure TcpServer where
  connections_ : Bool
  removals : Nat
  destructed : Bool
  deriving DecidableEq

/-- `destroying` is the loop thread inside `connectDestroyed` after its test, and
`destroyed` says that a `connectDestroyed` has returned. `sameLoop` says that the
loop of the connection is the server's own. `freed` is the memory whose string is
gone; after a read of it, which sets `dangling`, the language promises nothing. -/
structure Process (α : Type u) where
  conn : TcpConnection α
  freed : Nat → Bool
  dangling : Bool
  callers : Nat → Caller
  dispatch : Dispatch
  destroying : Bool
  destroyed : Bool
  server : TcpServer
  sameLoop : Bool

/-- The steps of the loop thread, of other threads and of the server's loop. -/
inductive Event (α : Type u) where
  | poll (revents : Mask)
  | close
  | error
  | read (received : Option (List α))
  | write (result : IoResult)
  | swapFunctors
  | runFunctor (result : IoResult)
  | endFunctors
  | leaveConnected
  | send (data len : Nat) (result : IoResult)
  | sendFile (fileDescriptor offset count : Nat) (result : IoResult)
  | shutdown
  | call (thread : Nat) (request : Request)
  | proceed (thread : Nat)
  | store (address : Nat) (byte : α)
  | discard (data len : Nat)
  | removeConnectionInLoop
  | destroyServer
  deriving DecidableEq

/-- `queueInLoop`, and `runInLoop`, on a thread that is not the loop's. -/
def TcpConnection.queueFromThread {α : Type u} (conn : TcpConnection α) (cb : Functor) : TcpConnection α :=
  { conn with loop_ := conn.loop_.queueInLoop false cb }

namespace Process
variable {α : Type u}

/-- `TcpServer::newConnection`: `connectEstablished` runs at once on the loop's own thread. -/
def newConnection [OfNat α 0] (setup : Setup α) (sameLoop : Bool) : Process α where
  conn :=
    if sameLoop then (TcpConnection.new setup).connectEstablished
    else (TcpConnection.new setup).queueFromThread .connectEstablished
  freed := fun _ => false
  dangling := false
  callers := fun _ => .outside
  dispatch := .idle
  destroying := false
  destroyed := false
  server := ⟨true, 0, false⟩
  sameLoop := sameLoop

/-- The `len` bytes at address `data` belong to a string that still exists. -/
def holds (process : Process α) (data len : Nat) : Bool := (List.range len).all fun offset => !process.freed (data + offset)

/-- The string that a call of `send` is given exists. -/
def given (process : Process α) : Request → Bool
  | .send data len => process.holds data len
  | _ => true

/-- The functor reads memory that is freed. -/
def dangles (process : Process α) : Functor → Bool
  | .sendInLoop data len => !process.holds data len
  | _ => false

def removeConnectionInLoop (process : Process α) : Process α :=
  { process with
    conn :=
      if process.sameLoop then process.conn.queueInLoop .connectDestroyed
      else process.conn.queueFromThread .connectDestroyed
    server := { process.server with connections_ := false } }

/-- `closeCallback_`, which is bound to the server; a server that is gone removes nothing. -/
def removeConnection (process : Process α) : Process α :=
  if process.server.destructed then process
  else if process.sameLoop then process.removeConnectionInLoop
  else { process with server := { process.server with removals := process.server.removals + 1 } }

/-- `connectDestroyed` up to its test of `state_`, and to its end if that fails. -/
def connectDestroyed (process : Process α) : Process α :=
  if process.conn.state_ = .kConnected then { process with destroying := true }
  else { process with conn := process.conn.remove, destroyed := true }

/-- The read callback ends in `handleClose`. -/
def readCloses : Option (List α) → Bool
  | some [] => true
  | _ => false

def handleRead [OfNat α 0] (process : Process α) (received : Option (List α)) : Process α :=
  let handled := { process with conn := process.conn.handleRead received }
  if readCloses received then handled.removeConnection else handled

def handleClose (process : Process α) : Process α :=
  { process with conn := process.conn.handleClose }.removeConnection

/-- One thread's next step inside its call. -/
def proceed (process : Process α) (thread : Nat) : Option (Process α) :=
  let move (conn : TcpConnection α) (caller : Caller) : Process α :=
    { process with conn := conn, callers := Function.update process.callers thread caller }
  match process.callers thread with
  | .outside => none
  | .tested (.send data len) => some (move (process.conn.queueFromThread (.sendInLoop data len)) .outside)
  | .tested (.sendFile fileDescriptor offset count) =>
    some (move (process.conn.queueFromThread (.sendFileInLoop fileDescriptor offset count)) .outside)
  | .tested .shutdown => some (move (process.conn.setState .kDisconnecting) .shuttingDown)
  | .shuttingDown => some (move (process.conn.queueFromThread .shutdownInLoop) .outside)

/-- Run the first functor of the batch. -/
def runFunctor [OfNat α 0] (process : Process α) (result : IoResult) : Option (Process α) :=
  match process.conn.loop_.functors with
  | [] => none
  | functor :: rest =>
    let popped := { process.conn with loop_ := { process.conn.loop_ with functors := rest } }
    if functor = .connectDestroyed then some { process with conn := popped }.connectDestroyed
    else if result.fits (popped.request functor) then
      some { process with
        conn := popped.execute functor result
        dangling := process.dangling || process.dangles functor }
    else none

/-- `~TcpServer`, on the server's loop. -/
def destroyServer (process : Process α) : Process α :=
  let gone := { process with server := { process.server with connections_ := false, destructed := true } }
  if process.server.connections_ then
    if process.sameLoop then gone.connectDestroyed
    else { gone with conn := gone.conn.queueFromThread .connectDestroyed }
  else gone

/-- The loop thread is between two handlers or functors, or in a callback of the user. -/
def loopStep [OfNat α 0] (event : Event α) (process : Process α) : Option (Process α) :=
  match event with
  | .poll revents =>
    if !process.conn.loop_.callingPendingFunctors_ && process.dispatch = .idle &&
        (process.conn.loop_.poller_.epollfd_ process.conn.channel_.fd_).isSome then
      some { process with dispatch := .close revents }
    else none
  | .close =>
    match process.dispatch with
    | .close revents =>
      let next := { process with dispatch := .error revents }
      some (if Channel.closes revents then next.handleClose else next)
    | _ => none
  | .error =>
    match process.dispatch with
    | .error revents => some { process with dispatch := .read revents }
    | _ => none
  | .read received =>
    match process.dispatch with
    | .read revents =>
      let next := { process with dispatch := .write revents }
      if !Channel.reads revents then some next
      else if (received.getD []).length ≤ process.conn.inputBuffer_.offered then some (next.handleRead received)
      else none
    | _ => none
  | .write result =>
    match process.dispatch with
    | .write revents =>
      let next := { process with dispatch := .idle }
      if !Channel.writes revents then some next
      else if result.fits process.conn.outputBuffer_.readableBytes then
        some { next with conn := process.conn.handleWrite result }
      else none
    | _ => none
  | .swapFunctors =>
    if !process.conn.loop_.callingPendingFunctors_ && process.dispatch = .idle then
      some { process with conn := { process.conn with loop_ := process.conn.loop_.swapFunctors } }
    else none
  | .runFunctor result => process.runFunctor result
  | .endFunctors =>
    if process.conn.loop_.callingPendingFunctors_ && process.conn.loop_.functors.isEmpty then
      some { process with conn := { process.conn with loop_ := process.conn.loop_.endFunctors } }
    else none
  | .send data len result =>
    if process.holds data len && result.fits len then
      some { process with conn := process.conn.send (process.conn.read data len) result }
    else none
  | .sendFile fileDescriptor offset count result =>
    if result.fits (process.conn.range fileDescriptor offset count).length then
      some { process with conn := process.conn.sendFile fileDescriptor offset count result }
    else none
  | .shutdown => some { process with conn := process.conn.shutdown }
  | _ => none

/-- A call of another thread starts with its test of `state_`. A store to memory that
was freed is made by the string that has it next. -/
def step [OfNat α 0] (event : Event α) (process : Process α) : Option (Process α) :=
  match event with
  | .call thread request =>
    if process.callers thread = .outside ∧ process.given request = true then
      if process.conn.state_ = .kConnected then
        some { process with callers := Function.update process.callers thread (.tested request) }
      else some process
    else none
  | .proceed thread => process.proceed thread
  | .store address byte =>
    some { process with
      conn := { process.conn with memory := Function.update process.conn.memory address byte }
      freed := Function.update process.freed address false }
  | .discard data len =>
    if process.holds data len then
      some { process with freed := fun address => process.freed address || (data ≤ address && address < data + len) }
    else none
  | .removeConnectionInLoop =>
    if !process.server.destructed && 0 < process.server.removals then
      some { process with server := { process.server with removals := process.server.removals - 1 } }.removeConnectionInLoop
    else none
  | .destroyServer =>
    if !process.server.destructed && !(process.sameLoop && process.destroying) then some process.destroyServer else none
  | .leaveConnected =>
    if process.destroying then
      some { process with conn := process.conn.leaveConnected.remove, destroying := false, destroyed := true }
    else none
  | event => if process.destroying then none else process.loopStep event

def machine [OfNat α 0] : Machine (Process α) (Event α) := ⟨step⟩

end Process
end Webserver
