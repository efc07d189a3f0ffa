import Webserver.Buffer
import Webserver.EventLoop

/-! One connection of `TcpConnection.cc`, with the loop, the channel and the
kernel that its methods reach. A method that makes a system call takes the
kernel's result as an argument. -/

namespace Webserver

universe u

inductive Errno where
  | EWOULDBLOCK
  | EPIPE
  | ECONNRESET
  | other (code : Nat)
  deriving DecidableEq

/-- The result of `write` or `sendfile`: a count, or -1 with an `errno`. -/
inductive IoResult where
  | count (n : Nat)
  | error (errno : Errno)
  deriving DecidableEq

namespace IoResult

/-- A call transfers at most the `len` bytes that it was asked to. -/
def fits (len : Nat) : IoResult → Bool
  | .count n => n ≤ len
  | .error _ => true

/-- The errors after which the code gives the data up. -/
def isFault : IoResult → Bool
  | .error .EPIPE => true
  | .error .ECONNRESET => true
  | _ => false

def transferred : IoResult → Nat
  | .count n => n
  | .error _ => 0

end IoResult

inductive StateE where
  | kDisconnected
  | kConnecting
  | kConnected
  | kDisconnecting
  deriving DecidableEq

/-- What is bound into a `Functor` of the loop. A queued `sendInLoop` holds the
pointer and the length of its data, not the data. -/
inductive Functor where
  | connectEstablished
  | connectDestroyed
  | sendInLoop (data len : Nat)
  | sendFileInLoop (fileDescriptor offset count : Nat)
  | shutdownInLoop
  | writeCompleteCallback
  | highWaterMarkCallback (size : Nat)
  deriving DecidableEq

/-- A call into user code, with what `connected()` answers during it. -/
inductive Callback where
  | connection (connected : Bool)
  | message
  | writeComplete
  | highWaterMark (size : Nat)
  | close
  deriving DecidableEq

/-- A system call on the socket, with the bytes that it offered. -/
inductive SystemCall (α : Type u) where
  | write (data : List α) (result : IoResult)
  | sendfile (range : List α) (result : IoResult)
  | shutdownWrite
  deriving DecidableEq

/-- The bytes that the kernel accepted in one call. -/
def SystemCall.accepted {α : Type u} : SystemCall α → List α
  | .write data result => data.take result.transferred
  | .sendfile range result => range.take result.transferred
  | .shutdownWrite => []

/-- `memory` is the address space of the process, `files` the contents of its
open files, `calls` and `callbacks` what has happened so far, oldest first. -/
structure TcpConnection (α : Type u) where
  loop_ : EventLoop Functor
  state_ : StateE
  channel_ : Channel
  inputBuffer_ : Buffer α
  outputBuffer_ : Buffer α
  writeCompleteCallback_ : Bool
  highWaterMarkCallback_ : Bool
  highWaterMark_ : Nat
  memory : Nat → α
  files : Nat → List α
  calls : List (SystemCall α)
  callbacks : List Callback

/-- What a connection is created with and what the user sets on it. -/
structure Setup (α : Type u) where
  sockfd : Nat
  memory : Nat → α
  files : Nat → List α
  writeCompleteCallback : Bool
  highWaterMarkCallback : Bool
  highWaterMark : Nat := 64 * 1024 * 1024

namespace TcpConnection
variable {α : Type u}

def new [OfNat α 0] (setup : Setup α) : TcpConnection α where
  loop_ := .new
  state_ := .kConnecting
  channel_ := .new 0 setup.sockfd
  inputBuffer_ := .new
  outputBuffer_ := .new
  writeCompleteCallback_ := setup.writeCompleteCallback
  highWaterMarkCallback_ := setup.highWaterMarkCallback
  highWaterMark_ := setup.highWaterMark
  memory := setup.memory
  files := setup.files
  calls := []
  callbacks := []

def connected (conn : TcpConnection α) : Bool := conn.state_ = .kConnected

def setState (conn : TcpConnection α) (state : StateE) : TcpConnection α := { conn with state_ := state }

def queueInLoop (conn : TcpConnection α) (cb : Functor) : TcpConnection α :=
  { conn with loop_ := conn.loop_.queueInLoop true cb }

def invoke (conn : TcpConnection α) (callback : Callback) : TcpConnection α :=
  { conn with callbacks := conn.callbacks ++ [callback] }

def systemCall (conn : TcpConnection α) (call : SystemCall α) : TcpConnection α :=
  { conn with calls := conn.calls ++ [call] }

/-- `Channel::update` after a change of the channel's interest. -/
def update (conn : TcpConnection α) (events : Mask) : TcpConnection α :=
  let (poller, channel) := conn.loop_.poller_.updateChannel { conn.channel_ with events_ := events }
  { conn with channel_ := channel, loop_ := { conn.loop_ with poller_ := poller } }

def enableReading (conn : TcpConnection α) : TcpConnection α :=
  conn.update (conn.channel_.events_ ||| Channel.kReadEvent)

def enableWriting (conn : TcpConnection α) : TcpConnection α :=
  conn.update (conn.channel_.events_ ||| Channel.kWriteEvent)

def disableWriting (conn : TcpConnection α) : TcpConnection α :=
  conn.update (conn.channel_.events_ &&& ~~~Channel.kWriteEvent)

def disableAll (conn : TcpConnection α) : TcpConnection α := conn.update Channel.kNoneEvent

def remove (conn : TcpConnection α) : TcpConnection α :=
  let (poller, channel) := conn.loop_.poller_.removeChannel conn.channel_
  { conn with channel_ := channel, loop_ := { conn.loop_ with poller_ := poller } }

/-- The `len` bytes at address `data`, as they are now. -/
def read (conn : TcpConnection α) (data len : Nat) : List α :=
  (List.range len).map fun offset => conn.memory (data + offset)

/-- The bytes of a file that `sendfile` is asked for. -/
def range (conn : TcpConnection α) (fileDescriptor offset count : Nat) : List α :=
  ((conn.files fileDescriptor).drop offset).take count

/-- Nothing is being written: the condition under which data goes to the kernel directly. -/
def idle (conn : TcpConnection α) : Bool :=
  !conn.channel_.isWriting && conn.outputBuffer_.readableBytes == 0

def queueWriteComplete (conn : TcpConnection α) (remaining : Nat) : TcpConnection α :=
  if remaining = 0 ∧ conn.writeCompleteCallback_ then conn.queueInLoop .writeCompleteCallback else conn

def queueHighWaterMark (conn : TcpConnection α) (remaining : Nat) : TcpConnection α :=
  let oldLen := conn.outputBuffer_.readableBytes
  if oldLen + remaining ≥ conn.highWaterMark_ ∧ oldLen < conn.highWaterMark_ ∧ conn.highWaterMarkCallback_ then
    conn.queueInLoop (.highWaterMarkCallback (oldLen + remaining))
  else conn

def appendOutput [OfNat α 0] (conn : TcpConnection α) (data : List α) : TcpConnection α :=
  { conn with outputBuffer_ := conn.outputBuffer_.append data }

/-- The end of `sendInLoop`: what was not written goes to the output buffer. -/
def bufferRemaining [OfNat α 0] (conn : TcpConnection α) (rest : List α) : TcpConnection α :=
  if rest.length > 0 then
    let buffered := (conn.queueHighWaterMark rest.length).appendOutput rest
    if buffered.channel_.isWriting then buffered else buffered.enableWriting
  else conn

/-- In state `kDisconnected` the code logs an error and goes on. -/
def sendInLoop [OfNat α 0] (conn : TcpConnection α) (data : List α) (result : IoResult) : TcpConnection α :=
  if conn.idle then
    let written := conn.systemCall (.write data result)
    match result with
    | .count nwrote => (written.queueWriteComplete (data.length - nwrote)).bufferRemaining (data.drop nwrote)
    | .error errno => if errno = .EPIPE ∨ errno = .ECONNRESET then written else written.bufferRemaining data
  else conn.bufferRemaining data

/-- `send` on the loop's own thread. -/
def send [OfNat α 0] (conn : TcpConnection α) (buf : List α) (result : IoResult) : TcpConnection α :=
  if conn.state_ = .kConnected then conn.sendInLoop buf result else conn

def queueRemaining (conn : TcpConnection α) (fileDescriptor offset remaining : Nat) : TcpConnection α :=
  if remaining > 0 then conn.queueInLoop (.sendFileInLoop fileDescriptor offset remaining) else conn

/-- `sendfile` advances its copy of the offset by what it transferred. -/
def sendFileInLoop (conn : TcpConnection α) (fileDescriptor offset count : Nat) (result : IoResult) : TcpConnection α :=
  if conn.state_ = .kDisconnecting then conn
  else if conn.idle then
    let sent := conn.systemCall (.sendfile (conn.range fileDescriptor offset count) result)
    match result with
    | .count bytesSent =>
      (sent.queueWriteComplete (count - bytesSent)).queueRemaining fileDescriptor (offset + bytesSent) (count - bytesSent)
    | .error errno =>
      if errno = .EPIPE ∨ errno = .ECONNRESET then sent else sent.queueRemaining fileDescriptor offset count
  else conn.queueRemaining fileDescriptor offset count

/-- `sendFile` on the loop's own thread. -/
def sendFile (conn : TcpConnection α) (fileDescriptor offset count : Nat) (result : IoResult) : TcpConnection α :=
  if conn.connected then conn.sendFileInLoop fileDescriptor offset count result else conn

def shutdownInLoop (conn : TcpConnection α) : TcpConnection α :=
  if conn.channel_.isWriting then conn else conn.systemCall .shutdownWrite

/-- `shutdown` on the loop's own thread, where `runInLoop` calls its functor. -/
def shutdown (conn : TcpConnection α) : TcpConnection α :=
  if conn.state_ = .kConnected then (conn.setState .kDisconnecting).shutdownInLoop else conn

def connectEstablished (conn : TcpConnection α) : TcpConnection α :=
  let established := conn.setState .kConnected
  let tied := { established with channel_ := { established.channel_ with tied_ := true } }
  let reading := tied.enableReading
  reading.invoke (.connection reading.connected)

/-- The branch of `connectDestroyed` that is taken in state `kConnected`. -/
def leaveConnected (conn : TcpConnection α) : TcpConnection α :=
  let left := (conn.setState .kDisconnected).disableAll
  left.invoke (.connection left.connected)

def connectDestroyed (conn : TcpConnection α) : TcpConnection α :=
  if conn.state_ = .kConnected then conn.leaveConnected.remove else conn.remove

def handleWrite (conn : TcpConnection α) (result : IoResult) : TcpConnection α :=
  if conn.channel_.isWriting then
    let written := conn.systemCall (.write conn.outputBuffer_.readable result)
    match result with
    | .count n =>
      if n > 0 then
        let retrieved := { written with outputBuffer_ := written.outputBuffer_.retrieve n }
        if retrieved.outputBuffer_.readableBytes = 0 then
          let drained := retrieved.disableWriting.queueWriteComplete 0
          if drained.state_ = .kDisconnecting then drained.shutdownInLoop else drained
        else retrieved
      else written
    | .error _ => written
  else conn

def handleClose (conn : TcpConnection α) : TcpConnection α :=
  let closed := (conn.setState .kDisconnected).disableAll
  (closed.invoke (.connection closed.connected)).invoke .close

/-- `received` is what `readv` delivers; a failed read only logs. -/
def handleRead [OfNat α 0] (conn : TcpConnection α) (received : Option (List α)) : TcpConnection α :=
  let (n, buffer) := conn.inputBuffer_.readFd received
  let filled := { conn with inputBuffer_ := buffer }
  match n with
  | none => filled
  | some 0 => filled.handleClose
  | some _ => filled.invoke .message

/-- Run one functor of the loop. -/
def execute [OfNat α 0] (conn : TcpConnection α) (functor : Functor) (result : IoResult) : TcpConnection α :=
  match functor with
  | .connectEstablished => conn.connectEstablished
  | .connectDestroyed => conn.connectDestroyed
  | .sendInLoop data len => conn.sendInLoop (conn.read data len) result
  | .sendFileInLoop fileDescriptor offset count => conn.sendFileInLoop fileDescriptor offset count result
  | .shutdownInLoop => conn.shutdownInLoop
  | .writeCompleteCallback => conn.invoke .writeComplete
  | .highWaterMarkCallback size => conn.invoke (.highWaterMark size)

/-- The most that the system call of a functor can transfer. -/
def request (conn : TcpConnection α) : Functor → Nat
  | .sendInLoop _ len => len
  | .sendFileInLoop fileDescriptor offset count => (conn.range fileDescriptor offset count).length
  | _ => 0

end TcpConnection
end Webserver
