import Webserver.EventLoopThreadPool
import Webserver.PolledChannels
import Webserver.TcpConnection
import Mathlib.Data.List.AList

/-! The connections of one `TcpServer`, which its base loop creates and removes while
the loop of each connection establishes, serves and destroys it. A connection is known
by its number in the order of creation. -/

namespace Webserver
open Library

/-- The `sockaddr_in` of an address: four bytes and the port. -/
structure InetAddress where
  first : UInt8
  second : UInt8
  third : UInt8
  fourth : UInt8
  port : UInt16

namespace InetAddress

def toIp (address : InetAddress) : String :=
  toString address.first.toNat ++ "." ++ toString address.second.toNat ++ "." ++
    toString address.third.toNat ++ "." ++ toString address.fourth.toNat

def toIpPort (address : InetAddress) : String := address.toIp ++ ":" ++ toString address.port.toNat

end InetAddress

/-- What is bound into the functors that concern the registry. -/
inductive ServerFunctor where
  | connectEstablished (conn : Nat)
  | connectDestroyed (conn : Nat)
  | removeConnectionInLoop (conn : Nat)
deriving DecidableEq

/-- The connection whose `shared_ptr` is bound into the functor. -/
def ServerFunctor.conn : ServerFunctor → Nat
  | .connectEstablished conn | .connectDestroyed conn | .removeConnectionInLoop conn => conn

/-- What has happened to the connections, and on which loop's thread. -/
inductive Happening where
  | created (conn : Nat) (overwrote : Bool)
  | established (conn : Nat) (thread : LoopRef)
  | handled (conn : Nat) (thread : LoopRef)
  | removed (conn : Nat)
  | destroyed (conn : Nat) (thread : LoopRef)
deriving DecidableEq

structure Connection where
  loop_ : LoopRef
  name_ : String
  state_ : StateE
  channel_ : Channel

/-- `current` is the channel whose `handleEvent` is past its close branch. -/
structure ServerLoop where
  loop : EventLoop ServerFunctor
  activeChannels_ : List (Nat × Mask)
  current : Option (Nat × Mask)

/-- The loop is in none of its functors and in none of its handlers. -/
def ServerLoop.between (serverLoop : ServerLoop) : Bool :=
  !serverLoop.loop.callingPendingFunctors_ && serverLoop.current.isNone

/-- `connections` are all `created` connections, whether or not `connections_` still has
them, and `log` is what has happened to them, oldest first. -/
structure ConnectionRegistry where
  ipPort_ : String
  name_ : String
  threadPool_ : EventLoopThreadPool
  nextConnId_ : Int32
  connections_ : AList fun _ : String => Nat
  created : Nat
  connections : Nat → Connection
  loops : LoopRef → ServerLoop
  log : List Happening

namespace ConnectionRegistry

def new (listenAddr : InetAddress) (nameArg : String) (threadPool : EventLoopThreadPool) : ConnectionRegistry where
  ipPort_ := listenAddr.toIpPort
  name_ := nameArg
  threadPool_ := threadPool
  nextConnId_ := 1
  connections_ := ∅
  created := 0
  connections _ := ⟨.baseLoop, "", .kConnecting, .new 0 0⟩
  loops _ := ⟨.new, [], none⟩
  log := []

/-- `snprintf` into `char buf[64]`. -/
def buf (ipPort : String) (id : Int32) : String :=
  String.ofList (("-" ++ ipPort ++ "#" ++ toString id.toInt).toList.take 63)

def record (entry : Happening) (state : ConnectionRegistry) : ConnectionRegistry :=
  { state with log := state.log ++ [entry] }

def onLoop (loop : LoopRef) (change : ServerLoop → ServerLoop) (state : ConnectionRegistry) : ConnectionRegistry :=
  { state with loops := Function.update state.loops loop (change (state.loops loop)) }

def onConnection (conn : Nat) (change : Connection → Connection) (state : ConnectionRegistry) : ConnectionRegistry :=
  { state with connections := Function.update state.connections conn (change (state.connections conn)) }

def setState (conn : Nat) (value : StateE) (state : ConnectionRegistry) : ConnectionRegistry :=
  state.onConnection conn fun connection => { connection with state_ := value }

/-- A call into the poller of the connection's loop, which changes the channel too. -/
def usePoller (conn : Nat) (call : EPollPoller → EPollPoller × Channel) (state : ConnectionRegistry) : ConnectionRegistry :=
  let loop_ := (state.connections conn).loop_
  let result := call (state.loops loop_).loop.poller_
  (state.onLoop loop_ fun serverLoop => { serverLoop with loop := { serverLoop.loop with poller_ := result.1 } }).onConnection
    conn fun connection => { connection with channel_ := result.2 }

def enableReading (conn : Nat) (state : ConnectionRegistry) : ConnectionRegistry :=
  state.usePoller conn fun poller => poller.updateChannel (state.connections conn).channel_.enableReading

def disableAll (conn : Nat) (state : ConnectionRegistry) : ConnectionRegistry :=
  state.usePoller conn fun poller => poller.updateChannel (state.connections conn).channel_.disableAll

def remove (conn : Nat) (state : ConnectionRegistry) : ConnectionRegistry :=
  state.usePoller conn fun poller => poller.removeChannel (state.connections conn).channel_

def tie (conn : Nat) (state : ConnectionRegistry) : ConnectionRegistry :=
  state.onConnection conn fun connection => { connection with channel_ := { connection.channel_ with tied_ := true } }

/-- `thread` is the loop whose thread makes the call, here and below. -/
def queueInLoop (thread loop : LoopRef) (cb : ServerFunctor) (state : ConnectionRegistry) : ConnectionRegistry :=
  state.onLoop loop fun serverLoop => { serverLoop with loop := serverLoop.loop.queueInLoop (thread = loop) cb }

def connectEstablished (thread : LoopRef) (conn : Nat) (state : ConnectionRegistry) : ConnectionRegistry :=
  (((state.record (.established conn thread)).setState conn .kConnected).tie conn).enableReading conn

def connectDestroyed (thread : LoopRef) (conn : Nat) (state : ConnectionRegistry) : ConnectionRegistry :=
  let entered := state.record (.destroyed conn thread)
  if (entered.connections conn).state_ = .kConnected then
    ((entered.setState conn .kDisconnected).disableAll conn).remove conn
  else entered.remove conn

def removeConnectionInLoop (thread : LoopRef) (conn : Nat) (state : ConnectionRegistry) : ConnectionRegistry :=
  let connection := state.connections conn
  let erased := { state with connections_ := state.connections_.erase connection.name_ }
  (erased.record (.removed conn)).queueInLoop thread connection.loop_ (.connectDestroyed conn)

def execute (thread : LoopRef) (cb : ServerFunctor) (state : ConnectionRegistry) : ConnectionRegistry :=
  match cb with
  | .connectEstablished conn => state.connectEstablished thread conn
  | .connectDestroyed conn => state.connectDestroyed thread conn
  | .removeConnectionInLoop conn => state.removeConnectionInLoop thread conn

def runInLoop (thread loop : LoopRef) (cb : ServerFunctor) (state : ConnectionRegistry) : ConnectionRegistry :=
  if thread = loop then state.execute thread cb else state.queueInLoop thread loop cb

/-- The map as `connections_[connName] = conn` leaves it. -/
def insert (connection : Connection) (state : ConnectionRegistry) : ConnectionRegistry :=
  { state with
    nextConnId_ := state.nextConnId_ + 1
    connections_ := state.connections_.insert connection.name_ state.created
    created := state.created + 1
    connections := Function.update state.connections state.created connection
    log := state.log ++ [.created state.created (connection.name_ ∈ state.connections_)] }

/-- There is no result when `getNextLoop` throws. -/
def newConnection (sockfd : Nat) (peerAddr : InetAddress) (state : ConnectionRegistry) : Option ConnectionRegistry :=
  match state.threadPool_.getNextLoop peerAddr.toIp with
  | .error _ => none
  | .ok ioLoop =>
    let connName := state.name_ ++ buf state.ipPort_ state.nextConnId_
    let inserted := state.insert ⟨ioLoop, connName, .kConnecting, .new state.created sockfd⟩
    some (inserted.runInLoop .baseLoop ioLoop (.connectEstablished state.created))

def removeConnection (thread : LoopRef) (conn : Nat) (state : ConnectionRegistry) : ConnectionRegistry :=
  state.runInLoop thread .baseLoop (.removeConnectionInLoop conn)

def handleClose (thread : LoopRef) (conn : Nat) (state : ConnectionRegistry) : ConnectionRegistry :=
  ((state.setState conn .kDisconnected).disableAll conn).removeConnection thread conn

/-- The destructor; `items` are the connections of the map, in the order of its iteration. -/
def destroy (items : List Nat) (state : ConnectionRegistry) : ConnectionRegistry :=
  items.foldl (fun state conn => state.runInLoop .baseLoop (state.connections conn).loop_ (.connectDestroyed conn)) state

/-- The kernel may report the channel: it is registered with the poller of this loop. -/
def Reported (state : ConnectionRegistry) (loop : LoopRef) (conn : Nat) : Prop :=
  let poller := (state.loops loop).loop.poller_
  let fd := (state.connections conn).channel_.fd_
  poller.channels_ fd = some conn ∧ (poller.epollfd_ fd).isSome

instance (state : ConnectionRegistry) (loop : LoopRef) (conn : Nat) : Decidable (state.Reported loop conn) :=
  inferInstanceAs (Decidable (_ ∧ _))

inductive RegistryEvent where
  | newConnection (sockfd : Nat) (peerAddr : InetAddress)
  | poll (loop : LoopRef) (active : List (Nat × Mask))
  | handleEvent (loop : LoopRef)
  | handleRead (loop : LoopRef) (closed : Bool)
  | swapFunctors (loop : LoopRef)
  | runFunctor (loop : LoopRef)
  | endFunctors (loop : LoopRef)

/-- The first part of `handleEvent` of the next active channel. -/
def handleEvent (loop : LoopRef) (state : ConnectionRegistry) : Option ConnectionRegistry :=
  match (state.loops loop).activeChannels_ with
  | [] => none
  | (conn, revents) :: rest =>
    let entered := (state.onLoop loop fun serverLoop =>
      { serverLoop with activeChannels_ := rest, current := some (conn, revents) }).record (.handled conn loop)
    some (if Channel.closes revents then entered.handleClose loop conn else entered)

/-- The rest of it; `closed` says that `handleRead` reads the end of the stream. -/
def handleRead (loop : LoopRef) (closed : Bool) (state : ConnectionRegistry) : Option ConnectionRegistry :=
  (state.loops loop).current.map fun event =>
    let left := state.onLoop loop fun serverLoop => { serverLoop with current := none }
    if Channel.reads event.2 && closed then left.handleClose loop event.1 else left

def runFunctor (loop : LoopRef) (state : ConnectionRegistry) : Option ConnectionRegistry :=
  match (state.loops loop).loop.functors with
  | [] => none
  | cb :: rest =>
    some ((state.onLoop loop fun serverLoop =>
      { serverLoop with loop := { serverLoop.loop with functors := rest } }).execute loop cb)

def step (event : RegistryEvent) (state : ConnectionRegistry) : Option ConnectionRegistry :=
  match event with
  | .newConnection sockfd peerAddr =>
    if (state.loops .baseLoop).between then state.newConnection sockfd peerAddr else none
  | .poll loop active =>
    if (state.loops loop).between ∧ (state.loops loop).activeChannels_ = [] ∧ ∀ event ∈ active, state.Reported loop event.1 then
      some (state.onLoop loop fun serverLoop => { serverLoop with activeChannels_ := active })
    else none
  | .handleEvent loop => if (state.loops loop).between then state.handleEvent loop else none
  | .handleRead loop closed => state.handleRead loop closed
  | .swapFunctors loop =>
    if (state.loops loop).between ∧ (state.loops loop).activeChannels_ = [] then
      some (state.onLoop loop fun serverLoop => { serverLoop with loop := serverLoop.loop.swapFunctors })
    else none
  | .runFunctor loop => state.runFunctor loop
  | .endFunctors loop =>
    if (state.loops loop).loop.callingPendingFunctors_ ∧ (state.loops loop).loop.functors = [] then
      some (state.onLoop loop fun serverLoop => { serverLoop with loop := serverLoop.loop.endFunctors })
    else none

def machine : Machine ConnectionRegistry RegistryEvent := ⟨step⟩

/-- A `shared_ptr` to the connection is in the map, in a functor that is still to run, or
the `guard` of `handleEvent`. -/
def Held (state : ConnectionRegistry) (conn : Nat) : Prop :=
  (∃ name, state.connections_.lookup name = some conn) ∨
    ∃ loop, (∃ cb ∈ (state.loops loop).loop.waiting, cb.conn = conn) ∨
      ∃ revents, (state.loops loop).current = some (conn, revents)

/-- The kernel gives a new connection a descriptor that no connection has open. -/
def Fresh (event : RegistryEvent) (state : ConnectionRegistry) : Prop :=
  match event with
  | .newConnection sockfd _ =>
    ∀ conn < state.created, state.Held conn → (state.connections conn).channel_.fd_ ≠ sockfd
  | _ => True

end ConnectionRegistry
end Webserver
