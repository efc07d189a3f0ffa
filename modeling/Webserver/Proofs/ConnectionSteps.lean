import Webserver.ConnectionRegistry

/-! What one step of the server does to its connections, said once: a constructor for
each branch that succeeds, with its guards. The invariants are case analyses over it. -/

namespace Webserver
open Library

namespace ConnectionRegistry

abbrev made (state : ConnectionRegistry) (ioLoop : LoopRef) (sockfd : Nat) : Connection :=
  ⟨ioLoop, state.name_ ++ buf state.ipPort_ state.nextConnId_, .kConnecting, .new state.created sockfd⟩

/-- The connection is in the map, and `connectEstablished` has run or is queued. -/
abbrev accepted (state : ConnectionRegistry) (ioLoop : LoopRef) (sockfd : Nat) : ConnectionRegistry :=
  (state.insert (state.made ioLoop sockfd)).runInLoop .baseLoop ioLoop (.connectEstablished state.created)

/-- The loop is in `handleEvent` of the first of its active channels. -/
abbrev entered (state : ConnectionRegistry) (loop : LoopRef) (conn : Nat) (revents : Mask) (rest : List (Nat × Mask)) :
    ConnectionRegistry :=
  (state.onLoop loop fun serverLoop =>
    { serverLoop with activeChannels_ := rest, current := some (conn, revents) }).record (.handled conn loop)

abbrev left (state : ConnectionRegistry) (loop : LoopRef) : ConnectionRegistry :=
  state.onLoop loop fun serverLoop => { serverLoop with current := none }

abbrev popped (state : ConnectionRegistry) (loop : LoopRef) (rest : List ServerFunctor) : ConnectionRegistry :=
  state.onLoop loop fun serverLoop => { serverLoop with loop := { serverLoop.loop with functors := rest } }

inductive Move (before : ConnectionRegistry) : RegistryEvent → ConnectionRegistry → Prop where
  | accepts (sockfd : Nat) (peerAddr : InetAddress) (ioLoop : LoopRef) (between : (before.loops .baseLoop).between = true)
      (chosen : before.threadPool_.getNextLoop peerAddr.toIp = .ok ioLoop) :
      Move before (.newConnection sockfd peerAddr) (before.accepted ioLoop sockfd)
  | polls (loop : LoopRef) (active : List (Nat × Mask)) (between : (before.loops loop).between = true)
      (handled : (before.loops loop).activeChannels_ = []) (reported : ∀ event ∈ active, before.Reported loop event.1) :
      Move before (.poll loop active) (before.onLoop loop fun serverLoop => { serverLoop with activeChannels_ := active })
  | enters (loop : LoopRef) (conn : Nat) (revents : Mask) (rest : List (Nat × Mask))
      (between : (before.loops loop).between = true) (first : (before.loops loop).activeChannels_ = (conn, revents) :: rest)
      (up : Channel.closes revents = false) : Move before (.handleEvent loop) (before.entered loop conn revents rest)
  | closes (loop : LoopRef) (conn : Nat) (revents : Mask) (rest : List (Nat × Mask))
      (between : (before.loops loop).between = true) (first : (before.loops loop).activeChannels_ = (conn, revents) :: rest)
      (closed : Channel.closes revents = true) :
      Move before (.handleEvent loop) ((before.entered loop conn revents rest).handleClose loop conn)
  | leaves (loop : LoopRef) (closed : Bool) (conn : Nat) (revents : Mask)
      (inside : (before.loops loop).current = some (conn, revents)) (up : (Channel.reads revents && closed) = false) :
      Move before (.handleRead loop closed) (before.left loop)
  | ends (loop : LoopRef) (closed : Bool) (conn : Nat) (revents : Mask)
      (inside : (before.loops loop).current = some (conn, revents)) (read : (Channel.reads revents && closed) = true) :
      Move before (.handleRead loop closed) ((before.left loop).handleClose loop conn)
  | swaps (loop : LoopRef) (between : (before.loops loop).between = true)
      (handled : (before.loops loop).activeChannels_ = []) :
      Move before (.swapFunctors loop)
        (before.onLoop loop fun serverLoop => { serverLoop with loop := serverLoop.loop.swapFunctors })
  | runs (loop : LoopRef) (cb : ServerFunctor) (rest : List ServerFunctor)
      (queue : (before.loops loop).loop.functors = cb :: rest) :
      Move before (.runFunctor loop) ((before.popped loop rest).execute loop cb)
  | finishes (loop : LoopRef) (calling : (before.loops loop).loop.callingPendingFunctors_ = true)
      (finished : (before.loops loop).loop.functors = []) :
      Move before (.endFunctors loop)
        (before.onLoop loop fun serverLoop => { serverLoop with loop := serverLoop.loop.endFunctors })

theorem step_cases {event : RegistryEvent} {before after : ConnectionRegistry}
    (stepped : machine.step event before = some after) : Move before event after := by
  cases event with
  | newConnection sockfd peerAddr =>
    obtain ⟨between, stepped⟩ := Option.ite_none_right_eq_some.mp stepped
    unfold newConnection at stepped
    split at stepped <;> cases stepped
    next ioLoop chosen => exact .accepts sockfd peerAddr ioLoop between chosen
  | poll loop active =>
    obtain ⟨⟨between, handled, reported⟩, stepped⟩ := Option.ite_none_right_eq_some.mp stepped
    cases stepped
    exact .polls loop active between handled reported
  | handleEvent loop =>
    obtain ⟨between, stepped⟩ := Option.ite_none_right_eq_some.mp stepped
    unfold handleEvent at stepped
    split at stepped <;> cases stepped
    next conn revents rest first =>
      split
      next closed => exact .closes loop conn revents rest between first closed
      next up => exact .enters loop conn revents rest between first (by simpa using up)
  | handleRead loop closed =>
    obtain ⟨⟨conn, revents⟩, inside, rfl⟩ := Option.map_eq_some_iff.mp stepped
    dsimp only
    split
    next read => exact .ends loop closed conn revents inside read
    next up => exact .leaves loop closed conn revents inside (eq_false_of_ne_true up)
  | swapFunctors loop =>
    obtain ⟨⟨between, handled⟩, stepped⟩ := Option.ite_none_right_eq_some.mp stepped
    cases stepped
    exact .swaps loop between handled
  | runFunctor loop =>
    change before.runFunctor loop = some after at stepped
    unfold runFunctor at stepped
    split at stepped <;> cases stepped
    next cb rest queue => exact .runs loop cb rest queue
  | endFunctors loop =>
    obtain ⟨⟨calling, finished⟩, stepped⟩ := Option.ite_none_right_eq_some.mp stepped
    cases stepped
    exact .finishes loop calling finished

end ConnectionRegistry
end Webserver
