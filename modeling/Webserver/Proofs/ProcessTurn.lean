import Webserver.Proofs.ProcessInvariant

/-! What one step of the process can do to the life of its connection: the state,
the interest in reading and the announcements to the user. -/

namespace Webserver
open Library

universe u
variable {α : Type u}

namespace Process

def closing (event : Event α) (process : Process α) : Bool :=
  match event, process.dispatch with
  | .close, .close revents => Channel.closes revents
  | .read received, .read revents => Channel.reads revents && readCloses received
  | _, _ => false

def destroys (event : Event α) (process : Process α) : Bool :=
  match event with
  | .runFunctor _ => process.conn.loop_.functors.head? = some .connectDestroyed
  | .destroyServer => process.sameLoop && process.server.connections_
  | _ => false

structure Alike (before after : TcpConnection α) : Prop where
  state_ : after.state_ = before.state_
  reading : after.channel_.isReading = before.channel_.isReading
  announced : after.announced = before.announced

/-- `handleClose` or the end of `connectDestroyed` has run. -/
structure Over (news : List Callback) (before after : TcpConnection α) : Prop where
  state_ : after.state_ = .kDisconnected
  interest : after.channel_.events_ = Channel.kNoneEvent
  announced : after.announced = before.announced ++ news

inductive Turn (event : Event α) (before after : Process α) : Prop where
  | keeps (alike : Alike before.conn after.conn) (destroying : after.destroying = before.destroying)
      (destroyed : after.destroyed = before.destroyed)
  | begins (connecting : before.conn.state_ = .kConnecting) (state_ : after.conn.state_ = .kConnected)
      (reading : after.conn.channel_.isReading = true)
      (announced : after.conn.announced = before.conn.announced ++ [.connection true])
      (destroying : after.destroying = before.destroying) (destroyed : after.destroyed = before.destroyed)
  | shuts (live : before.conn.state_ ≠ .kConnecting) (state_ : after.conn.state_ = .kDisconnecting)
      (reading : after.conn.channel_.isReading = before.conn.channel_.isReading)
      (announced : after.conn.announced = before.conn.announced)
      (destroying : after.destroying = before.destroying) (destroyed : after.destroyed = before.destroyed)
  | tests (connected : before.conn.state_ = .kConnected) (alike : Alike before.conn after.conn)
      (destroyed : after.destroyed = before.destroyed)
  | removes (run : destroys event before = true) (live : before.conn.state_ ≠ .kConnecting)
      (other : before.conn.state_ ≠ .kConnected) (alike : Alike before.conn after.conn)
      (destroying : after.destroying = before.destroying)
  | leaves (busy : before.destroying = true) (finished : Over [.connection false] before.conn after.conn)
      (destroying : after.destroying = false)
  | closes (run : closing event before = true) (live : before.conn.state_ ≠ .kConnecting)
      (finished : Over [.connection false, .close] before.conn after.conn)
      (destroying : after.destroying = false) (destroyed : after.destroyed = before.destroyed)

theorem Alike.refl (conn : TcpConnection α) : Alike conn conn := ⟨rfl, rfl, rfl⟩

theorem Alike.frame {queued : List Functor} {before after : TcpConnection α}
    (frame : TcpConnection.Frame queued before after) : Alike before after :=
  ⟨frame.state_, frame.reading, frame.announced⟩

theorem Turn.frame {event : Event α} {queued : List Functor} {before after : Process α}
    (frame : TcpConnection.Frame queued before.conn after.conn) (destroying : after.destroying = before.destroying)
    (destroyed : after.destroyed = before.destroyed) : Turn event before after :=
  .keeps (.frame frame) destroying destroyed

theorem Turn.connectDestroyed {event : Event α} {before : Process α} {base : Process α}
    (run : destroys event before = true) (live : before.conn.state_ ≠ .kConnecting)
    (alike : Alike before.conn base.conn) (destroying : base.destroying = before.destroying)
    (destroyed : base.destroyed = before.destroyed) : Turn event before base.connectDestroyed := by
  unfold Process.connectDestroyed
  split
  next connected => exact .tests (alike.state_.symm.trans connected) alike destroyed
  next other =>
    have removed := Alike.frame (.remove base.conn)
    refine .removes run live (fun connected => other (alike.state_.trans connected)) ?_ destroying
    exact ⟨removed.state_.trans alike.state_, removed.reading.trans alike.reading, removed.announced.trans alike.announced⟩

theorem Turn.handleClose {event : Event α} {before base : Process α} (run : closing event before = true)
    (live : before.conn.state_ ≠ .kConnecting) (announced : base.conn.announced = before.conn.announced)
    (destroying : base.destroying = false) (destroyed : base.destroyed = before.destroyed) :
    Turn event before base.handleClose := by
  obtain ⟨conn, server, queued, same, queues, _⟩ :=
    Process.removeConnection_queues { base with conn := base.conn.handleClose }
  have ended := TcpConnection.Ended.handleClose base.conn
  rw [Process.handleClose, same]
  refine .closes run live ⟨queues.state_.trans ended.state_, ?_, ?_⟩ destroying destroyed
  · exact (congrArg Channel.events_ queues.channel_).trans ended.interest
  · rw [← announced]
    exact queues.announced.trans ended.announced

private theorem execute_turn [OfNat α 0] {before : Process α} (sound : Sound before) {functor : Functor} {rest : List Functor}
    (queue : before.conn.loop_.functors = functor :: rest) (keeps : functor ≠ .connectDestroyed) (result : IoResult) :
    Turn (.runFunctor result) before (before.executed functor rest result) := by
  by_cases opens : functor = .connectEstablished
  · subst functor
    have began := TcpConnection.Began.connectEstablished (before.conn.popped rest)
    exact .begins (sound.opens queue).1 began.state_ began.reading began.announced rfl rfl
  · obtain ⟨queued, frame, _⟩ := (before.conn.popped rest).execute_frame functor result opens keeps
    exact .keeps ⟨frame.state_, frame.reading, frame.announced⟩ rfl rfl

private theorem loopStep_turn [OfNat α 0] {event : Event α} {before after : Process α} (sound : Sound before)
    (free : before.destroying = false) (moved : LoopMove before event after) : Turn event before after := by
  cases moved with
  | poll | passes | refuses => exact .keeps (.refl _) rfl rfl
  | closes revents position closed =>
    exact .handleClose (by simp [closing, position, closed]) (sound.dispatching (by simp [position])) rfl free rfl
  | ends revents received position reads closed =>
    exact .handleClose (by simp [closing, position, reads, closed]) (sound.dispatching (by simp [position]))
      (TcpConnection.Frame.filled _ _).announced free rfl
  | delivers revents received conn position open_ same =>
    rcases same with rfl | rfl
    · exact .frame (.filled _ _) rfl rfl
    · exact .frame ((TcpConnection.Frame.filled _ _).trans (.invoke _ _ rfl)) rfl rfl
  | writes revents result position => exact .frame (.handleWrite _ _) rfl rfl
  | swapFunctors | endFunctors => exact .keeps ⟨rfl, rfl, rfl⟩ rfl rfl
  | destroys result rest queue =>
    exact Turn.connectDestroyed (by simp [destroys, queue]) (sound.pop queue (by simp)).1 ⟨rfl, rfl, rfl⟩ rfl rfl
  | runs result functor rest queue keeps => exact execute_turn sound queue keeps result
  | sends data len result connected held => exact .frame (.sendInLoop _ _ _) rfl rfl
  | sendsFile fileDescriptor offset count result connected =>
    obtain ⟨queued, frame, _⟩ := before.conn.sendFileInLoop_frame fileDescriptor offset count result
    exact .frame frame rfl rfl
  | shuts connected =>
    have frame := TcpConnection.Frame.shutdownInLoop (before.conn.setState .kDisconnecting)
    exact .shuts (by simp [connected]) frame.state_ frame.reading frame.announced rfl rfl

private theorem destroyServer_turn {before : Process α} (sound : Sound before) :
    Turn .destroyServer before before.destroyServer := by
  unfold Process.destroyServer
  simp only
  split
  next held =>
    split
    next same =>
      have live : before.conn.state_ ≠ .kConnecting := by
        intro connecting
        rw [(sound.fresh connecting).apart] at same
        cases same
      exact Turn.connectDestroyed (by simp [destroys, same, held]) live (.refl _) rfl rfl
    next apart => exact .frame (.queueFromThread _ _) rfl rfl
  next erased => exact .keeps (.refl _) rfl rfl

theorem step_turn [OfNat α 0] {event : Event α} {before after : Process α} (sound : Sound before)
    (stepped : before.step event = some after) : Turn event before after := by
  cases step_cases stepped with
  | loop _ _ free moved => exact loopStep_turn sound free moved
  | refuses | calls => exact .keeps (.refl _) rfl rfl
  | queues thread functor caller position bound => exact .frame (.queueFromThread _ _) rfl rfl
  | setsState thread position =>
    have inside : before.callers thread ≠ .outside := by simp [position]
    exact .shuts (sound.called inside) rfl rfl rfl rfl rfl
  | stores | discards => exact .keeps ⟨rfl, rfl, rfl⟩ rfl rfl
  | removes waits => exact .frame (removeConnectionInLoop_queues _).toFrame rfl rfl
  | destroysServer => exact destroyServer_turn sound
  | leaves busy =>
    have ended := TcpConnection.Ended.leaveConnected before.conn
    exact .leaves busy ⟨ended.state_, ended.interest, ended.announced⟩ rfl

end Process
end Webserver
