import Webserver.Proofs.ProcessStep

/-! What holds in every reachable state of the process: the functor queue is run
in its order, the kernel's interest list agrees with the channel, and nothing
comes before `connectEstablished`. -/

namespace Webserver
open Library

universe u
variable {α : Type u}

namespace Process

structure Fresh (process : Process α) : Prop where
  waits : ∃ rest, process.conn.loop_.waiting = .connectEstablished :: rest ∧ .connectEstablished ∉ rest
  unregistered : process.conn.channel_.index_ ≠ .kAdded
  unread : process.conn.channel_.isReading = false
  unannounced : process.conn.announced = []
  outside : ∀ thread, process.callers thread = .outside
  idle : process.dispatch = .idle
  apart : process.sameLoop = false

structure Sound (process : Process α) : Prop where
  batch : process.conn.loop_.callingPendingFunctors_ = false → process.conn.loop_.functors = []
  tracked : process.conn.loop_.poller_.Tracks process.conn.channel_
  fresh : process.conn.state_ = .kConnecting → Fresh process
  established : process.conn.state_ ≠ .kConnecting → .connectEstablished ∉ process.conn.work
  destroying : process.destroying = true → process.conn.state_ = .kConnected ∨ process.conn.state_ = .kDisconnecting

theorem newConnection_sound [OfNat α 0] (setup : Setup α) (sameLoop : Bool) : Sound (newConnection setup sameLoop) := by
  have tracks : (EPollPoller.new).Tracks (Channel.new 0 setup.sockfd) := rfl
  have unread : (Channel.new 0 setup.sockfd).isReading = false := by
    change (Channel.kNoneEvent &&& Channel.kReadEvent != 0) = false
    decide
  cases sameLoop with
  | true =>
    have began := TcpConnection.Began.connectEstablished (TcpConnection.new setup)
    refine ⟨fun _ => rfl, began.tracked tracks, ?_, fun _ => List.not_mem_nil, ?_⟩
    · intro connecting
      cases connecting
    · intro set
      cases set
  | false =>
    refine ⟨fun _ => rfl, tracks, ?_, fun live => absurd rfl live, ?_⟩
    · intro _
      refine ⟨⟨[], rfl, List.not_mem_nil⟩, ?_, unread, rfl, fun _ => rfl, rfl, rfl⟩
      intro added
      cases added
    · intro set
      cases set

theorem Sound.frame {queued : List Functor} {before after : Process α} (sound : Sound before)
    (live : before.conn.state_ ≠ .kConnecting) (frame : TcpConnection.Frame queued before.conn after.conn)
    (plain : .connectEstablished ∉ queued) (destroying : after.destroying = true → before.destroying = true) :
    Sound after where
  batch finished := by
    rw [frame.functors]
    exact sound.batch (frame.calling ▸ finished)
  tracked := frame.tracked sound.tracked
  fresh connecting := absurd (frame.state_ ▸ connecting) live
  established _ := by
    rw [frame.work, List.mem_append]
    exact not_or.mpr ⟨sound.established live, plain⟩
  destroying set := frame.state_ ▸ sound.destroying (destroying set)

theorem Sound.ended {news : List Callback} {before after : Process α} (sound : Sound before)
    (live : before.conn.state_ ≠ .kConnecting) (ended : TcpConnection.Ended news before.conn after.conn)
    (destroying : after.destroying = false) : Sound after where
  batch finished := by
    rw [ended.functors]
    exact sound.batch (ended.calling ▸ finished)
  tracked := ended.tracked sound.tracked
  fresh connecting := by rw [ended.state_] at connecting; cases connecting
  established _ := ended.work ▸ sound.established live
  destroying set := by rw [destroying] at set; cases set

theorem Sound.disconnecting {before : Process α} (sound : Sound before) (live : before.conn.state_ ≠ .kConnecting) :
    Sound { before with conn := before.conn.setState .kDisconnecting } where
  batch := sound.batch
  tracked := sound.tracked
  fresh connecting := by cases connecting
  established _ := sound.established live
  destroying _ := .inr rfl

theorem Fresh.same {before after : Process α} (fresh : Fresh before)
    (waiting : after.conn.loop_.waiting = before.conn.loop_.waiting)
    (channel : after.conn.channel_ = before.conn.channel_) (announced : after.conn.announced = before.conn.announced)
    (callers : after.callers = before.callers) (dispatch : after.dispatch = before.dispatch)
    (sameLoop : after.sameLoop = before.sameLoop) : Fresh after where
  waits := waiting ▸ fresh.waits
  unregistered := channel ▸ fresh.unregistered
  unread := channel ▸ fresh.unread
  unannounced := announced.trans fresh.unannounced
  outside := callers ▸ fresh.outside
  idle := dispatch.trans fresh.idle
  apart := sameLoop.trans fresh.apart

/-- Only the registered channel of an established connection has events. -/
theorem Sound.registered {process : Process α} (sound : Sound process)
    (registered : (process.conn.loop_.poller_.epollfd_ process.conn.channel_.fd_).isSome = true) :
    process.conn.state_ ≠ .kConnecting := by
  intro connecting
  rw [sound.tracked, if_neg (sound.fresh connecting).unregistered] at registered
  cases registered

theorem Sound.dispatching {process : Process α} (sound : Sound process) (busy : process.dispatch ≠ .idle) :
    process.conn.state_ ≠ .kConnecting :=
  fun connecting => busy (sound.fresh connecting).idle

theorem removeConnectionInLoop_queues (process : Process α) :
    TcpConnection.Queues [.connectDestroyed] process.conn process.removeConnectionInLoop.conn := by
  unfold removeConnectionInLoop
  simp only
  split
  · exact .queueInLoop _ _ rfl
  · exact .queueFromThread _ _ rfl

theorem removeConnection_queues (process : Process α) :
    ∃ conn server queued, process.removeConnection = { process with conn := conn, server := server } ∧
      TcpConnection.Queues queued process.conn conn ∧ .connectEstablished ∉ queued := by
  unfold removeConnection
  split
  · exact ⟨process.conn, process.server, [], rfl, .refl _, List.not_mem_nil⟩
  · split
    · exact ⟨_, _, _, rfl, process.removeConnectionInLoop_queues, by simp⟩
    · exact ⟨process.conn, _, [], rfl, .refl _, List.not_mem_nil⟩

theorem Sound.removeConnection {process : Process α} (sound : Sound process) (live : process.conn.state_ ≠ .kConnecting) :
    Sound process.removeConnection := by
  obtain ⟨conn, server, queued, same, queues, plain⟩ := process.removeConnection_queues
  rw [same]
  exact sound.frame live queues.toFrame plain id

/-- A `connectDestroyed` may be queued at any time, also before `connectEstablished` has run. -/
theorem Sound.queues {before after : Process α} (sound : Sound before)
    (queues : TcpConnection.Queues [.connectDestroyed] before.conn after.conn)
    (callers : after.callers = before.callers) (dispatch : after.dispatch = before.dispatch)
    (sameLoop : after.sameLoop = before.sameLoop) (destroying : after.destroying = before.destroying) : Sound after := by
  by_cases connecting : before.conn.state_ = .kConnecting
  · have fresh := sound.fresh connecting
    obtain ⟨rest, waiting, once⟩ := fresh.waits
    refine ⟨?_, queues.tracked sound.tracked, fun _ => ⟨?_, ?_, ?_, ?_, ?_, ?_, ?_⟩, ?_, ?_⟩
    · intro finished
      rw [queues.functors]
      exact sound.batch (queues.calling ▸ finished)
    · exact ⟨rest ++ [.connectDestroyed], by rw [queues.waiting, waiting]; rfl, by simp [once]⟩
    · exact queues.channel_ ▸ fresh.unregistered
    · exact queues.channel_ ▸ fresh.unread
    · exact queues.announced.trans fresh.unannounced
    · exact callers ▸ fresh.outside
    · exact dispatch.trans fresh.idle
    · exact sameLoop.trans fresh.apart
    · intro live
      exact absurd (queues.state_.trans connecting) live
    · intro set
      rw [queues.state_]
      exact sound.destroying (destroying ▸ set)
  · exact sound.frame connecting queues.toFrame (by simp) (fun set => destroying ▸ set)

theorem Sound.connectDestroyed {process : Process α} (sound : Sound process)
    (live : process.conn.state_ ≠ .kConnecting) : Sound process.connectDestroyed := by
  unfold Process.connectDestroyed
  split
  next connected =>
    exact ⟨sound.batch, sound.tracked, fun connecting => absurd connecting live, sound.established,
      fun _ => .inl connected⟩
  next other => exact sound.frame live (.remove _) List.not_mem_nil id

theorem Sound.destroyServer {process : Process α} (sound : Sound process) : Sound process.destroyServer := by
  unfold Process.destroyServer
  simp only
  split
  next held =>
    split
    next same =>
      have live : process.conn.state_ ≠ .kConnecting := by
        intro connecting
        rw [(sound.fresh connecting).apart] at same
        cases same
      exact Sound.connectDestroyed (sound.frame live (.refl _) List.not_mem_nil id) live
    next apart => exact sound.queues (.queueFromThread _ _ rfl) rfl rfl rfl rfl
  next erased =>
    exact ⟨sound.batch, sound.tracked, fun connecting => (sound.fresh connecting).same rfl rfl rfl rfl rfl rfl,
      sound.established, sound.destroying⟩

theorem Sound.pop {process : Process α} (sound : Sound process) {functor : Functor} {rest : List Functor}
    (queue : process.conn.loop_.functors = functor :: rest) (other : functor ≠ .connectEstablished) :
    process.conn.state_ ≠ .kConnecting ∧
    Sound { process with conn := { process.conn with loop_ := { process.conn.loop_ with functors := rest } } } := by
  have live : process.conn.state_ ≠ .kConnecting := by
    intro connecting
    obtain ⟨others, waiting, _⟩ := (sound.fresh connecting).waits
    simp only [EventLoop.waiting, queue, List.cons_append, List.cons.injEq] at waiting
    exact other waiting.1
  have work := process.conn.work_pop functor rest queue
  refine ⟨live, ?_, sound.tracked, fun connecting => absurd connecting live, ?_, sound.destroying⟩
  · intro finished
    exact absurd (sound.batch finished) (by simp [queue])
  · intro _ member
    exact sound.established live (work ▸ List.mem_append_right _ member)

/-- A functor that opens the connection is the first one of a fresh connection. -/
theorem Sound.opens {before : Process α} (sound : Sound before) {rest : List Functor}
    (queue : before.conn.loop_.functors = .connectEstablished :: rest) :
    before.conn.state_ = .kConnecting ∧ .connectEstablished ∉ rest ++ before.conn.loop_.pendingFunctors_ := by
  have connecting : before.conn.state_ = .kConnecting := by
    apply not_not.mp
    intro live
    apply sound.established live
    rw [before.conn.work_pop _ rest queue]
    exact List.mem_cons_self
  obtain ⟨others, waiting, once⟩ := (sound.fresh connecting).waits
  simp only [EventLoop.waiting, queue, List.cons_append, List.cons.injEq, true_and] at waiting
  exact ⟨connecting, waiting ▸ once⟩

theorem Sound.execute [OfNat α 0] {before : Process α} (sound : Sound before) {functor : Functor} {rest : List Functor}
    (queue : before.conn.loop_.functors = functor :: rest) (keeps : functor ≠ .connectDestroyed) (result : IoResult) :
    Sound (before.executed functor rest result) := by
  by_cases opens : functor = .connectEstablished
  · subst functor
    obtain ⟨connecting, once⟩ := sound.opens queue
    have began := TcpConnection.Began.connectEstablished (before.conn.popped rest)
    refine ⟨?_, began.tracked sound.tracked, ?_, ?_, ?_⟩
    · intro finished
      exact absurd (sound.batch finished) (by simp [queue])
    · intro again
      cases again
    · intro _ member
      exact once (List.mem_of_mem_filter (began.work ▸ member))
    · intro set
      exact absurd connecting (by rcases sound.destroying set with state | state <;> simp [state])
  · obtain ⟨live, popped⟩ := sound.pop queue opens
    obtain ⟨queued, frame, plain⟩ := (before.conn.popped rest).execute_frame functor result opens keeps
    exact popped.frame live frame plain id

theorem Sound.handleClose {process : Process α} (sound : Sound process) (live : process.conn.state_ ≠ .kConnecting)
    (free : process.destroying = false) : Sound process.handleClose := by
  have ended := TcpConnection.Ended.handleClose process.conn
  have closed : Sound { process with conn := process.conn.handleClose } := sound.ended live ended free
  exact closed.removeConnection (by simp [ended.state_])

theorem Sound.loopStep [OfNat α 0] {event : Event α} {before after : Process α} (sound : Sound before)
    (free : before.destroying = false) (moved : LoopMove before event after) : Sound after := by
  cases moved with
  | poll revents registered => exact sound.frame (sound.registered registered) (.refl _) List.not_mem_nil id
  | passes _ next handles position onward => exact sound.frame (sound.dispatching position) (.refl _) List.not_mem_nil id
  | closes revents position closed =>
    have live := sound.dispatching (by simp [position])
    have next : Sound { before with dispatch := .error revents } := sound.frame live (.refl _) List.not_mem_nil id
    exact next.handleClose live free
  | ends revents received position reads closed =>
    have live := sound.dispatching (by simp [position])
    have filled : Sound { before with dispatch := .write revents, conn := before.conn.filled received } :=
      sound.frame live (.filled _ _) List.not_mem_nil id
    exact filled.handleClose live free
  | delivers revents received conn position open_ same =>
    have live := sound.dispatching (by simp [position])
    rcases same with rfl | rfl
    · exact sound.frame live (.filled _ _) List.not_mem_nil id
    · exact sound.frame live ((TcpConnection.Frame.filled _ _).trans (.invoke _ _ rfl)) List.not_mem_nil id
  | writes revents result position =>
    exact sound.frame (sound.dispatching (by simp [position])) (.handleWrite _ _) List.not_mem_nil id
  | swapFunctors between =>
    have none := sound.batch between
    have work := before.conn.work_swap none
    refine ⟨by simp [EventLoop.swapFunctors], sound.tracked, ?_, fun live => work ▸ sound.established live,
      sound.destroying⟩
    intro connecting
    refine (sound.fresh connecting).same ?_ rfl rfl rfl rfl rfl
    simp [EventLoop.waiting, EventLoop.swapFunctors, none]
  | destroys result rest queue =>
    obtain ⟨live, popped⟩ := sound.pop queue (by simp)
    exact popped.connectDestroyed live
  | runs result functor rest queue keeps => exact sound.execute queue keeps result
  | endFunctors finished =>
    exact ⟨fun _ => finished, sound.tracked, fun connecting => (sound.fresh connecting).same rfl rfl rfl rfl rfl rfl,
      sound.established, sound.destroying⟩
  | refuses _ calls refused => exact sound
  | sends data len result connected held => exact sound.frame (by simp [connected]) (.sendInLoop _ _ _) List.not_mem_nil id
  | sendsFile fileDescriptor offset count result connected =>
    obtain ⟨queued, frame, all⟩ := before.conn.sendFileInLoop_frame fileDescriptor offset count result
    exact sound.frame (by simp [connected]) frame (fun member => by cases all _ member) id
  | shuts connected =>
    exact (sound.disconnecting (by simp [connected])).frame (by simp [TcpConnection.setState]) (.shutdownInLoop _)
      List.not_mem_nil id

/-- Past its test of `state_` a thread is at an established connection. -/
theorem Sound.called {process : Process α} (sound : Sound process) {thread : Nat}
    (inside : process.callers thread ≠ .outside) : process.conn.state_ ≠ .kConnecting :=
  fun connecting => inside ((sound.fresh connecting).outside thread)

theorem Sound.step [OfNat α 0] {event : Event α} {before after : Process α} (sound : Sound before)
    (stepped : before.step event = some after) : Sound after := by
  cases step_cases stepped with
  | loop _ _ free moved => exact sound.loopStep free moved
  | refuses thread request refused => exact sound
  | calls thread request outside given connected =>
    exact sound.frame (by simp [connected]) (.refl _) List.not_mem_nil id
  | queues thread functor caller position bound =>
    obtain ⟨inside, _, keeps⟩ := Caller.functor_acts bound
    refine sound.frame (sound.called (position ▸ inside)) (.queueFromThread _ _) ?_ id
    intro member
    exact keeps (List.mem_singleton.mp (List.mem_of_mem_filter member)).symm
  | setsState thread position =>
    have inside : before.callers thread ≠ .outside := by simp [position]
    have set := sound.disconnecting (sound.called inside)
    exact set.frame (by simp [TcpConnection.setState]) (.refl _) List.not_mem_nil id
  | stores | discards =>
    exact ⟨sound.batch, sound.tracked, fun connecting => (sound.fresh connecting).same rfl rfl rfl rfl rfl rfl,
      sound.established, sound.destroying⟩
  | removes waits => exact sound.queues (removeConnectionInLoop_queues _) rfl rfl rfl rfl
  | destroysServer => exact sound.destroyServer
  | leaves busy =>
    have live : before.conn.state_ ≠ .kConnecting := by
      rcases sound.destroying busy with state | state <;> simp [state]
    exact sound.ended live (.leaveConnected _) rfl

/-- What a step does to the freed memory: a discard adds to it, and only a functor reads it. -/
structure Remains (event : Event α) (before after : Process α) : Prop where
  freed : ∀ address, after.freed address = true → before.freed address = true ∨
    ∃ data len, event = .discard data len ∧ data ≤ address ∧ address < data + len
  dangling : after.dangling = true → before.dangling = true ∨
    ∃ functor ∈ before.conn.work, before.dangles functor = true

theorem Remains.same {event : Event α} {before after : Process α} (freed : after.freed = before.freed)
    (dangling : after.dangling = before.dangling) : Remains event before after :=
  ⟨fun _ held => .inl (freed ▸ held), fun held => .inl (dangling ▸ held)⟩

theorem Remains.connectDestroyed {event : Event α} {before base : Process α} (freed : base.freed = before.freed)
    (dangling : base.dangling = before.dangling) : Remains event before base.connectDestroyed := by
  unfold Process.connectDestroyed
  split <;> exact .same freed dangling

theorem Remains.handleClose {event : Event α} {before base : Process α} (freed : base.freed = before.freed)
    (dangling : base.dangling = before.dangling) : Remains event before base.handleClose := by
  obtain ⟨conn, server, queued, same, _⟩ := removeConnection_queues { base with conn := base.conn.handleClose }
  rw [Process.handleClose, same]
  exact .same freed dangling

theorem Remains.destroyServer {event : Event α} (before : Process α) : Remains event before before.destroyServer := by
  unfold Process.destroyServer
  simp only
  split
  next held =>
    split
    next same => exact .connectDestroyed rfl rfl
    next apart => exact .same rfl rfl
  next erased => exact .same rfl rfl

/-- Only a `sendInLoop` reads the memory of a string, and it is in the queue before. -/
theorem Remains.execute [OfNat α 0] {before : Process α} {functor : Functor} {rest : List Functor}
    (queue : before.conn.loop_.functors = functor :: rest) (result : IoResult) :
    Remains (.runFunctor result) before (before.executed functor rest result) := by
  refine ⟨fun _ freed => .inl freed, ?_⟩
  intro dangling
  rcases Bool.or_eq_true_iff.mp dangling with old | dangles
  · exact .inl old
  · refine .inr ⟨functor, ?_, dangles⟩
    cases functor with
    | sendInLoop data len =>
      rw [before.conn.work_pop _ rest queue]
      exact List.mem_cons_self
    | _ => cases dangles

private theorem loopStep_remains [OfNat α 0] {event : Event α} {before after : Process α}
    (moved : LoopMove before event after) :
    Remains event before after := by
  cases moved with
  | closes | ends => exact .handleClose rfl rfl
  | destroys => exact .connectDestroyed rfl rfl
  | runs result functor rest queue keeps => exact .execute queue result
  | _ => exact .same rfl rfl

theorem step_remains [OfNat α 0] {event : Event α} {before after : Process α} (stepped : before.step event = some after) :
    Remains event before after := by
  cases step_cases stepped with
  | loop _ _ free moved => exact loopStep_remains moved
  | stores address byte =>
    refine ⟨fun other freed => .inl ?_, .inl⟩
    dsimp only at freed
    by_cases same : other = address
    · subst same
      rw [Function.update_self] at freed
      cases freed
    · rwa [Function.update_of_ne same] at freed
  | discards data len held =>
    refine ⟨fun other freed => ?_, .inl⟩
    simp only [Bool.or_eq_true, Bool.and_eq_true, decide_eq_true_eq] at freed
    exact freed.imp_right fun inside => ⟨data, len, rfl, inside⟩
  | destroysServer => exact .destroyServer before
  | _ => exact .same rfl rfl

end Process
end Webserver
