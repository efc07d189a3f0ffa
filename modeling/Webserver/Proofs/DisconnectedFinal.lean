import Webserver.Proofs.ProcessTurn

/-! After the end of a connection: which late steps still act on it, and that all
others leave it alone. -/

namespace Webserver
open Library

universe u
variable {α : Type u}

namespace Process

/-- A step that leaves a disconnected connection as it is: no change of state, no
write, nothing more to write, no interest in any event. -/
structure Quiet (before after : Process α) : Prop where
  state_ : after.conn.state_ = before.conn.state_
  calls : ∃ made, after.conn.calls = before.conn.calls ++ made ∧ ∀ call ∈ made, call = .shutdownWrite
  buffer : after.conn.outputBuffer_.readableBytes ≤ before.conn.outputBuffer_.readableBytes
  interest : after.conn.channel_.events_ = Channel.kNoneEvent
  registered : ∀ mask, after.conn.loop_.poller_.epollfd_ after.conn.channel_.fd_ = some mask → mask = Channel.kNoneEvent

/-- A queued functor that does not act on a disconnected connection. Over a buffer that
is not empty a send of nothing has nothing to add, and a transfer only queues itself. -/
def Idles (conn : TcpConnection α) : Functor → Prop
  | .sendInLoop _ len => len = 0 ∧ conn.outputBuffer_.readableBytes ≠ 0
  | .sendFileInLoop .. => conn.outputBuffer_.readableBytes ≠ 0
  | _ => True

instance (conn : TcpConnection α) : (functor : Functor) → Decidable (Idles conn functor)
  | .sendInLoop _ _ => inferInstanceAs (Decidable (_ ∧ _))
  | .sendFileInLoop .. => inferInstanceAs (Decidable (_ ≠ _))
  | .connectEstablished | .connectDestroyed | .shutdownInLoop | .writeCompleteCallback | .highWaterMarkCallback _ =>
    isTrue trivial

/-- The late steps that act are the store of a `shutdown` that was tested before, and
a queued send, which does not test the state. -/
def Harmless (event : Event α) (process : Process α) : Prop :=
  match event with
  | .proceed thread => process.callers thread ≠ .tested .shutdown
  | .runFunctor _ => ∀ functor ∈ process.conn.loop_.functors.head?, Idles process.conn functor
  | _ => True

instance (event : Event α) (process : Process α) : Decidable (Harmless event process) :=
  match event with
  | .proceed thread => inferInstanceAs (Decidable (process.callers thread ≠ .tested .shutdown))
  | .runFunctor _ =>
    inferInstanceAs (Decidable (∀ functor ∈ process.conn.loop_.functors.head?, Idles process.conn functor))
  | .poll _ | .close | .error | .read _ | .write _ | .swapFunctors | .endFunctors | .leaveConnected | .send .. |
    .sendFile .. | .shutdown | .call .. | .store .. | .discard .. | .removeConnectionInLoop | .destroyServer => isTrue trivial

private theorem harmless_handler {event : Event α} (handles : event.isHandler = true) (process : Process α) :
    Harmless event process := by
  cases event <;> first | exact trivial | cases handles

private theorem harmless_call {event : Event α} (calls : event.isCall = true) (process : Process α) :
    Harmless event process := by
  cases event <;> first | exact trivial | cases calls

structure Settled (process : Process α) : Prop where
  sound : Sound process
  interest : process.conn.state_ = .kDisconnected → process.conn.channel_.events_ = Channel.kNoneEvent

theorem Quiet.intro {before after : Process α} (sound : Sound after)
    (state_ : after.conn.state_ = before.conn.state_)
    (calls : ∃ made, after.conn.calls = before.conn.calls ++ made ∧ ∀ call ∈ made, call = .shutdownWrite)
    (buffer : after.conn.outputBuffer_.readableBytes ≤ before.conn.outputBuffer_.readableBytes)
    (interest : after.conn.channel_.events_ = Channel.kNoneEvent) : Quiet before after := by
  refine ⟨state_, calls, buffer, interest, ?_⟩
  intro mask registered
  rw [sound.tracked] at registered
  split at registered
  · cases registered
    exact interest
  · cases registered

theorem Quiet.same {before after : Process α} (sound : Sound after)
    (state_ : after.conn.state_ = before.conn.state_) (calls : after.conn.calls = before.conn.calls)
    (buffer : after.conn.outputBuffer_ = before.conn.outputBuffer_)
    (interest : after.conn.channel_.events_ = Channel.kNoneEvent) : Quiet before after :=
  .intro sound state_ ⟨[], by simp [calls], by simp⟩ (Nat.le_of_eq (by rw [buffer])) interest

private theorem interest_silent {channel : Channel} (interest : channel.events_ = Channel.kNoneEvent) :
    channel.isWriting = false := by
  rw [Channel.isWriting, interest]
  decide

private theorem idle_silent {conn : TcpConnection α} (silent : conn.channel_.isWriting = false) :
    conn.idle = true ↔ conn.outputBuffer_.readableBytes = 0 := by
  simp [TcpConnection.idle, silent]

theorem Quiet.no_call {before after : Process α} (quiet : Quiet before after) {call : SystemCall α}
    (made : after.conn.calls = before.conn.calls ++ [call]) : call = .shutdownWrite := by
  obtain ⟨others, same, all⟩ := quiet.calls
  rw [made, List.append_right_inj] at same
  exact all call (same ▸ List.mem_singleton_self call)

section Functors
variable {before after : Process α} (conn : TcpConnection α)

/-- A late `sendInLoop` is quiet only when it has nothing to do. -/
private theorem sendInLoop_quiet [OfNat α 0] {data : List α} {result : IoResult} (sound : Sound after)
    (interest : conn.channel_.events_ = Channel.kNoneEvent) (state_ : conn.state_ = before.conn.state_)
    (calls : conn.calls = before.conn.calls) (buffer : conn.outputBuffer_ = before.conn.outputBuffer_)
    (sent : after.conn = conn.sendInLoop data result) :
    Quiet before after ↔ data.length = 0 ∧ before.conn.outputBuffer_.readableBytes ≠ 0 := by
  have idle := idle_silent (interest_silent interest)
  rw [buffer] at idle
  constructor
  · intro quiet
    have busy : before.conn.outputBuffer_.readableBytes ≠ 0 := by
      intro empty
      have made := conn.sendInLoop_calls data result
      rw [if_pos (idle.mpr empty), ← sent, calls] at made
      cases quiet.no_call made
    have grown : after.conn.outputBuffer_.readable = before.conn.outputBuffer_.readable ++ data := by
      rw [sent, TcpConnection.sendInLoop, if_neg (fun free => busy (idle.mp free)),
        TcpConnection.bufferRemaining_readable, buffer]
    have length := congrArg List.length grown
    have least := quiet.buffer
    simp only [List.length_append, Buffer.readable_length] at length
    exact ⟨by omega, busy⟩
  · intro ⟨nothing, busy⟩
    have same : after.conn = conn := by
      rw [sent, TcpConnection.sendInLoop, if_neg (fun free => busy (idle.mp free)), TcpConnection.bufferRemaining,
        if_neg (by omega)]
    exact .same sound (same ▸ state_) (same ▸ calls) (same ▸ buffer) (same ▸ interest)

/-- A late `sendFileInLoop` is quiet only when it cannot send. -/
private theorem sendFileInLoop_quiet {fileDescriptor offset count : Nat} {result : IoResult} (sound : Sound after)
    (interest : conn.channel_.events_ = Channel.kNoneEvent) (state_ : conn.state_ = before.conn.state_)
    (calls : conn.calls = before.conn.calls) (buffer : conn.outputBuffer_ = before.conn.outputBuffer_)
    (still : conn.state_ ≠ .kDisconnecting)
    (sent : after.conn = conn.sendFileInLoop fileDescriptor offset count result) :
    Quiet before after ↔ before.conn.outputBuffer_.readableBytes ≠ 0 := by
  have idle := idle_silent (interest_silent interest)
  rw [buffer] at idle
  constructor
  · intro quiet empty
    have made := conn.sendFileInLoop_calls fileDescriptor offset count result still
    rw [if_pos (idle.mpr empty), ← sent, calls] at made
    cases quiet.no_call made
  · intro busy
    have queued : after.conn = conn.queueRemaining fileDescriptor offset count := by
      rw [sent, TcpConnection.sendFileInLoop, if_neg still, if_neg (fun free => busy (idle.mp free))]
    have frame := TcpConnection.Frame.queueRemaining conn fileDescriptor offset count
    refine .same sound ?_ ?_ ?_ ?_ <;> rw [queued]
    · exact frame.state_.trans state_
    · exact (conn.queueRemaining_calls _ _ _).trans calls
    · exact (conn.queueRemaining_outputBuffer _ _ _).trans buffer
    · exact (congrArg Channel.events_ (conn.queueRemaining_channel _ _ _)).trans interest

end Functors

private theorem connectDestroyed_quiet {before : Process α} {rest : List Functor}
    (interest : before.conn.channel_.events_ = Channel.kNoneEvent) (disconnected : before.conn.state_ = .kDisconnected)
    (sound : Sound { before with conn := before.conn.popped rest }.connectDestroyed) :
    Quiet before { before with conn := before.conn.popped rest }.connectDestroyed := by
  rw [Process.connectDestroyed, if_neg (by simp [disconnected])] at sound ⊢
  exact .same sound rfl rfl rfl interest

private theorem execute_quiet [OfNat α 0] {before : Process α} {functor : Functor} {rest : List Functor} {result : IoResult}
    (settled : Settled before) (disconnected : before.conn.state_ = .kDisconnected)
    (queue : before.conn.loop_.functors = functor :: rest) (keeps : functor ≠ .connectDestroyed)
    (sound : Sound (before.executed functor rest result)) :
    Quiet before (before.executed functor rest result) ↔
      Idles before.conn functor := by
  have interest := settled.interest disconnected
  cases functor with
  | connectDestroyed => exact absurd rfl keeps
  | connectEstablished => exact absurd ((settled.sound.opens queue).1.symm.trans disconnected) (by decide)
  | sendInLoop data len =>
    have quiet := sendInLoop_quiet (before.conn.popped rest) sound interest rfl rfl rfl rfl
    simpa only [TcpConnection.read, List.length_map, List.length_range, Idles] using quiet
  | sendFileInLoop fileDescriptor offset count =>
    exact sendFileInLoop_quiet (before.conn.popped rest) sound interest rfl rfl rfl (by simp [disconnected]) rfl
  | shutdownInLoop =>
    have shut : (before.conn.popped rest).execute .shutdownInLoop result =
        (before.conn.popped rest).systemCall .shutdownWrite := by
      change (before.conn.popped rest).shutdownInLoop = _
      rw [TcpConnection.shutdownInLoop, if_neg (by simp [interest_silent interest])]
    refine iff_of_true (.intro sound (congrArg (·.state_) shut) ⟨[.shutdownWrite], congrArg (·.calls) shut, by simp⟩
      (Nat.le_of_eq (congrArg (·.outputBuffer_.readableBytes) shut)) ?_) trivial
    exact (congrArg (·.channel_.events_) shut).trans interest
  | writeCompleteCallback | highWaterMarkCallback size =>
    exact iff_of_true (.same sound rfl rfl rfl interest) trivial

structure Rests (before after : TcpConnection α) : Prop where
  state_ : after.state_ = before.state_
  calls : after.calls = before.calls
  buffer : after.outputBuffer_ = before.outputBuffer_
  interest : before.channel_.events_ = Channel.kNoneEvent → after.channel_.events_ = Channel.kNoneEvent

theorem Rests.refl (conn : TcpConnection α) : Rests conn conn := ⟨rfl, rfl, rfl, id⟩

theorem Rests.queues {queued : List Functor} {before after : TcpConnection α}
    (queues : TcpConnection.Queues queued before after) : Rests before after :=
  ⟨queues.state_, queues.calls, queues.outputBuffer_, fun none => queues.channel_ ▸ none⟩

theorem Rests.quiet {before after : Process α} (rests : Rests before.conn after.conn) (sound : Sound after)
    (interest : before.conn.channel_.events_ = Channel.kNoneEvent) : Quiet before after :=
  .same sound rests.state_ rests.calls rests.buffer (rests.interest interest)

theorem Rests.harmless_iff {event : Event α} {before after : Process α} (sound : Sound after)
    (interest : before.conn.channel_.events_ = Channel.kNoneEvent) (harmless : Harmless event before)
    (rests : Rests before.conn after.conn) : Quiet before after ↔ Harmless event before :=
  iff_of_true (rests.quiet sound interest) harmless

private theorem handleClose_rests (process : Process α) (disconnected : process.conn.state_ = .kDisconnected) :
    Rests process.conn process.handleClose.conn := by
  obtain ⟨conn, server, queued, same, queues, _⟩ :=
    Process.removeConnection_queues { process with conn := process.conn.handleClose }
  have ended := TcpConnection.Ended.handleClose process.conn
  rw [Process.handleClose, same]
  refine ⟨?_, queues.calls.trans ended.calls, queues.outputBuffer_.trans ended.outputBuffer_, ?_⟩
  · exact (queues.state_.trans ended.state_).trans disconnected.symm
  · intro _
    exact (congrArg Channel.events_ queues.channel_).trans ended.interest

private theorem destroyServer_rests (process : Process α) (disconnected : process.conn.state_ = .kDisconnected) :
    Rests process.conn process.destroyServer.conn := by
  unfold Process.destroyServer
  simp only
  split
  · split
    · rw [Process.connectDestroyed, if_neg (by simp [disconnected])]
      exact ⟨rfl, rfl, rfl, id⟩
    · exact .queues (.queueFromThread _ _ rfl)
  · exact .refl _

/-- From a disconnected connection, the harmless steps are exactly the quiet ones. -/
private theorem loopStep_quiet [OfNat α 0] {event : Event α} {before after : Process α} (settled : Settled before)
    (disconnected : before.conn.state_ = .kDisconnected) (moved : LoopMove before event after) (sound : Sound after) :
    Quiet before after ↔ Harmless event before := by
  have interest := settled.interest disconnected
  cases moved with
  | poll revents registered => exact Rests.harmless_iff sound interest trivial (.refl _)
  | passes _ next handles position onward =>
    exact Rests.harmless_iff sound interest (harmless_handler handles before) (.refl _)
  | closes revents position closed =>
    exact Rests.harmless_iff sound interest trivial
      (handleClose_rests { before with dispatch := .error revents } disconnected)
  | ends revents received position reads closed =>
    have rests := handleClose_rests { before with dispatch := .write revents, conn := before.conn.filled received }
      disconnected
    exact Rests.harmless_iff sound interest trivial ⟨rests.state_, rests.calls, rests.buffer, rests.interest⟩
  | delivers revents received conn position open_ same =>
    refine Rests.harmless_iff sound interest trivial ?_
    rcases same with rfl | rfl
    · exact ⟨rfl, rfl, rfl, id⟩
    · exact ⟨rfl, rfl, rfl, id⟩
  | writes revents result position =>
    refine Rests.harmless_iff sound interest trivial ?_
    rw [TcpConnection.handleWrite, if_neg (by simp [interest_silent interest])]
    exact .refl _
  | swapFunctors | endFunctors => exact Rests.harmless_iff sound interest trivial ⟨rfl, rfl, rfl, id⟩
  | destroys result rest queue =>
    exact iff_of_true (connectDestroyed_quiet interest disconnected sound) (by simp [Harmless, queue, Idles])
  | runs result functor rest queue keeps =>
    rw [execute_quiet settled disconnected queue keeps sound]
    simp [Harmless, queue]
  | refuses _ calls refused => exact Rests.harmless_iff sound interest (harmless_call calls before) (.refl _)
  | sends data len result connected held => exact absurd (connected.symm.trans disconnected) (by decide)
  | sendsFile fileDescriptor offset count result connected =>
    exact absurd (connected.symm.trans disconnected) (by decide)
  | shuts connected => exact absurd (connected.symm.trans disconnected) (by decide)

theorem step_quiet [OfNat α 0] {event : Event α} {before after : Process α} (settled : Settled before)
    (disconnected : before.conn.state_ = .kDisconnected) (stepped : before.step event = some after) :
    Quiet before after ↔ Harmless event before := by
  have sound := settled.sound.step stepped
  have interest := settled.interest disconnected
  cases step_cases stepped with
  | loop _ _ free moved => exact loopStep_quiet settled disconnected moved sound
  | refuses | calls => exact Rests.harmless_iff sound interest trivial (.refl _)
  | queues thread functor caller position bound =>
    refine Rests.harmless_iff sound interest ?_ (.queues (.queueFromThread _ _ (Caller.functor_acts bound).2.1))
    intro testing
    cases position.symm.trans testing
    cases bound
  | setsState thread position =>
    refine iff_of_false ?_ (by simp [Harmless, position])
    intro quiet
    have state := quiet.state_
    rw [disconnected] at state
    cases state
  | stores | discards => exact Rests.harmless_iff sound interest trivial ⟨rfl, rfl, rfl, id⟩
  | removes waits => exact Rests.harmless_iff sound interest trivial (.queues (removeConnectionInLoop_queues _))
  | destroysServer => exact Rests.harmless_iff sound interest trivial (destroyServer_rests before disconnected)
  | leaves busy =>
    rcases settled.sound.destroying busy with state | state <;> rw [disconnected] at state <;> cases state

theorem Settled.step [OfNat α 0] {event : Event α} {before after : Process α} (settled : Settled before)
    (quiet : before.conn.state_ = .kDisconnected → Quiet before after) (stepped : before.step event = some after) :
    Settled after := by
  refine ⟨settled.sound.step stepped, ?_⟩
  intro disconnected
  by_cases already : before.conn.state_ = .kDisconnected
  · exact (quiet already).interest
  · cases step_turn settled.sound stepped with
    | keeps alike => exact absurd (alike.state_.symm.trans disconnected) already
    | begins connecting state_ => rw [state_] at disconnected; cases disconnected
    | shuts live state_ => rw [state_] at disconnected; cases disconnected
    | tests connected alike => exact absurd (alike.state_.symm.trans disconnected) already
    | removes run live other alike => exact absurd (alike.state_.symm.trans disconnected) already
    | leaves busy finished => exact finished.interest
    | closes run live finished => exact finished.interest

private theorem newConnection_settled [OfNat α 0] (setup : Setup α) (sameLoop : Bool) :
    Settled (newConnection setup sameLoop) :=
  ⟨newConnection_sound setup sameLoop, by cases sameLoop <;> intro other <;> cases other⟩

/-- In any run, every step after the end of the connection is quiet if and only if
every step after it is harmless. -/
theorem disconnected_is_final [OfNat α 0] (setup : Setup α) (sameLoop : Bool) (events : List (Event α)) (final : Process α)
    (reached : machine.run events (newConnection setup sameLoop) = some final) :
    machine.Along (fun event process => process.conn.state_ = .kDisconnected →
      ∀ next, machine.step event process = some next → Quiet process next) events (newConnection setup sameLoop) ↔
    machine.Along (fun event process => process.conn.state_ = .kDisconnected → Harmless event process) events
      (newConnection setup sameLoop) := by
  refine Machine.along_iff ?_ ?_ reached (newConnection_settled setup sameLoop)
  · intro event before after settled stepped
    apply forall_congr'
    intro disconnected
    rw [Machine.forall_next stepped]
    exact step_quiet settled disconnected stepped
  · intro event before after quiet settled stepped
    exact settled.step (fun disconnected => quiet disconnected after stepped) stepped

/-- A close after which nothing is left in the queue but the destruction. -/
theorem disconnected_is_final_closed :
    machine.Along (fun event process => process.conn.state_ = .kDisconnected →
      ∀ next, machine.step event process = some next → Quiet process next)
      [.swapFunctors, .runFunctor (.count 0), .endFunctors, .poll 0x10, .close, .error, .read none, .write (.count 0),
        .call 1 .shutdown, .removeConnectionInLoop, .swapFunctors, .runFunctor (.count 0)]
      (newConnection (⟨7, fun _ => 0, fun _ => [], true, true, 16⟩ : Setup UInt8) false) := by
  obtain ⟨final, reached⟩ := Option.isSome_iff_exists.mp
    (show (machine.run [.swapFunctors, .runFunctor (.count 0), .endFunctors, .poll 0x10, .close, .error, .read none,
        .write (.count 0), .call 1 .shutdown, .removeConnectionInLoop, .swapFunctors, .runFunctor (.count 0)]
        (newConnection (⟨7, fun _ => 0, fun _ => [], true, true, 16⟩ : Setup UInt8) false)).isSome = true by decide +kernel)
  exact (disconnected_is_final _ _ _ final reached).mpr (by decide +kernel)

/-- A `send` of another thread, queued before the close, is written after it. -/
theorem queued_send_outlives_close :
    ∃ closed later : Process UInt8,
      machine.run [.swapFunctors, .runFunctor (.count 0), .endFunctors, .call 1 (.send 0 1), .proceed 1,
        .poll 0x10, .close, .error, .read none, .write (.count 0)]
        (newConnection ⟨7, fun _ => 5, fun _ => [], true, true, 16⟩ false) = some closed ∧
      machine.run [.swapFunctors, .runFunctor (.count 1)] closed = some later ∧
      closed.conn.state_ = .kDisconnected ∧ closed.conn.calls = [] ∧ later.conn.calls = [.write [5] (.count 1)] := by
  obtain ⟨⟨closed, later⟩, runs, same⟩ := Option.map_eq_some_iff.mp
    (show ((machine.run [.swapFunctors, .runFunctor (.count 0), .endFunctors, .call 1 (.send 0 1), .proceed 1,
        .poll 0x10, .close, .error, .read none, .write (.count 0)]
        (newConnection (⟨7, fun _ => 5, fun _ => [], true, true, 16⟩ : Setup UInt8) false)).bind fun closed =>
          (machine.run [.swapFunctors, .runFunctor (.count 1)] closed).map fun later => (closed, later)).map
          (fun pair => (pair.1.conn.state_, pair.1.conn.calls, pair.2.conn.calls)) =
        some (.kDisconnected, [], [.write [5] (.count 1)]) by decide +kernel)
  obtain ⟨first, reached, rest⟩ := Option.bind_eq_some_iff.mp runs
  obtain ⟨second, continued, pair⟩ := Option.map_eq_some_iff.mp rest
  cases pair
  simp only [Prod.mk.injEq] at same
  exact ⟨closed, later, reached, continued, same⟩

end Process
end Webserver
