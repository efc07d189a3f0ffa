import Mathlib.Algebra.Ring.Nat
import Webserver.EchoServer
import Webserver.Proofs.ProcessInvariant

/-! What a peer of the echo server receives: the messages that it sent, in order, each
whole or not at all, and all of them while the connection is up and no write has failed. -/

namespace Webserver
open Library

universe u
variable {α : Type u}

namespace EchoServer
open Process (Sound LoopMove Move)
open TcpConnection (Frame Ended Queues)

/-- What is queued in the loop of an echo connection, besides notifications. -/
def Plain (conn : TcpConnection α) : Prop :=
  ∀ functor ∈ conn.work, functor = .connectEstablished ∨ functor = .connectDestroyed

def Watched (conn : TcpConnection α) : Prop := conn.channel_.index_ = .kAdded ∧ conn.channel_.isReading = true

structure Upright (conn : TcpConnection α) : Prop where
  plain : Plain conn
  open_ : conn.state_ ≠ .kDisconnecting
  unshut : .shutdownWrite ∉ conn.calls
  interest : conn.state_ = .kConnected → conn.Interest
  silent : conn.state_ ≠ .kConnected → conn.channel_.isWriting = false
  watched : conn.state_ = .kConnected → Watched conn

/-- Each message is answered whole or not at all. `clean` says that no write of an answer
has failed: then the answered ones are the first, and all while the connection is up. -/
structure Answered (clean : Prop) (conn : TcpConnection α) (messages : List (List α)) : Prop where
  fresh : conn.state_ = .kConnecting → conn.stream = [] ∧ messages = []
  answers : ∃ kept, kept.Sublist messages ∧ conn.stream = kept.flatten ∧
    (clean → kept <+: messages ∧ (conn.state_ = .kConnected → kept = messages))

structure Echoing (clean : Prop) (state : Process α × List (List α)) : Prop where
  sound : Sound state.1
  upright : Upright state.1.conn
  emptied : state.1.conn.inputBuffer_.readable = []
  answered : Answered clean state.1.conn state.2

private theorem watched_same {before after : TcpConnection α} (channel_ : after.channel_ = before.channel_)
    (watched : Watched before) :
    Watched after := by
  rwa [Watched, channel_]

private theorem update_added (conn : TcpConnection α) {events : Mask} (some : events ≠ 0) :
    (conn.update events).channel_.index_ = .kAdded := by
  have busy : Channel.isNoneEvent { conn.channel_ with events_ := events } = false := by
    simpa [Channel.isNoneEvent, Channel.kNoneEvent] using some
  change (conn.loop_.poller_.updateChannel { conn.channel_ with events_ := events }).2.index_ = .kAdded
  unfold EPollPoller.updateChannel
  split
  · rfl
  · rfl
  next added =>
    rw [busy, if_neg Bool.false_ne_true]
    exact added

private theorem watched_update (conn : TcpConnection α) {events : Mask}
    (reading : (conn.update events).channel_.isReading = true) :
    Watched (conn.update events) := by
  refine ⟨update_added conn ?_, reading⟩
  rintro rfl
  rw [Channel.isReading, TcpConnection.update_events] at reading
  exact absurd reading (by decide)

private theorem watched_enableWriting {conn : TcpConnection α} (watched : Watched conn) : Watched conn.enableWriting :=
  watched_update conn ((Frame.enableWriting conn).reading.trans watched.2)

private theorem watched_disableWriting {conn : TcpConnection α} (watched : Watched conn) : Watched conn.disableWriting :=
  watched_update conn ((Frame.disableWriting conn).reading.trans watched.2)

private theorem watched_bufferRemaining [OfNat α 0] {conn : TcpConnection α} (watched : Watched conn) (rest : List α) :
    Watched (conn.bufferRemaining rest) := by
  have buffered : Watched ((conn.queueHighWaterMark rest.length).appendOutput rest) := by
    refine watched_same ?_ watched
    simp only [TcpConnection.appendOutput, TcpConnection.queueHighWaterMark]
    split <;> rfl
  unfold TcpConnection.bufferRemaining
  split
  · simp only
    split
    · exact buffered
    · exact watched_enableWriting buffered
  · exact watched

private theorem watched_sendInLoop [OfNat α 0] {conn : TcpConnection α} (watched : Watched conn) (data : List α)
    (result : IoResult) :
    Watched (conn.sendInLoop data result) := by
  unfold TcpConnection.sendInLoop
  split
  · cases result with
    | count n =>
      apply watched_bufferRemaining
      exact watched_same (TcpConnection.queueWriteComplete_channel _ _) watched
    | error errno =>
      simp only
      split
      · exact watched
      · apply watched_bufferRemaining
        exact watched
  · exact watched_bufferRemaining watched data

private theorem watched_handleWrite {conn : TcpConnection α} (watched : Watched conn) (result : IoResult) :
    Watched (conn.handleWrite result) := by
  rcases conn.handleWrite_cases result with ⟨_, same⟩ | ⟨_, same, _⟩ | ⟨_, _, same⟩ <;> rw [same]
  · exact watched
  · exact watched
  · split
    · have disabled : Watched (conn.retrieved result).disableWriting := watched_disableWriting watched
      refine watched_same ?_ disabled
      simp only [TcpConnection.drain, TcpConnection.shutdownInLoop]
      repeat' split
      all_goals simp
    · exact watched

theorem Upright.frame {before after : TcpConnection α} (upright : Upright before) {queued : List Functor}
    (frame : Frame queued before after) (plain : ∀ functor ∈ queued, functor = .connectDestroyed)
    (unshut : .shutdownWrite ∉ after.calls) (interest : before.Interest → after.Interest)
    (silent : before.channel_.isWriting = false → before.state_ ≠ .kConnected → after.channel_.isWriting = false)
    (watched : before.state_ = .kConnected → Watched before → Watched after) : Upright after := by
  refine ⟨?_, frame.state_ ▸ upright.open_, unshut, ?_, ?_, ?_⟩
  · intro functor member
    rw [frame.work, List.mem_append] at member
    exact member.elim (upright.plain functor) fun new => .inr (plain functor new)
  · intro connected
    exact interest (upright.interest (frame.state_ ▸ connected))
  · intro other
    rw [frame.state_] at other
    exact silent (upright.silent other) other
  · intro connected
    rw [frame.state_] at connected
    exact watched connected (upright.watched connected)

theorem Upright.ended {before after : TcpConnection α} (upright : Upright before) {news : List Callback}
    (ended : Ended news before after) : Upright after := by
  refine ⟨?_, by simp [ended.state_], ended.calls ▸ upright.unshut, fun connected => ?_, fun _ => ?_, fun connected => ?_⟩
  · rw [Plain, ended.work]
    exact upright.plain
  · cases ended.state_.symm.trans connected
  · rw [Channel.isWriting, ended.interest]
    decide
  · cases ended.state_.symm.trans connected

theorem Upright.queues {before after : TcpConnection α} (upright : Upright before) {queued : List Functor}
    (queues : Queues queued before after) (plain : ∀ functor ∈ queued, functor = .connectDestroyed) : Upright after := by
  refine upright.frame queues.toFrame plain (queues.calls ▸ upright.unshut) ?_ ?_ fun _ => watched_same queues.channel_
  · intro interest
    rwa [TcpConnection.Interest, queues.channel_, queues.outputBuffer_]
  · intro silent _
    rwa [queues.channel_]

theorem Upright.same {before after : TcpConnection α} (upright : Upright before)
    (work : ∀ functor ∈ after.work, functor ∈ before.work) (state_ : after.state_ = before.state_)
    (channel_ : after.channel_ = before.channel_) (outputBuffer_ : after.outputBuffer_ = before.outputBuffer_)
    (calls : after.calls = before.calls) : Upright after := by
  refine ⟨fun functor member => upright.plain functor (work functor member), state_ ▸ upright.open_,
    calls ▸ upright.unshut, ?_, ?_, ?_⟩
  · rw [state_, TcpConnection.Interest, channel_, outputBuffer_]
    exact upright.interest
  · rw [state_, channel_]
    exact upright.silent
  · intro connected
    exact watched_same channel_ (upright.watched (state_ ▸ connected))

theorem Upright.handleWrite {conn : TcpConnection α} (upright : Upright conn) (result : IoResult) :
    Upright (conn.handleWrite result) := by
  have frame := Frame.handleWrite conn result
  refine upright.frame frame (by simp) ?_ (fun interest => interest.handleWrite result) ?_
    fun _ watched => watched_handleWrite watched result
  · rcases conn.handleWrite_cases result with ⟨_, same⟩ | ⟨_, same, _⟩ | ⟨_, _, same⟩ <;> rw [same]
    · exact upright.unshut
    · simp [upright.unshut]
    · have made : (conn.retrieved result).calls = conn.calls ++ [.write conn.outputBuffer_.readable result] := rfl
      have open_ : (conn.retrieved result).state_ ≠ .kDisconnecting := upright.open_
      split <;> simp [TcpConnection.drain_calls, made, open_, upright.unshut]
  · intro silent _
    rw [TcpConnection.handleWrite, if_neg (by simp [silent])]
    exact silent

theorem Upright.remove {conn : TcpConnection α} (upright : Upright conn) (other : conn.state_ ≠ .kConnected) :
    Upright conn.remove := by
  have events : conn.remove.channel_.events_ = conn.channel_.events_ := rfl
  refine upright.frame (.remove conn) (by simp) upright.unshut ?_ ?_ fun connected => absurd connected other
  · intro interest
    rwa [TcpConnection.Interest, Channel.isWriting, events]
  · intro silent _
    rwa [Channel.isWriting, events]

theorem Upright.invoke {conn : TcpConnection α} (upright : Upright conn) (callback : Callback) :
    Upright (conn.invoke callback) :=
  upright.same (fun _ member => member) rfl rfl rfl rfl

theorem Upright.connectEstablished {conn : TcpConnection α} (upright : Upright conn) (connecting : conn.state_ = .kConnecting)
    (nothing : conn.stream = []) : Upright conn.connectEstablished := by
  have silent := upright.silent (by simp [connecting])
  have events : conn.connectEstablished.channel_.events_ = conn.channel_.events_ ||| Channel.kReadEvent :=
    TcpConnection.update_events _ _
  have apart : Channel.kReadEvent &&& Channel.kWriteEvent = 0#32 := by decide
  have writing : conn.connectEstablished.channel_.isWriting = false := by
    rw [Channel.isWriting, events, BitVec.and_or_distrib_right, apart, BitVec.or_zero]
    exact silent
  have empty : conn.outputBuffer_.readable = [] := (List.append_eq_nil_iff.mp nothing).2
  have open_ : conn.connectEstablished.state_ = .kConnected := rfl
  refine ⟨upright.plain, by simp [open_], upright.unshut, fun _ => ?_, fun other => absurd open_ other, fun _ => ?_⟩
  · have same : conn.connectEstablished.outputBuffer_ = conn.outputBuffer_ := rfl
    simp [TcpConnection.Interest, writing, same, empty]
  · let tied : TcpConnection α := { conn.setState .kConnected with channel_ := { conn.channel_ with tied_ := true } }
    exact watched_update tied (TcpConnection.Began.connectEstablished conn).reading

section Sending
variable [OfNat α 0]

theorem Upright.filled {conn : TcpConnection α} (upright : Upright conn) (received : Option (List α)) :
    Upright (conn.filled received) :=
  upright.same (fun _ member => member) rfl rfl rfl rfl

theorem Upright.send {conn : TcpConnection α} (upright : Upright conn) (buf : List α) (result : IoResult) :
    Upright (conn.send buf result) := by
  unfold TcpConnection.send
  split
  next connected =>
    refine upright.frame (.sendInLoop conn buf result) (by simp) ?_ (fun interest => interest.sendInLoop buf result)
      (fun _ other => absurd connected other) fun _ watched => watched_sendInLoop watched buf result
    rw [TcpConnection.sendInLoop_calls]
    split <;> simp [upright.unshut]
  next refused => exact upright

end Sending

theorem Answered.course {clean : Prop} {before after : TcpConnection α} {messages : List (List α)}
    (answered : Answered clean before messages) (stream : after.stream = before.stream)
    (course : after.state_ = before.state_ ∨ before.state_ = .kConnecting ∧ after.state_ = .kConnected ∨
      after.state_ = .kDisconnected) : Answered clean after messages := by
  obtain ⟨kept, among, same, all⟩ := answered.answers
  rcases course with state_ | ⟨connecting, connected⟩ | gone
  · exact ⟨by rw [state_, stream]; exact answered.fresh, kept, among, stream.trans same, by rw [state_]; exact all⟩
  · obtain ⟨nothing, none⟩ := answered.fresh connecting
    refine ⟨fun other => ?_, [], ?_, by simp [stream, nothing], fun _ => ?_⟩
    · cases connected.symm.trans other
    · exact List.nil_sublist _
    · exact ⟨List.nil_prefix, fun _ => none.symm⟩
  · refine ⟨fun other => ?_, kept, among, stream.trans same, fun cleanly => ⟨(all cleanly).1, fun other => ?_⟩⟩
    · cases gone.symm.trans other
    · cases gone.symm.trans other

structure Calm (before after : TcpConnection α) : Prop where
  upright : Upright after
  stream : after.stream = before.stream
  inputBuffer_ : after.inputBuffer_ = before.inputBuffer_
  course : after.state_ = before.state_ ∨ before.state_ = .kConnecting ∧ after.state_ = .kConnected ∨
    after.state_ = .kDisconnected

theorem Calm.refl {conn : TcpConnection α} (upright : Upright conn) : Calm conn conn := ⟨upright, rfl, rfl, .inl rfl⟩

private theorem stream_same {before after : TcpConnection α} (calls : after.calls = before.calls)
    (outputBuffer_ : after.outputBuffer_ = before.outputBuffer_) : after.stream = before.stream := by
  rw [TcpConnection.stream, TcpConnection.accepted, calls, outputBuffer_]
  rfl

theorem Calm.queues {before after : TcpConnection α} (upright : Upright before)
    (inputBuffer_ : after.inputBuffer_ = before.inputBuffer_) (queues : Queues [.connectDestroyed] before after) :
    Calm before after :=
  ⟨upright.queues queues (by simp), stream_same queues.calls queues.outputBuffer_, inputBuffer_, .inl queues.state_⟩

theorem Calm.trans {before middle after : TcpConnection α} (first : Calm before middle) (second : Calm middle after)
    (state_ : after.state_ = middle.state_) : Calm before after :=
  ⟨second.upright, second.stream.trans first.stream, second.inputBuffer_.trans first.inputBuffer_, state_ ▸ first.course⟩

theorem Calm.removeConnectionInLoop {process : Process α} (upright : Upright process.conn) :
    Calm process.conn process.removeConnectionInLoop.conn := by
  refine .queues upright ?_ process.removeConnectionInLoop_queues
  unfold Process.removeConnectionInLoop
  simp only
  split <;> rfl

theorem Calm.removeConnection {process : Process α} (upright : Upright process.conn) :
    Calm process.conn process.removeConnection.conn := by
  unfold Process.removeConnection
  split
  · exact .refl upright
  · split
    · exact .removeConnectionInLoop upright
    · exact .refl upright

theorem Calm.handleClose {process : Process α} (upright : Upright process.conn) :
    Calm process.conn process.handleClose.conn := by
  have ended := Ended.handleClose process.conn
  have closed : Calm process.conn process.conn.handleClose :=
    ⟨upright.ended ended, stream_same ended.calls ended.outputBuffer_, rfl, .inr (.inr ended.state_)⟩
  let closing : Process α := { process with conn := process.conn.handleClose }
  have removed : Calm closing.conn closing.removeConnection.conn := .removeConnection closed.upright
  have state_ : process.handleClose.conn.state_ = process.conn.handleClose.state_ := by
    rcases removed.course with same | ⟨connecting, _⟩ | gone
    · exact same
    · cases ended.state_.symm.trans connecting
    · exact gone.trans ended.state_.symm
  exact closed.trans removed state_

theorem Calm.handleWrite {conn : TcpConnection α} (upright : Upright conn) (result : IoResult) :
    Calm conn (conn.handleWrite result) := by
  refine ⟨upright.handleWrite result, conn.handleWrite_stream result, ?_, .inl (Frame.handleWrite conn result).state_⟩
  rcases conn.handleWrite_cases result with ⟨_, same⟩ | ⟨_, same, _⟩ | ⟨_, _, same⟩ <;> rw [same]
  · rfl
  · split
    · simp only [TcpConnection.drain, TcpConnection.queueWriteComplete, TcpConnection.shutdownInLoop]
      repeat' split
      all_goals rfl
    · rfl

theorem Calm.connectDestroyed {process : Process α} (upright : Upright process.conn) :
    Calm process.conn process.connectDestroyed.conn := by
  unfold Process.connectDestroyed
  split
  · exact .refl upright
  next other => exact ⟨upright.remove other, rfl, rfl, .inl rfl⟩

theorem Upright.popped {conn : TcpConnection α} (upright : Upright conn) {functor : Functor} {rest : List Functor}
    (queue : conn.loop_.functors = functor :: rest) : Upright (conn.popped rest) := by
  refine upright.same (fun other member => ?_) rfl rfl rfl rfl
  rw [conn.work_pop functor rest queue]
  exact List.mem_append_right _ member

theorem Calm.execute [OfNat α 0] {process : Process α} (sound : Sound process) (upright : Upright process.conn)
    (nothing : process.conn.state_ = .kConnecting → process.conn.stream = []) {functor : Functor} {rest : List Functor}
    (queue : process.conn.loop_.functors = functor :: rest) (keeps : functor ≠ .connectDestroyed) (result : IoResult) :
    Calm process.conn ((process.conn.popped rest).execute functor result) := by
  have popped := upright.popped queue
  cases informs : functor.isNotification with
  | true =>
    obtain ⟨callback, same, _⟩ := (process.conn.popped rest).execute_notification functor result informs
    rw [same]
    exact ⟨popped.invoke callback, rfl, rfl, .inl rfl⟩
  | false =>
    have member : functor ∈ process.conn.work := by
      rw [process.conn.work_pop functor rest queue, informs]
      exact List.mem_append_left _ (by simp)
    rcases upright.plain functor member with rfl | rfl
    · obtain ⟨connecting, _⟩ := sound.opens queue
      exact ⟨popped.connectEstablished connecting (nothing connecting), rfl, rfl, .inr (.inl ⟨connecting, rfl⟩)⟩
    · exact absurd rfl keeps

section Steps
variable [OfNat α 0] {before after : Process α}

theorem step_calm {event : Event α} (sound : Sound before) (upright : Upright before.conn)
    (nothing : before.conn.state_ = .kConnecting → before.conn.stream = []) (inner : internal event = true)
    (stepped : before.step event = some after) : Calm before.conn after.conn := by
  cases Process.step_cases stepped with
  | loop _ _ free moved =>
    cases moved with
    | poll | passes => exact .refl upright
    | closes revents =>
      let dispatched : Process α := { before with dispatch := .error revents }
      exact Calm.handleClose (show Upright dispatched.conn from upright)
    | writes revents result => exact .handleWrite upright result
    | swapFunctors between =>
      have work := before.conn.work_swap (sound.batch between)
      exact ⟨upright.same (fun functor member => work ▸ member) rfl rfl rfl rfl, rfl, rfl, .inl rfl⟩
    | destroys result rest queue =>
      let popped : Process α := { before with conn := before.conn.popped rest }
      have destroyed : Calm popped.conn popped.connectDestroyed.conn := .connectDestroyed (upright.popped queue)
      exact ⟨destroyed.upright, destroyed.stream, destroyed.inputBuffer_, destroyed.course⟩
    | runs result functor rest queue keeps => exact .execute sound upright nothing queue keeps result
    | endFunctors => exact ⟨upright.same (fun _ member => member) rfl rfl rfl rfl, rfl, rfl, .inl rfl⟩
    | refuses => exact .refl upright
    | ends | delivers | sends | sendsFile | shuts => cases inner
  | refuses => exact .refl upright
  | calls | queues | setsState | stores | discards => cases inner
  | removes => exact Calm.removeConnectionInLoop upright
  | destroysServer =>
    unfold Process.destroyServer
    simp only
    split
    · split
      · let ended : Process α :=
          { before with server := { before.server with connections_ := false, destructed := true } }
        exact Calm.connectDestroyed (show Upright ended.conn from upright)
      · exact .queues upright rfl (.queueFromThread _ _ rfl)
    · exact .refl upright
  | leaves =>
    have ended := Ended.leaveConnected before.conn
    exact ⟨upright.ended ended, stream_same ended.calls ended.outputBuffer_, rfl, .inr (.inr ended.state_)⟩

theorem read_cases {received : Option (List α)} (stepped : before.step (.read received) = some after) :
    ∃ revents, before.dispatch = .read revents ∧
      (Channel.reads revents = false ∧ after = { before with dispatch := .write revents } ∨
        Channel.reads revents = true ∧ (received.getD []).length ≤ before.conn.inputBuffer_.offered ∧
          after = { before with dispatch := .write revents }.handleRead received) := by
  simp only [Process.step, Process.loopStep] at stepped
  split at stepped
  · cases stepped
  · split at stepped
    next revents position =>
      refine ⟨revents, position, ?_⟩
      split at stepped
      next unread =>
        cases stepped
        exact .inl ⟨by simpa using unread, rfl⟩
      next reads =>
        obtain ⟨room, stepped⟩ := Option.ite_none_right_eq_some.mp stepped
        cases stepped
        exact .inr ⟨by simpa using reads, room, rfl⟩
    next other => cases stepped

private theorem readFd_nothing (buffer : Buffer α) {received : Option (List α)} (nothing : received.getD [] = []) :
    (buffer.readFd received).2 = buffer := by
  rcases received with _ | _ | ⟨byte, bytes⟩
  · rfl
  · simp [Buffer.readFd, Buffer.copyToWrite, overwrite]
  · cases nothing

theorem read_calm {received : Option (List α)} (upright : Upright before.conn) (silent : delivers before received = false)
    (stepped : before.step (.read received) = some after) :
    ∃ conn, Calm conn after.conn ∧ conn.stream = before.conn.stream ∧ conn.state_ = before.conn.state_ ∧
      conn.inputBuffer_ = before.conn.inputBuffer_ := by
  obtain ⟨revents, position, ⟨_, rfl⟩ | ⟨reads, _, rfl⟩⟩ := read_cases stepped
  · exact ⟨before.conn, .refl upright, rfl, rfl, rfl⟩
  · have nothing : received.getD [] = [] := by
      rcases received with _ | _ | ⟨byte, bytes⟩
      · rfl
      · rfl
      · simp [delivers, position, reads] at silent
    refine ⟨before.conn.filled received, ?_, rfl, rfl, readFd_nothing _ nothing⟩
    · unfold Process.handleRead
      simp only
      split
      next closed =>
        rw [TcpConnection.handleRead_closes _ _ closed]
        let filled : Process α :=
          { before with dispatch := .write revents, conn := before.conn.filled received }
        exact Calm.handleClose (show Upright filled.conn from upright.filled received)
      next open_ =>
        have open_ : Process.readCloses received = false := by simpa using open_
        rcases before.conn.handleRead_delivers received open_ with same | same <;> rw [same]
        · exact .refl (upright.filled received)
        · exact ⟨(upright.filled received).invoke _, rfl, rfl, .inl rfl⟩

theorem read_message {message : List α} (brings : delivers before (some message) = true)
    (stepped : before.step (.read (some message)) = some after) :
    after.conn = (before.conn.filled (some message)).invoke .message := by
  obtain ⟨revents, position, ⟨unread, _⟩ | ⟨reads, _, rfl⟩⟩ := read_cases stepped
  · cases message <;> simp [delivers, position, unread] at brings
  · cases message with
    | nil => simp [delivers, position] at brings
    | cons byte bytes =>
      have count : (before.conn.inputBuffer_.readFd (some (byte :: bytes))).1 = some (bytes.length + 1) := by
        unfold Buffer.readFd
        simp only
        split <;> rfl
      simp only [Process.handleRead, Process.readCloses, TcpConnection.handleRead, count, TcpConnection.filled]
      rfl

theorem onMessage_sends {conn after : TcpConnection α} {result : IoResult} (answered : onMessage conn result = some after) :
    after = TcpConnection.send { conn with inputBuffer_ := conn.inputBuffer_.retrieveAll } conn.inputBuffer_.readable result := by
  have all : conn.inputBuffer_.readable.take conn.inputBuffer_.readableBytes = conn.inputBuffer_.readable := by
    rw [← Buffer.readable_length, List.take_length]
  rw [onMessage, Buffer.retrieveAllAsString, Buffer.retrieveAsString_eq _ _ (Nat.le_refl _), all, Option.bind_some] at answered
  simp only at answered
  split at answered <;> cases answered
  rw [Buffer.retrieve, dif_neg (Nat.lt_irrefl _)]

private theorem send_stream (conn : TcpConnection α) (buf : List α) (result : IoResult)
    (connected : conn.state_ = .kConnected) :
    (conn.send buf result).stream = conn.stream ++ buf ∨
      result.isFault = true ∧ (conn.send buf result).stream = conn.stream := by
  rw [TcpConnection.send, if_pos connected]
  cases fault : result.isFault with
  | false => exact .inl (conn.sendInLoop_stream buf result fault)
  | true =>
    cases busy : conn.idle with
    | false =>
      left
      rw [TcpConnection.sendInLoop, busy, if_neg Bool.false_ne_true]
      simp [TcpConnection.stream, TcpConnection.accepted]
    | true =>
      cases result with
      | count n => cases fault
      | error errno =>
        right
        have gone : errno = .EPIPE ∨ errno = .ECONNRESET := by
          cases errno <;> simp [IoResult.isFault] at fault ⊢
        rw [TcpConnection.sendInLoop, busy, if_pos rfl]
        simp only [gone, if_true]
        simp [TcpConnection.stream, SystemCall.accepted, IoResult.transferred]

private theorem send_frame (conn : TcpConnection α) (buffer : Buffer α) (buf : List α) (result : IoResult) :
    Frame [] conn (TcpConnection.send { conn with inputBuffer_ := buffer } buf result) := by
  have emptied : Frame [] conn { conn with inputBuffer_ := buffer } := by
    constructor
    case work => simp [TcpConnection.work]
    case tracked =>
      intro tracks
      exact tracks
    all_goals rfl
  unfold TcpConnection.send
  split
  · exact emptied.trans (.sendInLoop _ buf result)
  · exact emptied

theorem send_input (conn : TcpConnection α) (buf : List α) (result : IoResult) :
    (conn.send buf result).inputBuffer_ = conn.inputBuffer_ := by
  simp only [TcpConnection.send, TcpConnection.sendInLoop, TcpConnection.bufferRemaining, TcpConnection.queueHighWaterMark,
    TcpConnection.queueWriteComplete]
  repeat' split
  all_goals rfl

theorem Answered.send {clean : Prop} {conn base : TcpConnection α} {messages : List (List α)} {message : List α}
    {result : IoResult} (answered : Answered clean conn messages) (live : conn.state_ ≠ .kConnecting)
    (state_ : base.state_ = conn.state_) (stream : base.stream = conn.stream) (healthy : clean → result.isFault = false) :
    Answered clean (base.send message result) (messages ++ [message]) := by
  obtain ⟨kept, among, same, all⟩ := answered.answers
  by_cases connected : base.state_ = .kConnected
  · have next : (base.send message result).state_ = .kConnected := by
      rw [TcpConnection.send, if_pos connected]
      exact (Frame.sendInLoop base message result).state_.trans connected
    refine ⟨fun other => absurd (next.symm.trans other) (by simp), ?_⟩
    rcases send_stream base message result connected with sent | ⟨fault, lost⟩
    · refine ⟨kept ++ [message], among.append (List.Sublist.refl _), ?_, fun cleanly => ?_⟩
      · rw [sent, stream, same]
        simp
      · have whole := (all cleanly).2 (state_.symm.trans connected)
        exact ⟨whole ▸ List.prefix_rfl, fun _ => by rw [whole]⟩
    · refine ⟨kept, among.trans (List.sublist_append_left _ _), by rw [lost, stream, same], fun cleanly => ?_⟩
      cases fault.symm.trans (healthy cleanly)
  · rw [TcpConnection.send, if_neg connected]
    refine ⟨fun connecting => absurd (state_.symm.trans connecting) live, kept, among.trans (List.sublist_append_left _ _),
      stream.trans same, fun cleanly => ⟨(all cleanly).1.trans (List.prefix_append _ _), fun other => absurd other connected⟩⟩

theorem step_echoing {clean : Prop} {event : EchoEvent α} {before after : Process α × List (List α)}
    (healthy : clean → event.isFault = false) (echoing : Echoing clean before)
    (stepped : recorded.step event before = some after) : Echoing clean after := by
  obtain ⟨moved, noted⟩ := Machine.watch_step.mp stepped
  have nothing := fun connecting => (echoing.answered.fresh connecting).1
  cases event with
  | process event =>
    change (if internal event = true then _ else none) = _ at moved
    split at moved
    next inner =>
      have calm := step_calm echoing.sound echoing.upright nothing inner moved
      refine ⟨echoing.sound.step moved, calm.upright, calm.inputBuffer_ ▸ echoing.emptied, ?_⟩
      exact noted ▸ echoing.answered.course calm.stream calm.course
    next outer => cases moved
  | read received result =>
    obtain ⟨handled, read, answer⟩ := Option.bind_eq_some_iff.mp moved
    have sound := echoing.sound.step read
    cases brings : delivers before.1 received with
    | false =>
      rw [if_neg (by simp [brings])] at answer
      cases answer
      obtain ⟨conn, calm, stream, state_, input⟩ := read_calm echoing.upright brings read
      refine ⟨sound, calm.upright, (calm.inputBuffer_.trans input) ▸ echoing.emptied, ?_⟩
      have same : after.2 = before.2 := by
        rw [noted]
        cases received with
        | none => rfl
        | some bytes => simp [record, brings]
      rw [same]
      exact echoing.answered.course (calm.stream.trans stream) (by rw [← state_]; exact calm.course)
    | true =>
      rw [if_pos brings] at answer
      obtain ⟨conn, answered, same⟩ := Option.map_eq_some_iff.mp answer
      cases received with
      | none =>
        simp only [delivers] at brings
        split at brings <;> simp_all
      | some message =>
        have arrived := read_message brings read
        have sent := onMessage_sends answered
        have text : handled.conn.inputBuffer_.readable = message := by
          rw [arrived]
          change (before.1.conn.filled (some message)).inputBuffer_.readable = _
          rw [TcpConnection.filled, Buffer.readable_readFd, echoing.emptied]
          rfl
        have live : before.1.conn.state_ ≠ .kConnecting := by
          obtain ⟨revents, position, _⟩ := read_cases read
          exact echoing.sound.dispatching (by simp [position])
        have state_ : handled.conn.state_ = before.1.conn.state_ := arrived ▸ rfl
        have upright : Upright { handled.conn with inputBuffer_ := handled.conn.inputBuffer_.retrieveAll } := by
          rw [arrived]
          exact echoing.upright.same (fun _ member => member) rfl rfl rfl rfl
        have final : after.1.conn =
            TcpConnection.send { handled.conn with inputBuffer_ := handled.conn.inputBuffer_.retrieveAll } message result := by
          rw [← same, sent, text]
        have record : after.2 = before.2 ++ [message] := by
          rw [noted]
          simp [EchoServer.record, brings]
        rw [text] at sent
        refine ⟨?_, final ▸ upright.send message result, ?_, ?_⟩
        · rw [← same]
          exact sound.frame (state_ ▸ live) (sent ▸ send_frame handled.conn _ message result) List.not_mem_nil id
        · rw [final, send_input]
          exact Buffer.readable_retrieveAll _
        · rw [final, record]
          exact echoing.answered.send live state_ (arrived ▸ rfl) healthy

theorem newConnection_echoing (clean : Prop) (setup : Setup α) (sameLoop : Bool) :
    Echoing clean (Process.newConnection setup sameLoop, []) := by
  have fresh : Upright (TcpConnection.new setup) := by
    refine ⟨fun _ member => absurd member List.not_mem_nil, by simp [TcpConnection.new], List.not_mem_nil,
      fun connected => ?_, fun _ => ?_, fun connected => ?_⟩
    · cases connected
    · change (Channel.kNoneEvent &&& Channel.kWriteEvent != 0) = false
      decide
    · cases connected
  have empty : (TcpConnection.new setup).stream = [] := Buffer.readable_new _
  refine ⟨Process.newConnection_sound setup sameLoop, ?_, ?_, ?_⟩
  · cases sameLoop with
    | true => exact fresh.connectEstablished rfl empty
    | false =>
      refine ⟨?_, by simp [Process.newConnection, TcpConnection.queueFromThread, TcpConnection.new], List.not_mem_nil,
        fun connected => ?_, fun _ => fresh.silent (by simp [TcpConnection.new]), fun connected => ?_⟩
      · intro functor member
        left
        simpa [TcpConnection.work, Process.newConnection, TcpConnection.queueFromThread, TcpConnection.new, EventLoop.new,
          EventLoop.waiting, Functor.isNotification] using member
      · cases connected
      · cases connected
  · cases sameLoop <;> exact Buffer.readable_new _
  · refine ⟨fun _ => ⟨?_, rfl⟩, [], List.nil_sublist _, ?_, fun _ => ⟨List.nil_prefix, fun _ => rfl⟩⟩
    · cases sameLoop <;> exact empty
    · cases sameLoop <;> exact empty

theorem run_echoing {setup : Setup α} {sameLoop : Bool} {events : List (EchoEvent α)} {final : Process α × List (List α)}
    (reached : recorded.run events (Process.newConnection setup sameLoop, []) = some final) :
    Echoing (∀ event ∈ events, event.isFault = false) final := by
  have along : recorded.Along (fun event _ => (∀ event ∈ events, event.isFault = false) → event.isFault = false) events
      (Process.newConnection setup sameLoop, []) :=
    Machine.along_of_forall (fun event member healthy => healthy event member) _
  exact Machine.run_invariant (fun _ _ _ healthy held stepped => step_echoing healthy held stepped) reached along
    (newConnection_echoing _ setup sameLoop)

/-- For every order of events, from the accept of a connection to its destruction: what the
kernel accepted and what is buffered are the messages of the peer, in their order, each
whole or not at all. While no answer's write has failed it is all of them, up to the end of
the connection; nothing stays in the input buffer, and write interest says whether
something is buffered. -/
theorem echo_stream (setup : Setup α) (sameLoop : Bool) {events : List (EchoEvent α)} {process : Process α}
    {messages : List (List α)}
    (reached : recorded.run events (Process.newConnection setup sameLoop, []) = some (process, messages)) :
    (∃ kept, kept.Sublist messages ∧ process.conn.accepted ++ process.conn.outputBuffer_.readable = kept.flatten ∧
      ((∀ event ∈ events, event.isFault = false) →
        kept <+: messages ∧ (process.conn.state_ = .kConnected → kept = messages))) ∧
    process.conn.inputBuffer_.readable = [] ∧
    (process.conn.state_ = .kConnected →
      (process.conn.channel_.isWriting = true ↔ process.conn.outputBuffer_.readable ≠ [])) ∧
    (process.conn.state_ ≠ .kConnected → process.conn.channel_.isWriting = false) ∧
    .shutdownWrite ∉ process.conn.calls := by
  have echoing := run_echoing reached
  exact ⟨echoing.answered.answers, echoing.emptied, echoing.upright.interest, echoing.upright.silent, echoing.upright.unshut⟩

end Steps

/-- Two messages: the first is taken in part, the second is buffered behind the rest. -/
theorem echo_stream_two : ∃ (process : Process UInt8) (messages : List (List UInt8)),
    recorded.run [.process .swapFunctors, .process (.runFunctor (.count 0)), .process .endFunctors,
      .process (.poll EPOLLIN), .process .close, .process .error, .read (some [1, 2, 3]) (.count 1), .process (.write (.count 0)),
      .process (.poll EPOLLIN), .process .close, .process .error, .read (some [4]) (.count 0), .process (.write (.count 0))]
      (Process.newConnection ⟨7, fun _ => 0, fun _ => [], true, true, 16⟩ false, []) = some (process, messages) ∧
    process.conn.accepted = [1] ∧ messages = [[1, 2, 3], [4]] ∧
    process.conn.accepted ++ process.conn.outputBuffer_.readable = messages.flatten := by
  obtain ⟨⟨process, messages⟩, reached, same⟩ := Option.map_eq_some_iff.mp
    (show (recorded.run [.process .swapFunctors, .process (.runFunctor (.count 0)), .process .endFunctors,
      .process (.poll EPOLLIN), .process .close, .process .error, .read (some [1, 2, 3]) (.count 1), .process (.write (.count 0)),
      .process (.poll EPOLLIN), .process .close, .process .error, .read (some [4]) (.count 0), .process (.write (.count 0))]
      (Process.newConnection (⟨7, fun _ => 0, fun _ => [], true, true, 16⟩ : Setup UInt8) false, [])).map
        (fun state => (state.1.conn.accepted, state.1.conn.state_, state.2)) =
      some ([1], .kConnected, [[1, 2, 3], [4]]) by decide +kernel)
  simp only [Prod.mk.injEq] at same
  obtain ⟨⟨kept, _, stream, all⟩, _⟩ := echo_stream _ _ reached
  refine ⟨process, messages, reached, same.1, same.2.2, ?_⟩
  rw [stream, (all (by decide)).2 same.2.1]

structure Free (process : Process α) : Prop where
  between : process.conn.loop_.callingPendingFunctors_ = false
  idle : process.dispatch = .idle
  leaving : process.destroying = false

/-- The socket is reported writable, and takes `n` bytes. -/
def round (n : Nat) : List (EchoEvent α) :=
  [.process (.poll EPOLLOUT), .process .close, .process .error, .read none (.count 0), .process (.write (.count n))]

private theorem handleWrite_readable {conn : TcpConnection α} (interest : conn.Interest) {n : Nat} (some : 0 < n)
    (inside : n ≤ conn.outputBuffer_.readable.length) :
    (conn.handleWrite (.count n)).outputBuffer_.readable = conn.outputBuffer_.readable.drop n := by
  have rest : conn.outputBuffer_.readable ≠ [] := List.length_pos_iff.mp (by omega)
  have retrieved : (conn.retrieved (.count n)).outputBuffer_.readable = conn.outputBuffer_.readable.drop n :=
    Buffer.readable_retrieve _ _
  rcases conn.handleWrite_cases (.count n) with ⟨silent, _⟩ | ⟨_, _, none⟩ | ⟨_, _, same⟩
  · exact absurd (interest.mpr rest) (by simp [silent])
  · exact absurd none (Nat.ne_of_gt some)
  · rw [same]
    split
    · rw [TcpConnection.drain_outputBuffer, retrieved]
    · exact retrieved

section Rounds
variable [OfNat α 0] {clean : Prop} {state : Process α × List (List α)}

private theorem recorded_silent {event : EchoEvent α} {process next : Process α} {messages : List (List α)}
    (stepped : machine.step event process = some next) (silent : record event process messages = messages) :
    recorded.step event (process, messages) = some (next, messages) :=
  Machine.watch_step.mpr ⟨stepped, silent.symm⟩

theorem run_round (echoing : Echoing clean state) (free : Free state.1) (connected : state.1.conn.state_ = .kConnected)
    {n : Nat} (fits : n ≤ state.1.conn.outputBuffer_.readable.length) :
    recorded.run (round n) state = some ({ state.1 with conn := state.1.conn.handleWrite (.count n) }, state.2) := by
  obtain ⟨process, messages⟩ := state
  obtain ⟨between, idle, leaving⟩ := free
  simp only at between idle leaving fits ⊢
  have registered : (process.conn.loop_.poller_.epollfd_ process.conn.channel_.fd_).isSome = true := by
    rw [echoing.sound.tracked, if_pos (echoing.upright.watched connected).1]
    rfl
  have fits : IoResult.fits process.conn.outputBuffer_.readableBytes (.count n) = true := by
    simpa [IoResult.fits] using fits
  have open_ : Channel.closes EPOLLOUT = false := by decide
  have unread : Channel.reads EPOLLOUT = false := by decide
  have writes : Channel.writes EPOLLOUT = true := by decide
  refine (Machine.run_cons _ _ _ _ _).mpr ⟨({ process with dispatch := .close EPOLLOUT }, messages), recorded_silent ?_ rfl, ?_⟩
  · simp [machine, step, internal, Process.step, Process.loopStep, between, idle, leaving, registered]
  refine (Machine.run_cons _ _ _ _ _).mpr ⟨({ process with dispatch := .error EPOLLOUT }, messages), recorded_silent ?_ rfl, ?_⟩
  · simp [machine, step, internal, Process.step, Process.loopStep, leaving, open_]
  refine (Machine.run_cons _ _ _ _ _).mpr ⟨({ process with dispatch := .read EPOLLOUT }, messages), recorded_silent ?_ rfl, ?_⟩
  · simp [machine, step, internal, Process.step, Process.loopStep, leaving]
  refine (Machine.run_cons _ _ _ _ _).mpr ⟨({ process with dispatch := .write EPOLLOUT }, messages), recorded_silent ?_ rfl, ?_⟩
  · simp [machine, step, Process.step, Process.loopStep, leaving, unread, delivers]
  refine (Machine.run_cons _ _ _ _ _).mpr ⟨_, recorded_silent ?_ rfl, Machine.run_nil _ _⟩
  simp [machine, step, internal, Process.step, Process.loopStep, leaving, writes, fits, ← idle]

private theorem round_echoing (echoing : Echoing clean state) {n : Nat} {final : Process α × List (List α)}
    (reached : recorded.run (round n) state = some final) : Echoing clean final := by
  have healthy : ∀ event ∈ (round n : List (EchoEvent α)), event.isFault = false := by
    intro event member
    simp only [round, List.mem_cons, List.not_mem_nil, or_false] at member
    rcases member with rfl | rfl | rfl | rfl | rfl <;> rfl
  exact Machine.run_invariant (fun _ _ _ healthy held stepped => step_echoing (fun _ => healthy) held stepped) reached
    (Machine.along_of_forall healthy state) echoing

/-- Every round takes some bytes; when all are taken, nothing is left to write. -/
theorem run_rounds {counts : List Nat} (echoing : Echoing clean state) (free : Free state.1)
    (connected : state.1.conn.state_ = .kConnected) (some : ∀ n ∈ counts, 0 < n)
    (all : counts.sum = state.1.conn.outputBuffer_.readable.length) : ∃ process : Process α,
      recorded.run (counts.flatMap round) state = .some (process, state.2) ∧ process.conn.state_ = .kConnected ∧
      process.conn.outputBuffer_.readable = [] ∧ process.conn.accepted = state.1.conn.stream ∧
      process.conn.channel_.isWriting = false := by
  induction counts generalizing state with
  | nil =>
    have empty : state.1.conn.outputBuffer_.readable = [] := List.eq_nil_of_length_eq_zero all.symm
    refine ⟨state.1, rfl, connected, empty, ?_, ?_⟩
    · rw [TcpConnection.stream, empty, List.append_nil]
    · have interest := echoing.upright.interest connected
      simpa [TcpConnection.Interest, empty] using interest
  | cons n counts ih =>
    have positive := some n (by simp)
    rw [List.sum_cons] at all
    have inside : n ≤ state.1.conn.outputBuffer_.readable.length := by omega
    have reached := run_round echoing free connected inside
    have frame := Frame.handleWrite state.1.conn (.count n)
    have left := handleWrite_readable (echoing.upright.interest connected) positive inside
    obtain ⟨process, run, up, empty, taken, silent⟩ := ih (round_echoing echoing reached)
      ⟨frame.calling.trans free.between, free.idle, free.leaving⟩ (frame.state_.trans connected)
      (fun other member => some other (List.mem_cons_of_mem _ member)) (by rw [left, List.length_drop]; omega)
    refine ⟨process, ?_, up, empty, ?_, silent⟩
    · rw [List.flatMap_cons]
      exact (Machine.run_append _ _ _ _ _).mpr ⟨_, reached, run⟩
    · exact taken.trans (state.1.conn.handleWrite_stream (.count n))

/-- From any reachable state in which the connection is up and its loop is free: however the
kernel splits what is buffered, as long as it takes something each time the socket is
reported writable, in the end the peer has been sent all of its messages, and the loop
waits for reading only. -/
theorem echo_completes (setup : Setup α) (sameLoop : Bool) {events : List (EchoEvent α)} {process : Process α}
    {messages : List (List α)} (healthy : ∀ event ∈ events, event.isFault = false)
    (reached : recorded.run events (Process.newConnection setup sameLoop, []) = some (process, messages))
    (connected : process.conn.state_ = .kConnected) (free : Free process) (counts : List Nat) (positive : ∀ n ∈ counts, 0 < n)
    (all : counts.sum = process.conn.outputBuffer_.readable.length) : ∃ final : Process α,
      recorded.run (counts.flatMap round) (process, messages) = some (final, messages) ∧
      final.conn.accepted = messages.flatten ∧ final.conn.outputBuffer_.readable = [] ∧
      final.conn.channel_.isWriting = false ∧ final.conn.channel_.isReading = true := by
  have echoing := run_echoing reached
  obtain ⟨final, run, up, empty, taken, silent⟩ := run_rounds echoing free connected positive all
  obtain ⟨kept, _, stream, whole⟩ := echoing.answered.answers
  have later := run_echoing ((Machine.run_append _ _ _ _ _).mpr ⟨_, reached, run⟩)
  refine ⟨final, run, ?_, empty, silent, (later.upright.watched up).2⟩
  rw [taken, stream, (whole healthy).2 connected]

end Rounds

def isFree (process : Process α) : Bool :=
  !process.conn.loop_.callingPendingFunctors_ && !process.destroying && match process.dispatch with
    | .idle => true
    | _ => false

private theorem isFree_free {process : Process α} (free : isFree process = true) : Free process := by
  simp only [isFree, Bool.and_eq_true, Bool.not_eq_true'] at free
  refine ⟨free.1.1, ?_, free.1.2⟩
  cases dispatch : process.dispatch <;> simp [dispatch] at free ⊢

/-- Three bytes, of which the kernel takes one, then one, then the last. -/
theorem echo_completes_three : ∃ process final : Process UInt8,
    recorded.run [.process .swapFunctors, .process (.runFunctor (.count 0)), .process .endFunctors,
      .process (.poll EPOLLIN), .process .close, .process .error, .read (some [1, 2, 3]) (.count 1), .process (.write (.count 0))]
      (Process.newConnection ⟨7, fun _ => 0, fun _ => [], true, true, 16⟩ false, []) = some (process, [[1, 2, 3]]) ∧
    recorded.run ([1, 1].flatMap round) (process, [[1, 2, 3]]) = some (final, [[1, 2, 3]]) ∧
    final.conn.accepted = [1, 2, 3] := by
  obtain ⟨⟨process, messages⟩, reached, same⟩ := Option.map_eq_some_iff.mp
    (show (recorded.run [.process .swapFunctors, .process (.runFunctor (.count 0)), .process .endFunctors,
      .process (.poll EPOLLIN), .process .close, .process .error, .read (some [1, 2, 3]) (.count 1), .process (.write (.count 0))]
      (Process.newConnection (⟨7, fun _ => 0, fun _ => [], true, true, 16⟩ : Setup UInt8) false, [])).map
        (fun state => (state.1.conn.state_, isFree state.1, state.1.conn.outputBuffer_.readable.length, state.2)) =
      some (.kConnected, true, 2, [[1, 2, 3]]) by decide +kernel)
  simp only [Prod.mk.injEq] at same
  obtain ⟨connected, free, length, rfl⟩ := same
  obtain ⟨final, run, taken, _⟩ := echo_completes _ _ (by decide) reached connected (isFree_free free) [1, 1] (by decide)
    length.symm
  exact ⟨process, final, reached, run, taken⟩

end EchoServer
end Webserver
