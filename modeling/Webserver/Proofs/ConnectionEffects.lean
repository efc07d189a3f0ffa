import Webserver.Proofs.BufferQueue
import Webserver.TcpConnection

/-! What each method of a connection does to the output stream, and what it
leaves alone. -/

namespace Webserver
open Library

universe u

namespace EPollPoller

@[simp]
theorem updateChannel_events (poller : EPollPoller) (channel : Channel) :
    (poller.updateChannel channel).2.events_ = channel.events_ := by
  unfold updateChannel
  split <;> (try split) <;> rfl

/-- The kernel's interest list has the channel's mask while the channel is added, else nothing. -/
def Tracks (poller : EPollPoller) (channel : Channel) : Prop :=
  poller.epollfd_ channel.fd_ = if channel.index_ = .kAdded then some channel.events_ else none

theorem Tracks.updateChannel {poller : EPollPoller} {channel : Channel} (tracks : poller.Tracks channel) (events : Mask) :
    (poller.updateChannel { channel with events_ := events }).1.Tracks
      (poller.updateChannel { channel with events_ := events }).2 := by
  unfold Tracks at *
  cases index : channel.index_ with
  | kNew | kDeleted =>
    rw [index, if_neg (by decide)] at tracks
    simp [EPollPoller.updateChannel, update, epoll_ctl, tracks]
  | kAdded =>
    rw [index, if_pos rfl] at tracks
    simp only [EPollPoller.updateChannel, update, epoll_ctl, tracks]
    split <;> simp

theorem Tracks.removeChannel {poller : EPollPoller} {channel : Channel} (tracks : poller.Tracks channel) :
    (poller.removeChannel channel).1.Tracks (poller.removeChannel channel).2 := by
  unfold Tracks at *
  cases index : channel.index_ with
  | kNew | kDeleted =>
    rw [index, if_neg (by decide)] at tracks
    simp [EPollPoller.removeChannel, index, tracks]
  | kAdded =>
    rw [index, if_pos rfl] at tracks
    simp [EPollPoller.removeChannel, index, update, epoll_ctl, tracks]

end EPollPoller

namespace Channel

private theorem mask_or_and_self (x y : Mask) : (x ||| y) &&& y = y := by
  ext index inside
  simp only [BitVec.getElem_and, BitVec.getElem_or]
  cases x[index] <;> cases y[index] <;> rfl

private theorem mask_or_and (x y z : Mask) (apart : y &&& z = 0) : (x ||| y) &&& z = x &&& z := by
  ext index inside
  have bit := congrArg (fun bits : Mask => bits[index]) apart
  simp only [BitVec.getElem_and, BitVec.getElem_or, BitVec.ofNat_eq_ofNat, BitVec.getElem_zero] at bit ⊢
  rw [Bool.and_or_distrib_right, bit, Bool.or_false]

@[simp]
private theorem isWriting_enable (channel : Channel) (mask : Mask) (same : channel.events_ = mask ||| kWriteEvent) :
    channel.isWriting = true := by
  rw [isWriting, same, mask_or_and_self]
  decide

private theorem isWriting_disable (channel : Channel) (mask : Mask) (same : channel.events_ = mask &&& ~~~kWriteEvent) :
    channel.isWriting = false := by
  rw [isWriting, same, BitVec.and_assoc, show (~~~kWriteEvent &&& kWriteEvent : Mask) = 0 by decide]
  simp

theorem isReading_enableReading (channel : Channel) (mask : Mask) (same : channel.events_ = mask ||| kReadEvent) :
    channel.isReading = true := by
  rw [isReading, same, mask_or_and_self]
  decide

private theorem isReading_enable (channel other : Channel) (same : channel.events_ = other.events_ ||| kWriteEvent) :
    channel.isReading = other.isReading := by
  rw [isReading, same, mask_or_and _ _ _ (by decide), isReading]

private theorem isReading_disable (channel other : Channel) (same : channel.events_ = other.events_ &&& ~~~kWriteEvent) :
    channel.isReading = other.isReading := by
  rw [isReading, same, BitVec.and_assoc, show (~~~kWriteEvent &&& kReadEvent : Mask) = kReadEvent by decide, isReading]

end Channel

/-- A functor that only informs the user: it does nothing to the connection. -/
def Functor.isNotification : Functor → Bool
  | .writeCompleteCallback | .highWaterMarkCallback _ => true
  | _ => false

def Callback.isLifecycle : Callback → Bool
  | .connection _ | .close => true
  | _ => false

namespace TcpConnection
variable {α : Type u}

def announced (conn : TcpConnection α) : List Callback := conn.callbacks.filter Callback.isLifecycle

def accepted (conn : TcpConnection α) : List α := conn.calls.flatMap SystemCall.accepted

/-- The byte stream produced: what the kernel has accepted, then what is buffered. -/
def stream (conn : TcpConnection α) : List α := conn.accepted ++ conn.outputBuffer_.readable

/-- The queued functors that do something, in the order in which they will run. -/
def work (conn : TcpConnection α) : List Functor :=
  conn.loop_.waiting.filter fun functor => !functor.isNotification

/-- The channel is interested in writing exactly while there is something to write. -/
def Interest (conn : TcpConnection α) : Prop :=
  conn.channel_.isWriting = true ↔ conn.outputBuffer_.readable ≠ []

/-- What the output methods leave alone, while they queue `queued`. -/
structure Frame (queued : List Functor) (before after : TcpConnection α) : Prop where
  state_ : after.state_ = before.state_
  announced : after.announced = before.announced
  memory : after.memory = before.memory
  files : after.files = before.files
  functors : after.loop_.functors = before.loop_.functors
  calling : after.loop_.callingPendingFunctors_ = before.loop_.callingPendingFunctors_
  reading : after.channel_.isReading = before.channel_.isReading
  tracked : before.loop_.poller_.Tracks before.channel_ → after.loop_.poller_.Tracks after.channel_
  work : after.work = before.work ++ queued

theorem Frame.refl (conn : TcpConnection α) : Frame [] conn conn := by
  constructor <;> simp

theorem Frame.trans {first second : List Functor} {before middle after : TcpConnection α}
    (early : Frame first before middle) (late : Frame second middle after) : Frame (first ++ second) before after where
  state_ := late.state_.trans early.state_
  announced := late.announced.trans early.announced
  memory := late.memory.trans early.memory
  files := late.files.trans early.files
  functors := late.functors.trans early.functors
  calling := late.calling.trans early.calling
  reading := late.reading.trans early.reading
  tracked := fun tracks => late.tracked (early.tracked tracks)
  work := by rw [late.work, early.work, List.append_assoc]

theorem Frame.systemCall (conn : TcpConnection α) (call : SystemCall α) : Frame [] conn (conn.systemCall call) := by
  constructor <;> simp [TcpConnection.systemCall, TcpConnection.work, TcpConnection.announced]

theorem Frame.queueInLoop (conn : TcpConnection α) (functor : Functor) :
    Frame ([functor].filter fun functor => !functor.isNotification) conn (conn.queueInLoop functor) := by
  constructor <;> simp [TcpConnection.queueInLoop, TcpConnection.work, TcpConnection.announced]

theorem Frame.queueWriteComplete (conn : TcpConnection α) (remaining : Nat) :
    Frame [] conn (conn.queueWriteComplete remaining) := by
  unfold TcpConnection.queueWriteComplete
  split
  · exact Frame.queueInLoop conn .writeCompleteCallback
  · exact .refl conn

theorem Frame.queueHighWaterMark (conn : TcpConnection α) (remaining : Nat) :
    Frame [] conn (conn.queueHighWaterMark remaining) := by
  unfold TcpConnection.queueHighWaterMark
  simp only
  split
  · exact Frame.queueInLoop conn (.highWaterMarkCallback _)
  · exact .refl conn

@[simp] theorem update_events (conn : TcpConnection α) (events : Mask) : (conn.update events).channel_.events_ = events :=
  EPollPoller.updateChannel_events _ _

theorem Frame.update (conn : TcpConnection α) (events : Mask)
    (reading : (conn.update events).channel_.isReading = conn.channel_.isReading) :
    Frame [] conn (conn.update events) := by
  constructor
  case reading => exact reading
  case tracked =>
    intro tracks
    exact tracks.updateChannel events
  case work => simp [TcpConnection.work, TcpConnection.update, EventLoop.waiting]
  all_goals rfl

theorem Frame.enableWriting (conn : TcpConnection α) : Frame [] conn conn.enableWriting :=
  .update _ _ (Channel.isReading_enable _ _ (update_events _ _))

theorem Frame.disableWriting (conn : TcpConnection α) : Frame [] conn conn.disableWriting :=
  .update _ _ (Channel.isReading_disable _ _ (update_events _ _))

@[simp] theorem enableWriting_isWriting (conn : TcpConnection α) : conn.enableWriting.channel_.isWriting = true :=
  Channel.isWriting_enable _ _ (update_events _ _)

@[simp] theorem disableWriting_isWriting (conn : TcpConnection α) : conn.disableWriting.channel_.isWriting = false :=
  Channel.isWriting_disable _ _ (update_events _ _)

@[simp] theorem disableWriting_calls (conn : TcpConnection α) : conn.disableWriting.calls = conn.calls := rfl

@[simp] theorem disableWriting_outputBuffer (conn : TcpConnection α) :
    conn.disableWriting.outputBuffer_ = conn.outputBuffer_ := rfl

@[simp] theorem queueWriteComplete_channel (conn : TcpConnection α) (remaining : Nat) :
    (conn.queueWriteComplete remaining).channel_ = conn.channel_ := by
  unfold queueWriteComplete
  split <;> rfl

@[simp] theorem queueWriteComplete_outputBuffer (conn : TcpConnection α) (remaining : Nat) :
    (conn.queueWriteComplete remaining).outputBuffer_ = conn.outputBuffer_ := by
  unfold queueWriteComplete
  split <;> rfl

@[simp] theorem queueWriteComplete_calls (conn : TcpConnection α) (remaining : Nat) :
    (conn.queueWriteComplete remaining).calls = conn.calls := by
  unfold queueWriteComplete
  split <;> rfl

@[simp] theorem queueHighWaterMark_outputBuffer (conn : TcpConnection α) (remaining : Nat) :
    (conn.queueHighWaterMark remaining).outputBuffer_ = conn.outputBuffer_ := by
  simp only [queueHighWaterMark]
  split <;> rfl

@[simp] theorem queueHighWaterMark_calls (conn : TcpConnection α) (remaining : Nat) :
    (conn.queueHighWaterMark remaining).calls = conn.calls := by
  simp only [queueHighWaterMark]
  split <;> rfl

@[simp] theorem systemCall_calls (conn : TcpConnection α) (call : SystemCall α) :
    (conn.systemCall call).calls = conn.calls ++ [call] := rfl

@[simp] theorem systemCall_channel (conn : TcpConnection α) (call : SystemCall α) :
    (conn.systemCall call).channel_ = conn.channel_ := rfl

@[simp] theorem systemCall_outputBuffer (conn : TcpConnection α) (call : SystemCall α) :
    (conn.systemCall call).outputBuffer_ = conn.outputBuffer_ := rfl

@[simp] theorem accepted_systemCall (conn : TcpConnection α) (call : SystemCall α) :
    (conn.systemCall call).accepted = conn.accepted ++ call.accepted := by
  simp [accepted]

theorem idle_readable (conn : TcpConnection α) (idle : conn.idle = true) : conn.outputBuffer_.readable = [] := by
  have empty : conn.outputBuffer_.readableBytes = 0 := by
    simp only [TcpConnection.idle, Bool.and_eq_true, beq_iff_eq] at idle
    exact idle.2
  exact List.eq_nil_of_length_eq_zero (by rw [Buffer.readable_length, empty])

section Sending
variable [OfNat α 0]

theorem Frame.appendOutput (conn : TcpConnection α) (data : List α) : Frame [] conn (conn.appendOutput data) := by
  constructor <;> simp [TcpConnection.work, TcpConnection.announced, TcpConnection.appendOutput]

theorem Frame.bufferRemaining (conn : TcpConnection α) (rest : List α) : Frame [] conn (conn.bufferRemaining rest) := by
  have buffered := (Frame.queueHighWaterMark conn rest.length).trans (.appendOutput _ rest)
  unfold TcpConnection.bufferRemaining
  split
  next nonempty =>
    simp only
    split
    · exact buffered
    · exact buffered.trans (.enableWriting _)
  next empty => exact .refl conn

@[simp] theorem bufferRemaining_calls (conn : TcpConnection α) (rest : List α) :
    (conn.bufferRemaining rest).calls = conn.calls := by
  have buffered : ((conn.queueHighWaterMark rest.length).appendOutput rest).calls = conn.calls :=
    queueHighWaterMark_calls _ _
  unfold bufferRemaining
  split
  · simp only
    split <;> exact buffered
  · rfl

@[simp] theorem bufferRemaining_readable (conn : TcpConnection α) (rest : List α) :
    (conn.bufferRemaining rest).outputBuffer_.readable = conn.outputBuffer_.readable ++ rest := by
  have buffered : ((conn.queueHighWaterMark rest.length).appendOutput rest).outputBuffer_.readable =
      conn.outputBuffer_.readable ++ rest := by
    simp [appendOutput]
  unfold bufferRemaining
  split
  next nonempty =>
    simp only
    split <;> exact buffered
  next empty =>
    have none : rest = [] := List.eq_nil_of_length_eq_zero (by omega)
    simp [none]

private theorem bufferRemaining_writing (conn : TcpConnection α) (rest : List α) (nonempty : rest ≠ []) :
    (conn.bufferRemaining rest).channel_.isWriting = true := by
  unfold bufferRemaining
  rw [if_pos (List.length_pos_iff.mpr nonempty)]
  simp only
  split
  next writing => exact writing
  next silent => exact enableWriting_isWriting _

theorem Interest.bufferRemaining {conn : TcpConnection α} (interest : conn.Interest) (rest : List α) :
    (conn.bufferRemaining rest).Interest := by
  by_cases empty : rest = []
  · subst rest
    exact interest
  · simp [Interest, bufferRemaining_writing conn rest empty, empty]

theorem Frame.sendInLoop (conn : TcpConnection α) (data : List α) (result : IoResult) :
    Frame [] conn (conn.sendInLoop data result) := by
  unfold TcpConnection.sendInLoop
  split
  next idle =>
    have written := Frame.systemCall conn (.write data result)
    cases result with
    | count nwrote => exact written.trans ((Frame.queueWriteComplete _ _).trans (.bufferRemaining _ _))
    | error errno =>
      simp only
      split
      · exact written
      · exact written.trans (.bufferRemaining _ _)
  next busy => exact .bufferRemaining conn data

/-- Whether the data goes to the kernel, to the buffer or in part to each, it
follows everything that was sent before. -/
theorem sendInLoop_stream (conn : TcpConnection α) (data : List α) (result : IoResult)
    (healthy : result.isFault = false) : (conn.sendInLoop data result).stream = conn.stream ++ data := by
  unfold sendInLoop
  split
  next idle =>
    have empty := conn.idle_readable idle
    cases result with
    | count nwrote =>
      simp [stream, accepted, empty, SystemCall.accepted, IoResult.transferred]
    | error errno =>
      have benign : ¬(errno = .EPIPE ∨ errno = .ECONNRESET) := by
        rintro (rfl | rfl) <;> cases healthy
      simp [stream, accepted, empty, benign, SystemCall.accepted, IoResult.transferred]
  next busy => simp [stream, accepted]

theorem Interest.sendInLoop {conn : TcpConnection α} (interest : conn.Interest) (data : List α) (result : IoResult) :
    (conn.sendInLoop data result).Interest := by
  unfold TcpConnection.sendInLoop
  split
  next idle =>
    have written : (conn.systemCall (.write data result)).Interest := interest
    cases result with
    | count nwrote =>
      apply Interest.bufferRemaining
      simpa only [Interest, queueWriteComplete_channel, queueWriteComplete_outputBuffer] using written
    | error errno =>
      simp only
      split
      · exact written
      · exact written.bufferRemaining data
  next busy => exact interest.bufferRemaining data

theorem sendInLoop_calls (conn : TcpConnection α) (data : List α) (result : IoResult) :
    (conn.sendInLoop data result).calls = conn.calls ++ if conn.idle then [.write data result] else [] := by
  unfold sendInLoop
  split
  next idle =>
    cases result with
    | count nwrote => simp
    | error errno =>
      simp only
      split <;> simp
  next busy => simp

end Sending

/-- How much a `sendFileInLoop` transfers: nothing while something is being written. -/
def sentNow (conn : TcpConnection α) (result : IoResult) : Nat := if conn.idle then result.transferred else 0

def requeued (conn : TcpConnection α) (fileDescriptor offset count : Nat) (result : IoResult) : List Functor :=
  if count - conn.sentNow result > 0 then
    [.sendFileInLoop fileDescriptor (offset + conn.sentNow result) (count - conn.sentNow result)]
  else []

theorem Frame.queueRemaining (conn : TcpConnection α) (fileDescriptor offset remaining : Nat) :
    Frame (if remaining > 0 then [.sendFileInLoop fileDescriptor offset remaining] else []) conn
      (conn.queueRemaining fileDescriptor offset remaining) := by
  unfold TcpConnection.queueRemaining
  split
  · exact Frame.queueInLoop conn (.sendFileInLoop fileDescriptor offset remaining)
  · exact .refl conn

@[simp] theorem queueRemaining_channel (conn : TcpConnection α) (fileDescriptor offset remaining : Nat) :
    (conn.queueRemaining fileDescriptor offset remaining).channel_ = conn.channel_ := by
  unfold queueRemaining
  split <;> rfl

@[simp] theorem queueRemaining_outputBuffer (conn : TcpConnection α) (fileDescriptor offset remaining : Nat) :
    (conn.queueRemaining fileDescriptor offset remaining).outputBuffer_ = conn.outputBuffer_ := by
  unfold queueRemaining
  split <;> rfl

@[simp] theorem queueRemaining_calls (conn : TcpConnection α) (fileDescriptor offset remaining : Nat) :
    (conn.queueRemaining fileDescriptor offset remaining).calls = conn.calls := by
  unfold queueRemaining
  split <;> rfl

section SendingFiles
variable (conn : TcpConnection α) (fileDescriptor offset count : Nat) (result : IoResult)

theorem Frame.sendFileInLoop (still : conn.state_ ≠ .kDisconnecting) (healthy : result.isFault = false) :
    Frame (conn.requeued fileDescriptor offset count result) conn
      (conn.sendFileInLoop fileDescriptor offset count result) := by
  rw [TcpConnection.sendFileInLoop, if_neg still]
  split
  next idle =>
    have sent := Frame.systemCall conn (.sendfile (conn.range fileDescriptor offset count) result)
    cases result with
    | count bytesSent =>
      simp only [requeued, sentNow, idle, if_true, IoResult.transferred]
      exact sent.trans ((Frame.queueWriteComplete _ _).trans (.queueRemaining _ _ _ _))
    | error errno =>
      have benign : ¬(errno = .EPIPE ∨ errno = .ECONNRESET) := by
        rintro (rfl | rfl) <;> cases healthy
      simp only [requeued, sentNow, idle, if_true, IoResult.transferred, benign, if_false, Nat.add_zero, Nat.sub_zero]
      exact sent.trans (.queueRemaining _ _ _ _)
  next busy =>
    simp only [requeued, sentNow, busy, Bool.false_eq_true, if_false, Nat.add_zero, Nat.sub_zero]
    exact .queueRemaining conn fileDescriptor offset count

@[simp] theorem sendFileInLoop_state : (conn.sendFileInLoop fileDescriptor offset count result).state_ = conn.state_ := by
  have queued (other : TcpConnection α) (from_ remaining : Nat) :
      (other.queueRemaining fileDescriptor from_ remaining).state_ = other.state_ :=
    (Frame.queueRemaining other fileDescriptor from_ remaining).state_
  have informed (other : TcpConnection α) (remaining : Nat) : (other.queueWriteComplete remaining).state_ = other.state_ :=
    (Frame.queueWriteComplete other remaining).state_
  unfold TcpConnection.sendFileInLoop
  split
  · rfl
  · split
    · cases result with
      | count bytesSent => simp [queued, informed, systemCall]
      | error errno =>
        simp only
        split <;> simp [queued, systemCall]
    · exact queued conn offset count

theorem sendFileInLoop_stream (still : conn.state_ ≠ .kDisconnecting) :
    (conn.sendFileInLoop fileDescriptor offset count result).stream =
      conn.stream ++ (conn.range fileDescriptor offset count).take (conn.sentNow result) := by
  rw [sendFileInLoop, if_neg still]
  split
  next idle =>
    have empty := conn.idle_readable idle
    cases result with
    | count bytesSent => simp [stream, accepted, empty, sentNow, idle, SystemCall.accepted, IoResult.transferred]
    | error errno =>
      simp only
      split <;> simp [stream, accepted, empty, sentNow, idle, SystemCall.accepted, IoResult.transferred]
  next busy => simp [stream, accepted, sentNow, busy]

theorem Interest.sendFileInLoop {conn : TcpConnection α} (interest : conn.Interest) :
    (conn.sendFileInLoop fileDescriptor offset count result).Interest := by
  unfold TcpConnection.sendFileInLoop
  split
  next given => exact interest
  next still =>
    split
    next idle =>
      cases result with
      | count bytesSent => simpa [Interest] using interest
      | error errno =>
        simp only
        split
        · exact interest
        · simpa [Interest] using interest
    next busy => simpa [Interest] using interest

theorem sendFileInLoop_calls (still : conn.state_ ≠ .kDisconnecting) :
    (conn.sendFileInLoop fileDescriptor offset count result).calls =
      conn.calls ++ if conn.idle then [.sendfile (conn.range fileDescriptor offset count) result] else [] := by
  rw [sendFileInLoop, if_neg still]
  split
  next idle =>
    cases result with
    | count bytesSent => simp
    | error errno =>
      simp only
      split <;> simp
  next busy => simp

end SendingFiles

theorem Frame.shutdownInLoop (conn : TcpConnection α) : Frame [] conn conn.shutdownInLoop := by
  unfold TcpConnection.shutdownInLoop
  split
  · exact .refl conn
  · exact .systemCall conn .shutdownWrite

theorem shutdownInLoop_stream (conn : TcpConnection α) : conn.shutdownInLoop.stream = conn.stream := by
  unfold shutdownInLoop
  split <;> simp [stream, SystemCall.accepted]

theorem Interest.shutdownInLoop {conn : TcpConnection α} (interest : conn.Interest) : conn.shutdownInLoop.Interest := by
  unfold TcpConnection.shutdownInLoop
  split <;> exact interest

/-- The output is drained: the end of `handleWrite` when the buffer became empty. -/
def drain (conn : TcpConnection α) : TcpConnection α :=
  let drained := conn.disableWriting.queueWriteComplete 0
  if drained.state_ = .kDisconnecting then drained.shutdownInLoop else drained

theorem Frame.drain (conn : TcpConnection α) : Frame [] conn conn.drain := by
  have drained := (Frame.disableWriting conn).trans (.queueWriteComplete _ 0)
  unfold TcpConnection.drain
  simp only
  split
  · exact drained.trans (.shutdownInLoop _)
  · exact drained

theorem drain_calls (conn : TcpConnection α) :
    conn.drain.calls = conn.calls ++ if conn.state_ = .kDisconnecting then [.shutdownWrite] else [] := by
  have same : (conn.disableWriting.queueWriteComplete 0).state_ = conn.state_ :=
    ((Frame.disableWriting conn).trans (.queueWriteComplete _ 0)).state_
  simp only [drain, same]
  split <;> simp [TcpConnection.shutdownInLoop]

@[simp] theorem drain_outputBuffer (conn : TcpConnection α) : conn.drain.outputBuffer_ = conn.outputBuffer_ := by
  simp only [drain, TcpConnection.shutdownInLoop]
  split <;> simp

@[simp] theorem drain_isWriting (conn : TcpConnection α) : conn.drain.channel_.isWriting = false := by
  simp only [drain, TcpConnection.shutdownInLoop]
  split <;> simp

def retrieved (conn : TcpConnection α) (result : IoResult) : TcpConnection α :=
  { conn.systemCall (.write conn.outputBuffer_.readable result) with
    outputBuffer_ := conn.outputBuffer_.retrieve result.transferred }

theorem handleWrite_cases (conn : TcpConnection α) (result : IoResult) :
    conn.channel_.isWriting = false ∧ conn.handleWrite result = conn ∨
    conn.channel_.isWriting = true ∧
      conn.handleWrite result = conn.systemCall (.write conn.outputBuffer_.readable result) ∧ result.transferred = 0 ∨
    conn.channel_.isWriting = true ∧ 0 < result.transferred ∧
      conn.handleWrite result =
        (if (conn.retrieved result).outputBuffer_.readable = [] then (conn.retrieved result).drain
         else conn.retrieved result) := by
  unfold handleWrite
  split
  next writing =>
    cases result with
    | error errno => exact .inr (.inl ⟨writing, rfl, rfl⟩)
    | count n =>
      simp only
      split
      next some =>
        refine .inr (.inr ⟨writing, some, ?_⟩)
        simp only [← List.length_eq_zero_iff, Buffer.readable_length]
        rfl
      next none => exact .inr (.inl ⟨writing, rfl, by simp only [IoResult.transferred]; omega⟩)
  next silent => exact .inl ⟨by simpa using silent, rfl⟩

theorem Frame.retrieved (conn : TcpConnection α) (result : IoResult) : Frame [] conn (conn.retrieved result) := by
  constructor <;> simp [TcpConnection.retrieved, TcpConnection.systemCall, TcpConnection.work, TcpConnection.announced]

private theorem retrieved_stream (conn : TcpConnection α) (result : IoResult) :
    (conn.retrieved result).stream = conn.stream := by
  simp only [stream, retrieved, Buffer.readable_retrieve]
  rw [show TcpConnection.accepted { conn.systemCall (.write conn.outputBuffer_.readable result) with
    outputBuffer_ := conn.outputBuffer_.retrieve result.transferred } =
    conn.accepted ++ conn.outputBuffer_.readable.take result.transferred from accepted_systemCall _ _]
  rw [List.append_assoc, List.take_append_drop]

private theorem drain_stream (conn : TcpConnection α) : conn.drain.stream = conn.stream := by
  simp only [stream, accepted, drain_calls, drain_outputBuffer, List.flatMap_append]
  split <;> simp [SystemCall.accepted]

theorem Frame.handleWrite (conn : TcpConnection α) (result : IoResult) : Frame [] conn (conn.handleWrite result) := by
  rcases conn.handleWrite_cases result with ⟨_, same⟩ | ⟨_, same, _⟩ | ⟨_, _, same⟩ <;> rw [same]
  · exact .refl conn
  · exact .systemCall conn _
  · split
    · exact (Frame.retrieved conn result).trans (.drain _)
    · exact .retrieved conn result

/-- Draining moves bytes from the buffer to the kernel; the stream stays the same. -/
theorem handleWrite_stream (conn : TcpConnection α) (result : IoResult) :
    (conn.handleWrite result).stream = conn.stream := by
  rcases conn.handleWrite_cases result with ⟨_, same⟩ | ⟨_, same, none⟩ | ⟨_, _, same⟩ <;> rw [same]
  · simp [stream, SystemCall.accepted, none]
  · split
    · rw [drain_stream, retrieved_stream]
    · exact retrieved_stream conn result

theorem Interest.handleWrite {conn : TcpConnection α} (interest : conn.Interest) (result : IoResult) :
    (conn.handleWrite result).Interest := by
  rcases conn.handleWrite_cases result with ⟨_, same⟩ | ⟨_, same, _⟩ | ⟨writing, _, same⟩ <;> rw [same]
  · exact interest
  · exact interest
  · split
    next empty => simp [Interest, empty]
    next rest => exact ⟨fun _ => rest, fun _ => writing⟩

end TcpConnection
end Webserver
