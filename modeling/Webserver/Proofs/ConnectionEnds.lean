import Webserver.Process
import Webserver.Proofs.ConnectionEffects

/-! The methods that open and close a connection, and those that may do either
that or only deliver something. -/

namespace Webserver
open Library

universe u
variable {α : Type u}

def Functor.isSendFile : Functor → Bool
  | .sendFileInLoop .. => true
  | _ => false

namespace TcpConnection

/-- What closing a connection does, with the announcements that it makes. -/
structure Ended (news : List Callback) (before after : TcpConnection α) : Prop where
  state_ : after.state_ = .kDisconnected
  interest : after.channel_.events_ = Channel.kNoneEvent
  announced : after.announced = before.announced ++ news
  calls : after.calls = before.calls
  outputBuffer_ : after.outputBuffer_ = before.outputBuffer_
  functors : after.loop_.functors = before.loop_.functors
  calling : after.loop_.callingPendingFunctors_ = before.loop_.callingPendingFunctors_
  tracked : before.loop_.poller_.Tracks before.channel_ → after.loop_.poller_.Tracks after.channel_
  work : after.work = before.work

theorem Ended.handleClose (conn : TcpConnection α) : Ended [.connection false, .close] conn conn.handleClose where
  state_ := rfl
  interest := update_events _ _
  announced := by
    have made : conn.handleClose.callbacks = conn.callbacks ++ [.connection false, .close] := by
      simp [TcpConnection.handleClose, invoke, disableAll, update, connected, setState]
    rw [TcpConnection.announced, made, List.filter_append]
    rfl
  calls := rfl
  outputBuffer_ := rfl
  functors := rfl
  calling := rfl
  tracked := fun tracks => tracks.updateChannel _
  work := rfl

theorem Ended.leaveConnected (conn : TcpConnection α) : Ended [.connection false] conn conn.leaveConnected.remove where
  state_ := rfl
  interest := update_events _ _
  announced := by
    have made : conn.leaveConnected.remove.callbacks = conn.callbacks ++ [.connection false] := rfl
    rw [TcpConnection.announced, made, List.filter_append]
    rfl
  calls := rfl
  outputBuffer_ := rfl
  functors := rfl
  calling := rfl
  tracked := fun tracks => (tracks.updateChannel _).removeChannel
  work := rfl

theorem Frame.remove (conn : TcpConnection α) : Frame [] conn conn.remove := by
  constructor
  case tracked =>
    intro tracks
    exact tracks.removeChannel
  case work => simp [TcpConnection.work, TcpConnection.remove, EventLoop.waiting]
  all_goals rfl

theorem Frame.invoke (conn : TcpConnection α) (callback : Callback) (other : callback.isLifecycle = false) :
    Frame [] conn (conn.invoke callback) := by
  constructor
  case announced => simp [TcpConnection.announced, TcpConnection.invoke, other]
  case work => simp [TcpConnection.work, TcpConnection.invoke]
  case tracked =>
    intro tracks
    exact tracks
  all_goals rfl

theorem Frame.queueFromThread (conn : TcpConnection α) (functor : Functor) :
    Frame ([functor].filter fun functor => !functor.isNotification) conn (conn.queueFromThread functor) := by
  constructor <;> simp [TcpConnection.queueFromThread, TcpConnection.work, TcpConnection.announced]

structure Queues (queued : List Functor) (before after : TcpConnection α) : Prop extends Frame queued before after where
  waiting : after.loop_.waiting = before.loop_.waiting ++ queued
  channel_ : after.channel_ = before.channel_
  outputBuffer_ : after.outputBuffer_ = before.outputBuffer_
  calls : after.calls = before.calls

theorem Queues.refl (conn : TcpConnection α) : Queues [] conn conn :=
  ⟨.refl conn, by simp, rfl, rfl, rfl⟩

theorem Queues.queueFromThread (conn : TcpConnection α) (functor : Functor) (acts : functor.isNotification = false) :
    Queues [functor] conn (conn.queueFromThread functor) := by
  refine ⟨?_, EventLoop.queueInLoop_waiting _ _ _, rfl, rfl, rfl⟩
  simpa [acts] using Frame.queueFromThread conn functor

theorem Queues.queueInLoop (conn : TcpConnection α) (functor : Functor) (acts : functor.isNotification = false) :
    Queues [functor] conn (conn.queueInLoop functor) := by
  refine ⟨?_, EventLoop.queueInLoop_waiting _ _ _, rfl, rfl, rfl⟩
  simpa [acts] using Frame.queueInLoop conn functor

structure Began (before after : TcpConnection α) : Prop where
  state_ : after.state_ = .kConnected
  reading : after.channel_.isReading = true
  announced : after.announced = before.announced ++ [.connection true]
  tracked : before.loop_.poller_.Tracks before.channel_ → after.loop_.poller_.Tracks after.channel_
  work : after.work = before.work

theorem Began.connectEstablished (conn : TcpConnection α) : Began conn conn.connectEstablished where
  state_ := rfl
  reading := Channel.isReading_enableReading _ _ (update_events _ _)
  announced := by
    have made : conn.connectEstablished.callbacks = conn.callbacks ++ [.connection true] := rfl
    rw [TcpConnection.announced, made, List.filter_append]
    rfl
  tracked := fun tracks =>
    @EPollPoller.Tracks.updateChannel conn.loop_.poller_ { conn.channel_ with tied_ := true } tracks _
  work := rfl

/-- Whatever its result, a `sendFileInLoop` queues nothing but itself. -/
theorem sendFileInLoop_frame (conn : TcpConnection α) (fileDescriptor offset count : Nat) (result : IoResult) :
    ∃ queued, Frame queued conn (conn.sendFileInLoop fileDescriptor offset count result) ∧
      ∀ functor ∈ queued, functor.isSendFile = true := by
  have queue (other : TcpConnection α) (start remaining : Nat) :
      ∃ queued, Frame queued other (other.queueRemaining fileDescriptor start remaining) ∧
        ∀ functor ∈ queued, functor.isSendFile = true := by
    refine ⟨_, Frame.queueRemaining other fileDescriptor start remaining, ?_⟩
    split
    · simp [Functor.isSendFile]
    · simp
  have sent := Frame.systemCall conn (.sendfile (conn.range fileDescriptor offset count) result)
  unfold TcpConnection.sendFileInLoop
  split
  · exact ⟨[], .refl conn, by simp⟩
  · split
    · cases result with
      | count bytesSent =>
        obtain ⟨queued, frame, all⟩ := queue ((conn.systemCall _).queueWriteComplete (count - bytesSent))
          (offset + bytesSent) (count - bytesSent)
        exact ⟨queued, sent.trans ((Frame.queueWriteComplete _ _).trans frame), all⟩
      | error errno =>
        simp only
        split
        · exact ⟨[], sent, by simp⟩
        · obtain ⟨queued, frame, all⟩ := queue (conn.systemCall _) offset count
          exact ⟨queued, sent.trans frame, all⟩
    · exact queue conn offset count

abbrev popped (conn : TcpConnection α) (rest : List Functor) : TcpConnection α :=
  { conn with loop_ := { conn.loop_ with functors := rest } }

theorem work_pop (conn : TcpConnection α) (functor : Functor) (rest : List Functor)
    (queue : conn.loop_.functors = functor :: rest) :
    conn.work = (if functor.isNotification then [] else [functor]) ++ (conn.popped rest).work := by
  simp only [TcpConnection.work, EventLoop.waiting, queue, List.cons_append, List.filter_cons]
  cases functor.isNotification <;> rfl

theorem work_swap (conn : TcpConnection α) (none : conn.loop_.functors = []) :
    TcpConnection.work { conn with loop_ := conn.loop_.swapFunctors } = conn.work := by
  simp [TcpConnection.work, EventLoop.waiting, EventLoop.swapFunctors, none]

theorem execute_notification [OfNat α 0] (conn : TcpConnection α) (functor : Functor) (result : IoResult)
    (notification : functor.isNotification = true) :
    ∃ callback, conn.execute functor result = conn.invoke callback ∧ callback.isLifecycle = false := by
  cases functor with
  | writeCompleteCallback => exact ⟨.writeComplete, rfl, rfl⟩
  | highWaterMarkCallback size => exact ⟨.highWaterMark size, rfl, rfl⟩
  | _ => cases notification

theorem execute_frame [OfNat α 0] (conn : TcpConnection α) (functor : Functor) (result : IoResult)
    (opens : functor ≠ .connectEstablished) (closes : functor ≠ .connectDestroyed) :
    ∃ queued, Frame queued conn (conn.execute functor result) ∧ .connectEstablished ∉ queued := by
  cases functor with
  | connectEstablished => exact absurd rfl opens
  | connectDestroyed => exact absurd rfl closes
  | sendInLoop data len => exact ⟨[], .sendInLoop conn _ result, List.not_mem_nil⟩
  | sendFileInLoop fileDescriptor offset count =>
    obtain ⟨queued, frame, all⟩ := conn.sendFileInLoop_frame fileDescriptor offset count result
    exact ⟨queued, frame, fun member => by cases all _ member⟩
  | shutdownInLoop => exact ⟨[], .shutdownInLoop conn, List.not_mem_nil⟩
  | writeCompleteCallback => exact ⟨[], .invoke conn _ rfl, List.not_mem_nil⟩
  | highWaterMarkCallback size => exact ⟨[], .invoke conn _ rfl, List.not_mem_nil⟩

section Reading
variable [OfNat α 0]

def filled (conn : TcpConnection α) (received : Option (List α)) : TcpConnection α :=
  { conn with inputBuffer_ := (conn.inputBuffer_.readFd received).2 }

theorem Frame.filled (conn : TcpConnection α) (received : Option (List α)) : Frame [] conn (conn.filled received) := by
  constructor
  case work => simp [TcpConnection.work, TcpConnection.filled]
  case tracked =>
    intro tracks
    exact tracks
  all_goals rfl

theorem handleRead_closes (conn : TcpConnection α) (received : Option (List α))
    (closes : Process.readCloses received = true) : conn.handleRead received = (conn.filled received).handleClose := by
  cases received with
  | none => cases closes
  | some bytes =>
    cases bytes with
    | nil => simp [handleRead, filled, Buffer.readFd]
    | cons byte bytes => cases closes

theorem handleRead_delivers (conn : TcpConnection α) (received : Option (List α))
    (delivers : Process.readCloses received = false) :
    conn.handleRead received = conn.filled received ∨ conn.handleRead received = (conn.filled received).invoke .message := by
  cases received with
  | none => exact .inl rfl
  | some bytes =>
    cases bytes with
    | nil => cases delivers
    | cons byte bytes =>
      right
      have count : (conn.inputBuffer_.readFd (some (byte :: bytes))).1 = some (bytes.length + 1) := by
        unfold Buffer.readFd
        simp only
        split <;> rfl
      simp only [handleRead, filled, count]

end Reading
end TcpConnection
end Webserver
