import Webserver.Library.Feed
import Webserver.LoopThread
import Webserver.Proofs.ConnectionEnds

/-! What one step of the loop thread does to the output stream and to the queued
transfers, and that it is a step of a stream fed by whole blocks and by transfers:
a `send` is a block, a `sendFile` a transfer whose rest waits in the functor queue. -/

namespace Webserver
open Library

universe u
variable {α : Type u}

namespace LoopThread

inductive Move [OfNat α 0] (conn : TcpConnection α) : LoopCall α → TcpConnection α → Prop where
  | refuses (call : LoopCall α) (given : accepts call conn = none) (plain : ∀ result, call ≠ .runFunctor result) :
      Move conn call conn
  | sends (buf : List α) (result : IoResult) (connected : conn.state_ = .kConnected) :
      Move conn (.send buf result) (conn.sendInLoop buf result)
  | sendsFile (fileDescriptor offset count : Nat) (result : IoResult) (connected : conn.state_ = .kConnected)
      (fits : result.fits (conn.range fileDescriptor offset count).length = true) :
      Move conn (.sendFile fileDescriptor offset count result) (conn.sendFileInLoop fileDescriptor offset count result)
  | shuts (connected : conn.state_ = .kConnected) :
      Move conn .shutdown (conn.setState .kDisconnecting).shutdownInLoop
  | writes (result : IoResult) : Move conn (.handleWrite result) (conn.handleWrite result)
  | swapFunctors (between : conn.loop_.callingPendingFunctors_ = false) :
      Move conn .swapFunctors { conn with loop_ := conn.loop_.swapFunctors }
  | runs (result : IoResult) (functor : Functor) (rest : List Functor) (queue : conn.loop_.functors = functor :: rest)
      (fits : result.fits ((conn.popped rest).request functor) = true) :
      Move conn (.runFunctor result) ((conn.popped rest).execute functor result)
  | endFunctors (finished : conn.loop_.functors = []) :
      Move conn .endFunctors { conn with loop_ := conn.loop_.endFunctors }

theorem step_cases [OfNat α 0] {call : LoopCall α} {conn after : TcpConnection α} (stepped : step call conn = some after) :
    Move conn call after := by
  cases call with
  | send buf result =>
    simp only [step, TcpConnection.send] at stepped
    split at stepped <;> cases stepped
    split
    next connected => exact .sends buf result connected
    next refused => exact .refuses _ (by simp [accepts, TcpConnection.connected, refused]) (by simp)
  | sendFile fileDescriptor offset count result =>
    simp only [step, TcpConnection.sendFile] at stepped
    split at stepped <;> cases stepped
    next fits =>
      split
      next connected =>
        exact .sendsFile fileDescriptor offset count result (by simpa [TcpConnection.connected] using connected) fits
      next refused => exact .refuses _ (by simp [accepts, refused]) (by simp)
  | shutdown =>
    cases stepped
    unfold TcpConnection.shutdown
    split
    next connected => exact .shuts connected
    next refused => exact .refuses _ rfl (by simp)
  | handleWrite result =>
    simp only [step] at stepped
    split at stepped <;> cases stepped
    exact .writes result
  | swapFunctors =>
    simp only [step] at stepped
    split at stepped <;> cases stepped
    next between => exact .swapFunctors (by simpa using between)
  | runFunctor result =>
    simp only [step] at stepped
    split at stepped
    next none => cases stepped
    next functor rest queue =>
      split at stepped <;> cases stepped
      next fits => exact .runs result functor rest queue fits
  | endFunctors =>
    simp only [step] at stepped
    split at stepped <;> cases stepped
    next enabled =>
      simp only [Bool.and_eq_true, List.isEmpty_iff] at enabled
      exact .endFunctors enabled.2

def tail (files : Nat → List α) : Functor → List α
  | .sendFileInLoop fileDescriptor offset count => ((files fileDescriptor).drop offset).take count
  | _ => []

def feed (conn : TcpConnection α) : Feed α := ⟨conn.stream, conn.work.map (tail conn.files)⟩

/-- A queued functor that does something is a transfer inside its file. -/
def Backed (files : Nat → List α) : Functor → Prop
  | .sendFileInLoop fileDescriptor offset count => offset + count ≤ (files fileDescriptor).length
  | _ => False

/-- Only transfers wait in the queue, and none of them while the connection is
being shut down: there `sendFileInLoop` would give it up. -/
structure Orderly (conn : TcpConnection α) : Prop where
  batch : conn.loop_.callingPendingFunctors_ = false → conn.loop_.functors = []
  backed : ∀ functor ∈ conn.work, Backed conn.files functor
  graceful : conn.state_ = .kDisconnecting → conn.work = []

/-- No fatal socket error, files as long as is asked, no shutdown over a transfer. -/
structure Allowed (call : LoopCall α) (conn : TcpConnection α) : Prop where
  healthy : call.isFault = false
  enough : ∀ fileDescriptor offset count result, call = .sendFile fileDescriptor offset count result →
    offset + count ≤ (conn.files fileDescriptor).length
  graceful : call = .shutdown → conn.work = []

theorem Orderly.frame {queued : List Functor} {before after : TcpConnection α} (orderly : Orderly before)
    (frame : TcpConnection.Frame queued before after) (backed : ∀ functor ∈ queued, Backed before.files functor)
    (graceful : before.state_ = .kDisconnecting → queued = []) : Orderly after := by
  constructor
  · intro finished
    rw [frame.functors]
    exact orderly.batch (frame.calling ▸ finished)
  · intro functor member
    rw [frame.work, List.mem_append] at member
    rw [frame.files]
    exact member.elim (orderly.backed functor) (backed functor)
  · intro disconnecting
    rw [frame.state_] at disconnecting
    rw [frame.work, orderly.graceful disconnecting, graceful disconnecting, List.append_nil]

/-- A transfer splits its range: what it sends now, and what it leaves in the queue. -/
theorem requeued_tail (conn : TcpConnection α) (fileDescriptor offset count : Nat) (result : IoResult)
    (enough : offset + count ≤ (conn.files fileDescriptor).length)
    (fits : result.fits (conn.range fileDescriptor offset count).length = true) :
    (∀ functor ∈ conn.requeued fileDescriptor offset count result, Backed conn.files functor) ∧
    (conn.requeued fileDescriptor offset count result = [] ∧
      (conn.range fileDescriptor offset count).take (conn.sentNow result) = conn.range fileDescriptor offset count ∨
    ∃ rest, rest ≠ [] ∧ (conn.requeued fileDescriptor offset count result).map (tail conn.files) = [rest] ∧
      (conn.range fileDescriptor offset count).take (conn.sentNow result) ++ rest = conn.range fileDescriptor offset count) := by
  have length : (conn.range fileDescriptor offset count).length = count := by
    simp only [TcpConnection.range, List.length_take, List.length_drop]
    omega
  have sent : conn.sentNow result ≤ count := by
    unfold TcpConnection.sentNow
    split
    · cases result with
      | count n => simpa [IoResult.fits, IoResult.transferred, length] using fits
      | error errno => exact Nat.zero_le _
    · exact Nat.zero_le _
  unfold TcpConnection.requeued
  split
  next unfinished =>
    refine ⟨?_, .inr ⟨_, ?_, rfl, ?_⟩⟩
    · intro functor member
      rw [List.mem_singleton.mp member]
      simp only [Backed]
      omega
    · simp only [tail, ne_eq, ← List.length_eq_zero_iff, List.length_take, List.length_drop]
      omega
    · have rest : tail conn.files (.sendFileInLoop fileDescriptor (offset + conn.sentNow result) (count - conn.sentNow result)) =
          (conn.range fileDescriptor offset count).drop (conn.sentNow result) := by
        rw [tail, TcpConnection.range, List.drop_take, List.drop_drop]
      rw [rest, List.take_append_drop]
  next finished =>
    refine ⟨by simp, .inl ⟨rfl, List.take_of_length_le ?_⟩⟩
    omega

structure Transfer (fileDescriptor offset count : Nat) (result : IoResult) (others : List Functor)
    (conn after : TcpConnection α) : Prop where
  enough : offset + count ≤ (conn.files fileDescriptor).length
  fits : result.fits (conn.range fileDescriptor offset count).length = true
  stream : after.stream = conn.stream ++ (conn.range fileDescriptor offset count).take (conn.sentNow result)
  work : after.work = others ++ conn.requeued fileDescriptor offset count result

inductive Effect (call : LoopCall α) (conn after : TcpConnection α) : Prop where
  | quiet (given : accepts call conn = none) (other : ∀ result, call ≠ .runFunctor result)
      (stream : after.stream = conn.stream) (work : after.work = conn.work)
  | inform (functor : Functor) (rest : List Functor) (result : IoResult) (called : call = .runFunctor result)
      (queue : conn.loop_.functors = functor :: rest) (informs : functor.isNotification = true)
      (stream : after.stream = conn.stream) (work : after.work = conn.work)
  | block (data : List α) (result : IoResult) (called : call = .send data result) (connected : conn.connected = true)
      (stream : after.stream = conn.stream ++ data) (work : after.work = conn.work)
  | start (fileDescriptor offset count : Nat) (result : IoResult)
      (called : call = .sendFile fileDescriptor offset count result) (connected : conn.connected = true)
      (transfer : Transfer fileDescriptor offset count result conn.work conn after)
  | resume (fileDescriptor offset count : Nat) (result : IoResult) (others rest : List Functor)
      (called : call = .runFunctor result)
      (queue : conn.loop_.functors = .sendFileInLoop fileDescriptor offset count :: rest)
      (work : conn.work = .sendFileInLoop fileDescriptor offset count :: others)
      (transfer : Transfer fileDescriptor offset count result others conn after)

private theorem sendFileInLoop_transfer (conn : TcpConnection α) (fileDescriptor offset count : Nat) (result : IoResult)
    (orderly : Orderly conn) (still : conn.state_ ≠ .kDisconnecting) (healthy : result.isFault = false)
    (enough : offset + count ≤ (conn.files fileDescriptor).length)
    (fits : result.fits (conn.range fileDescriptor offset count).length = true) :
    Orderly (conn.sendFileInLoop fileDescriptor offset count result) ∧
    Transfer fileDescriptor offset count result conn.work conn (conn.sendFileInLoop fileDescriptor offset count result) := by
  have frame := TcpConnection.Frame.sendFileInLoop conn fileDescriptor offset count result still healthy
  have backed := (requeued_tail conn fileDescriptor offset count result enough fits).1
  exact ⟨orderly.frame frame backed (fun disconnecting => absurd disconnecting still),
    enough, fits, TcpConnection.sendFileInLoop_stream _ _ _ _ _ still, frame.work⟩

theorem Orderly.first {conn : TcpConnection α} (orderly : Orderly conn) {functor : Functor} {rest : List Functor}
    (queue : conn.loop_.functors = functor :: rest) :
    functor.isNotification = true ∧ (conn.popped rest).work = conn.work ∨
    ∃ fileDescriptor offset count, functor = .sendFileInLoop fileDescriptor offset count ∧
      conn.work = .sendFileInLoop fileDescriptor offset count :: (conn.popped rest).work ∧
      offset + count ≤ (conn.files fileDescriptor).length ∧ conn.state_ ≠ .kDisconnecting := by
  have work := conn.work_pop functor rest queue
  cases informs : functor.isNotification with
  | true =>
    simp only [informs, if_true, List.nil_append] at work
    exact .inl ⟨rfl, work.symm⟩
  | false =>
    simp only [informs, Bool.false_eq_true, if_false, List.singleton_append] at work
    have backed := orderly.backed functor (by simp [work])
    cases functor with
    | sendFileInLoop fileDescriptor offset count =>
      refine .inr ⟨_, _, _, rfl, work, backed, ?_⟩
      intro disconnecting
      rw [orderly.graceful disconnecting] at work
      cases work
    | _ => cases backed

theorem Orderly.popped {conn : TcpConnection α} (orderly : Orderly conn) {functor : Functor} {rest : List Functor}
    (queue : conn.loop_.functors = functor :: rest) : Orderly (conn.popped rest) := by
  have work := conn.work_pop functor rest queue
  refine ⟨?_, fun other member => orderly.backed other ?_, ?_⟩
  · intro finished
    exact absurd (orderly.batch finished) (by simp [queue])
  · rw [work]
    exact List.mem_append_right _ member
  · intro disconnecting
    have none := orderly.graceful disconnecting
    rw [work] at none
    exact (List.append_eq_nil_iff.mp none).2

/-- A functor leaves the queue: a notification changes nothing, a transfer resumes. -/
private theorem execute_effect [OfNat α 0] {conn : TcpConnection α} {result : IoResult} {functor : Functor}
    {rest : List Functor} (orderly : Orderly conn) (healthy : result.isFault = false)
    (queue : conn.loop_.functors = functor :: rest)
    (fits : result.fits ((conn.popped rest).request functor) = true) :
    Orderly ((conn.popped rest).execute functor result) ∧
      ((conn.popped rest).execute functor result).files = conn.files ∧
      Effect (.runFunctor result) conn ((conn.popped rest).execute functor result) := by
  have remaining := orderly.popped queue
  rcases orderly.first queue with ⟨informs, work⟩ | ⟨fileDescriptor, offset, count, rfl, work, enough, still⟩
  · obtain ⟨callback, same, _⟩ := (conn.popped rest).execute_notification functor result informs
    rw [same]
    exact ⟨⟨remaining.batch, remaining.backed, remaining.graceful⟩, rfl,
      .inform functor rest result rfl queue informs rfl work⟩
  · obtain ⟨kept, transfer⟩ :=
      sendFileInLoop_transfer (conn.popped rest) fileDescriptor offset count result remaining still healthy enough fits
    have frame := TcpConnection.Frame.sendFileInLoop (conn.popped rest) fileDescriptor offset count result still healthy
    exact ⟨kept, frame.files, .resume _ _ _ _ _ rest rfl queue work
      ⟨transfer.enough, transfer.fits, transfer.stream, transfer.work⟩⟩

theorem step_effect [OfNat α 0] (call : LoopCall α) (conn after : TcpConnection α) (orderly : Orderly conn)
    (allowed : Allowed call conn) (stepped : step call conn = some after) :
    Orderly after ∧ after.files = conn.files ∧ Effect call conn after := by
  cases step_cases stepped with
  | refuses _ given plain => exact ⟨orderly, rfl, .quiet given plain rfl rfl⟩
  | sends buf result connected =>
    have frame := TcpConnection.Frame.sendInLoop conn buf result
    exact ⟨orderly.frame frame (by simp) (fun _ => rfl), frame.files,
      .block buf result rfl (by simp [TcpConnection.connected, connected])
        (conn.sendInLoop_stream buf result allowed.healthy) (by simpa using frame.work)⟩
  | sendsFile fileDescriptor offset count result connected fits =>
    have still : conn.state_ ≠ .kDisconnecting := by simp [connected]
    obtain ⟨kept, transfer⟩ := sendFileInLoop_transfer conn fileDescriptor offset count result orderly
      still allowed.healthy (allowed.enough _ _ _ _ rfl) fits
    have frame := TcpConnection.Frame.sendFileInLoop conn fileDescriptor offset count result still allowed.healthy
    exact ⟨kept, frame.files, .start _ _ _ _ rfl (by simp [TcpConnection.connected, connected]) transfer⟩
  | shuts connected =>
    have none := allowed.graceful rfl
    have set : Orderly (conn.setState .kDisconnecting) := ⟨orderly.batch, orderly.backed, fun _ => none⟩
    have frame := TcpConnection.Frame.shutdownInLoop (conn.setState .kDisconnecting)
    exact ⟨set.frame frame (by simp) (fun _ => rfl), frame.files,
      .quiet rfl (by simp) (TcpConnection.shutdownInLoop_stream _) (by rw [frame.work, List.append_nil]; rfl)⟩
  | writes result =>
    have frame := TcpConnection.Frame.handleWrite conn result
    exact ⟨orderly.frame frame (by simp) (fun _ => rfl), frame.files,
      .quiet rfl (by simp) (conn.handleWrite_stream result) (by simpa using frame.work)⟩
  | swapFunctors between =>
    have same := conn.work_swap (orderly.batch between)
    exact ⟨⟨by simp [EventLoop.swapFunctors], by rw [same]; exact orderly.backed,
      by rw [same]; exact orderly.graceful⟩, rfl, .quiet rfl (by simp) rfl same⟩
  | runs result functor rest queue fits => exact execute_effect orderly allowed.healthy queue fits
  | endFunctors finished =>
    exact ⟨⟨fun _ => finished, orderly.backed, orderly.graceful⟩, rfl, .quiet rfl (by simp) rfl rfl⟩

theorem Transfer.splits {fileDescriptor offset count : Nat} {result : IoResult} {others : List Functor}
    {conn after : TcpConnection α} (transfer : Transfer fileDescriptor offset count result others conn after)
    (files : after.files = conn.files) :
    ∃ sent rest, conn.range fileDescriptor offset count = sent ++ rest.flatten ∧
      (rest = [] ∨ ∃ last, last ≠ [] ∧ rest = [last]) ∧
      feed after = ⟨conn.stream ++ sent, others.map (tail conn.files) ++ rest⟩ := by
  refine ⟨(conn.range fileDescriptor offset count).take (conn.sentNow result),
    (conn.requeued fileDescriptor offset count result).map (tail conn.files), ?_, ?_, ?_⟩
  · rcases (requeued_tail conn fileDescriptor offset count result transfer.enough transfer.fits).2 with
      ⟨finished, whole⟩ | ⟨last, _, same, whole⟩
    · simp [finished, whole]
    · simp [same, whole]
  · rcases (requeued_tail conn fileDescriptor offset count result transfer.enough transfer.fits).2 with
      ⟨finished, _⟩ | ⟨last, unfinished, same, _⟩
    · exact .inl (by simp [finished])
    · exact .inr ⟨last, unfinished, same⟩
  · simp only [feed, transfer.stream, transfer.work, files, List.map_append]

/-- Every effect is a step of the feed, and submits what it accepts. -/
theorem Effect.feeds {call : LoopCall α} {conn after : TcpConnection α} (files : after.files = conn.files)
    (effect : Effect call conn after) : Feed.Step (feed conn) ((accepts call conn).getD []) (feed after) := by
  cases effect with
  | quiet given other stream work =>
    rw [show feed after = feed conn by simp only [feed, stream, work, files], given]
    exact .idle
  | inform functor rest result called queue informs stream work =>
    subst called
    rw [show feed after = feed conn by simp only [feed, stream, work, files]]
    exact .idle
  | block data result called connected stream work =>
    subst called
    rw [show feed after = ⟨(feed conn).delivered ++ data, (feed conn).queued⟩ by simp only [feed, stream, work, files]]
    simpa only [accepts, connected, if_true, Option.getD_some] using .direct data
  | start fileDescriptor offset count result called connected transfer =>
    subst called
    obtain ⟨sent, rest, range, shape, fed⟩ := transfer.splits files
    simp only [accepts, connected, if_true, Option.getD_some, range, fed]
    rcases shape with rfl | ⟨last, unfinished, rfl⟩
    · simpa using! @Feed.Step.direct _ (feed conn) sent
    · simpa using! @Feed.Step.start _ (feed conn) sent last unfinished
  | resume fileDescriptor offset count result others rest called queue work transfer =>
    subst called
    obtain ⟨sent, rest, range, shape, fed⟩ := transfer.splits files
    have before : feed conn = ⟨conn.stream, (sent ++ rest.flatten) :: others.map (tail conn.files)⟩ := by
      rw [← range, feed, work]
      rfl
    rw [before, fed]
    rcases shape with rfl | ⟨last, _, rfl⟩
    · simpa using! Feed.Step.finish conn.stream sent _
    · simpa using! Feed.Step.resume conn.stream sent last _

end LoopThread
end Webserver
