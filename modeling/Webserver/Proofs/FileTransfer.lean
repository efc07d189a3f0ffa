import Webserver.Proofs.LoopThreadFeed

/-! A file that goes out in as many rounds as the socket takes: a round that leaves
something queues the functor of the next one. -/

namespace Webserver
open Library

universe u
variable {α : Type u}

/-- The results of `sendfile` when the file has `left` bytes of those requested. -/
def IoResult.sends (left : Nat) : IoResult → Bool
  | .count n => if left = 0 then n == 0 else 1 ≤ n && n ≤ left
  | .error errno => errno == .EWOULDBLOCK

theorem IoResult.sends_healthy {left : Nat} {result : IoResult} (sends : result.sends left = true) :
    result.isFault = false := by
  cases result with
  | count n => rfl
  | error errno =>
    simp only [IoResult.sends, beq_iff_eq] at sends
    subst sends
    rfl

theorem IoResult.sends_transferred {left : Nat} {result : IoResult} (sends : result.sends left = true) :
    result.transferred ≤ left := by
  cases result with
  | error errno => exact Nat.zero_le _
  | count n =>
    simp only [IoResult.sends] at sends
    split at sends
    next none => simp_all [IoResult.transferred]
    next some =>
      simp only [Bool.and_eq_true, decide_eq_true_eq] at sends
      exact sends.2

/-- A round of `sendfile` that did not end with an error. -/
def SystemCall.isTransfer : SystemCall α → Bool
  | .sendfile _ (.count _) => true
  | _ => false

def TcpConnection.transfers (conn : TcpConnection α) : Nat := (conn.calls.filter SystemCall.isTransfer).length

def remainder (fileDescriptor offset count : Nat) (result : IoResult) : List Functor :=
  if count - result.transferred > 0 then
    [.sendFileInLoop fileDescriptor (offset + result.transferred) (count - result.transferred)]
  else []

namespace LoopThread

/-- Nothing else is sent, the connection is not shut, and `sendfile` returns what it may. -/
def undisturbed (call : LoopCall α) (conn : TcpConnection α) : Bool :=
  match call with
  | .swapFunctors | .endFunctors | .handleWrite _ => true
  | .runFunctor result =>
    match conn.loop_.functors with
    | .sendFileInLoop fileDescriptor offset count :: _ => result.sends (conn.range fileDescriptor offset count).length
    | _ => true
  | .send .. | .sendFile .. | .shutdown => false

def transferring [OfNat α 0] : Machine (TcpConnection α) (LoopCall α) where
  step call conn := if undisturbed call conn then step call conn else none

/-- A call of `sendFile`: on the loop's own thread it makes the first round, from
another thread it queues the functor. -/
inductive Begins (conn : TcpConnection α) (fileDescriptor offset count : Nat) : TcpConnection α → Prop where
  | inLoop (result : IoResult) (sends : result.sends (conn.range fileDescriptor offset count).length = true) :
      Begins conn fileDescriptor offset count (conn.sendFile fileDescriptor offset count result)
  | queued : Begins conn fileDescriptor offset count
      { conn with loop_ := conn.loop_.queueInLoop false (.sendFileInLoop fileDescriptor offset count) }

structure Resting (conn : TcpConnection α) : Prop where
  connected : conn.state_ = .kConnected
  idle : conn.idle = true
  batch : conn.loop_.callingPendingFunctors_ = false → conn.loop_.functors = []

/-- The rounds other than those of `EAGAIN` are so many at most; after as many the
chain has ended. At any time a first part of the range has been sent, and when the
chain has ended all of it. -/
def Completes [OfNat α 0] (conn : TcpConnection α) (fileDescriptor offset count : Nat) : Prop :=
  ∃ bound, ∀ start rounds final, Begins conn fileDescriptor offset count start →
    transferring.run rounds start = some final →
    final.transfers ≤ conn.transfers + bound ∧
    (final.transfers = conn.transfers + bound → final.work = []) ∧
    (∃ sent, final.accepted = conn.accepted ++ sent ∧ sent <+: conn.range fileDescriptor offset count) ∧
    (final.work = [] → final.accepted = conn.accepted ++ conn.range fileDescriptor offset count)

structure Round (conn after : TcpConnection α) (fileDescriptor offset count : Nat) (result : IoResult)
    (others : List Functor) : Prop where
  sends : result.sends (conn.range fileDescriptor offset count).length = true
  calls : after.calls = conn.calls ++ [.sendfile (conn.range fileDescriptor offset count) result]
  work : after.work = others ++ remainder fileDescriptor offset count result

theorem Round.accepted {conn after : TcpConnection α} {fileDescriptor offset count : Nat} {result : IoResult}
    {others : List Functor} (round : Round conn after fileDescriptor offset count result others) :
    after.accepted = conn.accepted ++ (conn.range fileDescriptor offset count).take result.transferred := by
  simp [TcpConnection.accepted, round.calls, SystemCall.accepted]

theorem Round.transfers {conn after : TcpConnection α} {fileDescriptor offset count : Nat} {result : IoResult}
    {others : List Functor} (round : Round conn after fileDescriptor offset count result others) :
    after.transfers = conn.transfers + (match result with | .count _ => 1 | .error _ => 0) := by
  cases result <;> simp [TcpConnection.transfers, round.calls, List.filter, SystemCall.isTransfer]

private theorem sendFileInLoop_idle (conn : TcpConnection α) (fileDescriptor offset count : Nat) (result : IoResult) :
    (conn.sendFileInLoop fileDescriptor offset count result).idle = conn.idle := by
  unfold TcpConnection.sendFileInLoop
  split
  · rfl
  · split
    · cases result with
      | count bytesSent => simp [TcpConnection.idle]
      | error errno =>
        simp only
        split <;> simp [TcpConnection.idle]
    · simp [TcpConnection.idle]

private theorem sendFileInLoop_round {conn : TcpConnection α} (resting : Resting conn) (fileDescriptor offset count : Nat)
    {result : IoResult} (sends : result.sends (conn.range fileDescriptor offset count).length = true) :
    Round conn (conn.sendFileInLoop fileDescriptor offset count result) fileDescriptor offset count result conn.work ∧
    Resting (conn.sendFileInLoop fileDescriptor offset count result) ∧
    (conn.sendFileInLoop fileDescriptor offset count result).files = conn.files := by
  have still : conn.state_ ≠ .kDisconnecting := by simp [resting.connected]
  have frame := TcpConnection.Frame.sendFileInLoop conn fileDescriptor offset count result still
    (IoResult.sends_healthy sends)
  have calls := conn.sendFileInLoop_calls fileDescriptor offset count result still
  have work := frame.work
  rw [if_pos resting.idle] at calls
  rw [TcpConnection.requeued, TcpConnection.sentNow, if_pos resting.idle] at work
  refine ⟨⟨sends, calls, work⟩, ⟨?_, ?_, ?_⟩, frame.files⟩
  · exact frame.state_.trans resting.connected
  · rw [sendFileInLoop_idle]
    exact resting.idle
  · rw [frame.calling, frame.functors]
    exact resting.batch

inductive Turn (conn after : TcpConnection α) : Prop where
  | quiet (calls : after.calls = conn.calls) (work : after.work = conn.work)
  | round (fileDescriptor offset count : Nat) (result : IoResult) (others : List Functor)
      (work : conn.work = .sendFileInLoop fileDescriptor offset count :: others)
      (sent : Round conn after fileDescriptor offset count result others)

theorem Resting.popped {conn : TcpConnection α} (resting : Resting conn) {functor : Functor} {rest : List Functor}
    (queue : conn.loop_.functors = functor :: rest) : Resting (conn.popped rest) where
  connected := resting.connected
  idle := resting.idle
  batch finished := absurd (resting.batch finished) (by simp [queue])

theorem transferring_cases [OfNat α 0] {call : LoopCall α} {conn after : TcpConnection α} (resting : Resting conn)
    (files : ∀ functor ∈ conn.work, ∃ fileDescriptor offset count, functor = .sendFileInLoop fileDescriptor offset count)
    (stepped : transferring.step call conn = some after) :
    Turn conn after ∧ Resting after ∧ after.files = conn.files := by
  simp only [transferring, Option.ite_none_right_eq_some] at stepped
  obtain ⟨quiet, stepped⟩ := stepped
  cases step_cases stepped with
  | refuses => exact ⟨.quiet rfl rfl, resting, rfl⟩
  | sends | sendsFile | shuts => cases quiet
  | writes result =>
    have silent : conn.channel_.isWriting = false := by
      have idle := resting.idle
      simp only [TcpConnection.idle, Bool.and_eq_true, Bool.not_eq_true'] at idle
      exact idle.1
    rw [TcpConnection.handleWrite, silent]
    exact ⟨.quiet rfl rfl, resting, rfl⟩
  | swapFunctors between =>
    refine ⟨.quiet rfl (conn.work_swap (resting.batch between)), ⟨resting.connected, resting.idle, ?_⟩, rfl⟩
    intro calling
    cases calling
  | endFunctors finished => exact ⟨.quiet rfl rfl, ⟨resting.connected, resting.idle, fun _ => finished⟩, rfl⟩
  | runs result functor rest queue =>
    have work := conn.work_pop functor rest queue
    cases informs : functor.isNotification with
    | true =>
      simp only [informs, if_true, List.nil_append] at work
      obtain ⟨callback, invoked, _⟩ := (conn.popped rest).execute_notification functor result informs
      rw [invoked]
      have popped := resting.popped queue
      exact ⟨.quiet rfl work.symm, ⟨popped.connected, popped.idle, popped.batch⟩, rfl⟩
    | false =>
      simp only [informs, Bool.false_eq_true, if_false, List.singleton_append] at work
      obtain ⟨fileDescriptor, offset, count, rfl⟩ := files functor (by simp [work])
      simp only [undisturbed, queue] at quiet
      obtain ⟨round, rested, same⟩ := sendFileInLoop_round (resting.popped queue) fileDescriptor offset count quiet
      exact ⟨.round fileDescriptor offset count result _ work ⟨round.sends, round.calls, round.work⟩, rested, same⟩

/-- The chain goes on from `sent` bytes, or it has ended with all of them. -/
inductive Progress (base : TcpConnection α) (fileDescriptor offset count : Nat) (conn : TcpConnection α) : Prop where
  | underway (sent : Nat) (work : conn.work = [.sendFileInLoop fileDescriptor (offset + sent) (count - sent)])
      (less : sent < max 1 count)
      (accepted : conn.accepted = base.accepted ++ (base.range fileDescriptor offset count).take sent)
      (transfers : conn.transfers ≤ base.transfers + sent)
  | ended (work : conn.work = []) (accepted : conn.accepted = base.accepted ++ base.range fileDescriptor offset count)
      (transfers : conn.transfers ≤ base.transfers + max 1 count)

structure Chain (base : TcpConnection α) (fileDescriptor offset count : Nat) (conn : TcpConnection α) : Prop where
  resting : Resting conn
  files : conn.files = base.files
  progress : Progress base fileDescriptor offset count conn

private theorem range_rest (base conn : TcpConnection α) (files : conn.files = base.files)
    (fileDescriptor offset count sent : Nat) :
    conn.range fileDescriptor (offset + sent) (count - sent) = (base.range fileDescriptor offset count).drop sent := by
  rw [TcpConnection.range, TcpConnection.range, files, List.drop_take, List.drop_drop]

/-- A round of the chain: a transfer takes it further by a byte at least, or ends it. -/
private theorem round_progress {base conn after : TcpConnection α} {fileDescriptor offset count sent : Nat} {result : IoResult}
    (enough : count ≤ (base.files fileDescriptor).length - offset) (files : conn.files = base.files)
    (less : sent < max 1 count) (transfers : conn.transfers ≤ base.transfers + sent)
    (accepted : conn.accepted = base.accepted ++ (base.range fileDescriptor offset count).take sent)
    (round : Round conn after fileDescriptor (offset + sent) (count - sent) result []) :
    Progress base fileDescriptor offset count after := by
  have total : (base.range fileDescriptor offset count).length = count := by
    simp only [TcpConnection.range, List.length_take, List.length_drop]
    omega
  have rest := range_rest base conn files fileDescriptor offset count sent
  have left : (conn.range fileDescriptor (offset + sent) (count - sent)).length = count - sent := by
    rw [rest, List.length_drop, total]
  have most := IoResult.sends_transferred round.sends
  have now := round.transfers
  have bytes := round.accepted
  have work := round.work
  rw [left] at most
  rw [rest, accepted, List.append_assoc, ← List.take_add] at bytes
  rw [remainder, List.nil_append, Nat.add_assoc, Nat.sub_sub] at work
  split at work
  next unfinished =>
    refine .underway _ work (by omega) bytes ?_
    have sends := round.sends
    cases result with
    | error errno => simp_all [IoResult.transferred]
    | count n =>
      simp only [IoResult.sends, left] at sends
      rw [if_neg (by omega)] at sends
      simp only [Bool.and_eq_true, decide_eq_true_eq] at sends
      simp only [IoResult.transferred] at now ⊢
      omega
  next finished =>
    rw [List.take_of_length_le (by omega)] at bytes
    refine .ended work bytes ?_
    cases result <;> simp only at now <;> omega

theorem Resting.queued {conn : TcpConnection α} (resting : Resting conn) (fileDescriptor offset count : Nat) :
    Resting { conn with loop_ := conn.loop_.queueInLoop false (.sendFileInLoop fileDescriptor offset count) } ∧
    TcpConnection.work { conn with loop_ := conn.loop_.queueInLoop false (.sendFileInLoop fileDescriptor offset count) } =
      conn.work ++ [.sendFileInLoop fileDescriptor offset count] := by
  refine ⟨⟨resting.connected, resting.idle, ?_⟩, ?_⟩
  · simpa using resting.batch
  · simp [TcpConnection.work, Functor.isNotification]

theorem Resting.begins {conn start : TcpConnection α} {fileDescriptor offset count : Nat} (resting : Resting conn)
    (unused : conn.work = []) (enough : count ≤ (conn.files fileDescriptor).length - offset)
    (begins : Begins conn fileDescriptor offset count start) : Chain conn fileDescriptor offset count start := by
  cases begins with
  | inLoop result sends =>
    have connected : conn.connected = true := by simp [TcpConnection.connected, resting.connected]
    rw [TcpConnection.sendFile, if_pos connected]
    obtain ⟨round, rested, files⟩ := sendFileInLoop_round resting fileDescriptor offset count sends
    rw [unused] at round
    have progress := @round_progress _ conn conn _ fileDescriptor offset count 0 result enough rfl (by omega)
      (Nat.le_refl _) (by simp) round
    exact ⟨rested, files, progress⟩
  | queued =>
    obtain ⟨rested, work⟩ := resting.queued fileDescriptor offset count
    rw [unused] at work
    exact ⟨rested, rfl, .underway 0 work (by omega) (by simp [TcpConnection.accepted]) (Nat.le_refl _)⟩

theorem Chain.step [OfNat α 0] {base conn after : TcpConnection α} {fileDescriptor offset count : Nat} {call : LoopCall α}
    (enough : count ≤ (base.files fileDescriptor).length - offset) (chain : Chain base fileDescriptor offset count conn)
    (stepped : transferring.step call conn = some after) : Chain base fileDescriptor offset count after := by
  have only : ∀ functor ∈ conn.work, ∃ fileDescriptor offset count, functor = .sendFileInLoop fileDescriptor offset count := by
    intro functor member
    cases chain.progress with
    | underway sent work =>
      rw [work, List.mem_singleton] at member
      exact ⟨_, _, _, member⟩
    | ended work =>
      rw [work] at member
      cases member
  obtain ⟨turn, rested, files⟩ := transferring_cases chain.resting only stepped
  refine ⟨rested, files.trans chain.files, ?_⟩
  cases turn with
  | quiet calls work =>
    have accepted : after.accepted = conn.accepted := by rw [TcpConnection.accepted, calls, TcpConnection.accepted]
    have transfers : after.transfers = conn.transfers := by rw [TcpConnection.transfers, calls, TcpConnection.transfers]
    cases chain.progress with
    | underway sent waiting less bytes made =>
      exact .underway sent (work.trans waiting) less (accepted.trans bytes) (transfers ▸ made)
    | ended none bytes made => exact .ended (work.trans none) (accepted.trans bytes) (transfers ▸ made)
  | round otherFile otherOffset otherCount result others work round =>
    cases chain.progress with
    | underway sent waiting less bytes made =>
      rw [waiting] at work
      cases work
      exact round_progress enough chain.files less made bytes round
    | ended none =>
      rw [none] at work
      cases work

private theorem completes_of_enough [OfNat α 0] {conn : TcpConnection α} {fileDescriptor offset count : Nat}
    (resting : Resting conn) (unused : conn.work = []) (enough : count ≤ (conn.files fileDescriptor).length - offset) :
    Completes conn fileDescriptor offset count := by
  refine ⟨max 1 count, fun start rounds final begins reached => ?_⟩
  have chain : Chain conn fileDescriptor offset count final :=
    Machine.run_preserves (fun _ _ _ kept stepped => Chain.step enough kept stepped) reached
      (resting.begins unused enough begins)
  cases chain.progress with
  | underway sent work less accepted transfers =>
    refine ⟨by omega, fun most => absurd most (by omega), ⟨_, accepted, List.take_prefix _ _⟩, fun none => ?_⟩
    rw [none] at work
    cases work
  | ended work accepted transfers =>
    exact ⟨transfers, fun _ => work, ⟨_, accepted, List.prefix_refl _⟩, fun _ => accepted⟩

structure Paused (before after : TcpConnection α) : Prop where
  resting : Resting after
  files : after.files = before.files
  calls : after.calls = before.calls
  work : after.work = before.work
  pending : after.loop_.pendingFunctors_ = before.loop_.pendingFunctors_

section Endless
variable [OfNat α 0]

private theorem notifications_run {conn : TcpConnection α} (resting : Resting conn) :
    ∃ calls after, transferring.run calls conn = some after ∧ Paused conn after ∧
      ∀ functor rest, after.loop_.functors = functor :: rest → functor.isNotification = false := by
  generalize queue : conn.loop_.functors = functors
  induction functors generalizing conn with
  | nil =>
    refine ⟨[], conn, rfl, ⟨resting, rfl, rfl, rfl, rfl⟩, fun functor rest more => ?_⟩
    rw [queue] at more
    cases more
  | cons functor rest ih =>
    cases informs : functor.isNotification with
    | false =>
      refine ⟨[], conn, rfl, ⟨resting, rfl, rfl, rfl, rfl⟩, fun other more next => ?_⟩
      rw [queue] at next
      cases next
      exact informs
    | true =>
      obtain ⟨callback, invoked, _⟩ := (conn.popped rest).execute_notification functor (.count 0) informs
      have popped := resting.popped queue
      have work := conn.work_pop functor rest queue
      simp only [informs, if_true, List.nil_append] at work
      have stepped : transferring.step (.runFunctor (.count 0)) conn = some ((conn.popped rest).invoke callback) := by
        rw [← invoked]
        cases functor with
        | writeCompleteCallback | highWaterMarkCallback => simp [transferring, undisturbed, step, queue, IoResult.fits]
        | _ => cases informs
      obtain ⟨calls, after, reached, paused, front⟩ :=
        @ih ((conn.popped rest).invoke callback) ⟨popped.connected, popped.idle, popped.batch⟩ rfl
      refine ⟨_, after, (transferring.run_cons _ _ _ _).mpr ⟨_, stepped, reached⟩, ?_, front⟩
      exact ⟨paused.resting, paused.files, paused.calls, paused.work.trans work.symm, paused.pending⟩

private theorem batch_taken {conn : TcpConnection α} (resting : Resting conn) (finished : conn.loop_.functors = []) :
    ∃ calls after, transferring.run calls conn = some after ∧ Resting after ∧ after.files = conn.files ∧
      after.calls = conn.calls ∧ after.work = conn.work ∧ after.loop_.pendingFunctors_ = [] := by
  have swapped (between : TcpConnection α) (rested : Resting between) (calling : between.loop_.callingPendingFunctors_ = false) :
      transferring.step .swapFunctors between = some { between with loop_ := between.loop_.swapFunctors } ∧
      Resting { between with loop_ := between.loop_.swapFunctors } ∧
      TcpConnection.work { between with loop_ := between.loop_.swapFunctors } = between.work := by
    refine ⟨by simp [transferring, undisturbed, step, calling], ⟨rested.connected, rested.idle, ?_⟩,
      between.work_swap (rested.batch calling)⟩
    intro called
    cases called
  cases calling : conn.loop_.callingPendingFunctors_ with
  | false =>
    obtain ⟨stepped, rested, work⟩ := swapped conn resting calling
    exact ⟨[.swapFunctors], _, (transferring.run_cons _ _ _ _).mpr ⟨_, stepped, rfl⟩, rested, rfl, rfl, work, rfl⟩
  | true =>
    have ended : transferring.step .endFunctors conn = some { conn with loop_ := conn.loop_.endFunctors } := by
      simp [transferring, undisturbed, step, calling, finished]
    have between : Resting { conn with loop_ := conn.loop_.endFunctors } :=
      ⟨resting.connected, resting.idle, fun _ => finished⟩
    obtain ⟨stepped, rested, work⟩ := swapped _ between rfl
    refine ⟨[.endFunctors, .swapFunctors], _, (transferring.run_cons _ _ _ _).mpr ⟨_, ended, ?_⟩, rested, rfl, rfl, work, rfl⟩
    exact (transferring.run_cons _ _ _ _).mpr ⟨_, stepped, rfl⟩

/-- The loop can go on until the functor of the chain is the next to run. -/
private theorem chain_reached {conn : TcpConnection α} (resting : Resting conn) {fileDescriptor offset count : Nat}
    (work : conn.work = [.sendFileInLoop fileDescriptor offset count]) :
    ∃ calls after rest, transferring.run calls conn = some after ∧ Resting after ∧ after.files = conn.files ∧
      after.calls = conn.calls ∧ after.work = conn.work ∧
      after.loop_.functors = .sendFileInLoop fileDescriptor offset count :: rest := by
  have front {paused : TcpConnection α} {functor : Functor} {rest : List Functor} (same : paused.work = conn.work)
      (queue : paused.loop_.functors = functor :: rest) (acts : functor.isNotification = false) :
      functor = .sendFileInLoop fileDescriptor offset count := by
    have popped := paused.work_pop functor rest queue
    rw [same, work, acts] at popped
    exact (List.cons.inj popped).1.symm
  obtain ⟨calls, middle, reached, paused, acts⟩ := notifications_run resting
  cases queue : middle.loop_.functors with
  | cons functor rest =>
    rw [front paused.work queue (acts functor rest queue)] at queue
    exact ⟨calls, middle, rest, reached, paused.resting, paused.files, paused.calls, paused.work, queue⟩
  | nil =>
    obtain ⟨more, taken, took, rested, files, made, waiting, none⟩ := batch_taken paused.resting queue
    obtain ⟨last, after, ran, again, ready⟩ := notifications_run rested
    have same : after.work = conn.work := again.work.trans (waiting.trans paused.work)
    have run : transferring.run (calls ++ (more ++ last)) conn = some after :=
      (transferring.run_append _ _ _ _).mpr ⟨_, reached, (transferring.run_append _ _ _ _).mpr ⟨_, took, ran⟩⟩
    cases next : after.loop_.functors with
    | nil =>
      rw [TcpConnection.work, EventLoop.waiting, next, again.pending, none, work] at same
      cases same
    | cons functor rest =>
      rw [front same next (ready functor rest next)] at next
      exact ⟨_, after, rest, run, again.resting, again.files.trans (files.trans paused.files),
        again.calls.trans (made.trans paused.calls), same, next⟩

/-- The loop can always go on to the next round of a chain. -/
private theorem round_possible {conn : TcpConnection α} (resting : Resting conn) {fileDescriptor offset count : Nat}
    (work : conn.work = [.sendFileInLoop fileDescriptor offset count]) {result : IoResult}
    (sends : result.sends (conn.range fileDescriptor offset count).length = true) :
    ∃ calls after, transferring.run calls conn = some after ∧ Resting after ∧ after.files = conn.files ∧
      Round conn after fileDescriptor offset count result [] := by
  obtain ⟨calls, ready, rest, reached, rested, files, made, waiting, queue⟩ := chain_reached resting work
  have range : ready.range fileDescriptor offset count = conn.range fileDescriptor offset count := by
    rw [TcpConnection.range, files, TcpConnection.range]
  have others := ready.work_pop _ _ queue
  rw [waiting, work] at others
  have none : (ready.popped rest).work = [] := (List.cons.inj others).2.symm
  obtain ⟨round, after, same⟩ := sendFileInLoop_round (rested.popped queue) fileDescriptor offset count (range ▸ sends)
  rw [none] at round
  have fits : result.fits (ready.range fileDescriptor offset count).length = true := by
    cases result with
    | error errno => rfl
    | count n =>
      have most : n ≤ (conn.range fileDescriptor offset count).length := IoResult.sends_transferred sends
      simpa [IoResult.fits, range] using most
  have stepped : transferring.step (.runFunctor result) ready =
      some ((ready.popped rest).sendFileInLoop fileDescriptor offset count result) := by
    simp [transferring, undisturbed, step, queue, range, sends, TcpConnection.request, TcpConnection.execute, range ▸ fits]
  refine ⟨calls ++ [.runFunctor result], _, (transferring.run_append _ _ _ _).mpr ⟨ready, reached, ?_⟩, after,
    same.trans files, sends, ?_, round.work⟩
  · exact (transferring.run_cons _ _ _ _).mpr ⟨_, stepped, rfl⟩
  · rw [round.calls, made]
    exact congrArg (fun bytes => conn.calls ++ [SystemCall.sendfile bytes result]) range

/-- A chain that is to send more than the file has makes any number of rounds. -/
private theorem endless {conn : TcpConnection α} (resting : Resting conn) {fileDescriptor offset count : Nat}
    (work : conn.work = [.sendFileInLoop fileDescriptor offset count])
    (short : (conn.files fileDescriptor).length - offset < count) (rounds : Nat) :
    ∃ calls after, transferring.run calls conn = some after ∧ after.transfers = conn.transfers + rounds := by
  induction rounds generalizing conn offset count with
  | zero => exact ⟨[], conn, rfl, rfl⟩
  | succ rounds ih =>
    have left : (conn.range fileDescriptor offset count).length = (conn.files fileDescriptor).length - offset := by
      simp only [TcpConnection.range, List.length_take, List.length_drop]
      omega
    have sends : (IoResult.count (conn.range fileDescriptor offset count).length).sends
        (conn.range fileDescriptor offset count).length = true := by
      simp only [IoResult.sends]
      split
      next none => simpa using none
      next some => simpa using Nat.one_le_iff_ne_zero.mpr some
    obtain ⟨calls, after, reached, rested, files, round⟩ := round_possible resting work sends
    have next := round.work
    rw [remainder, if_pos (by simp only [IoResult.transferred]; omega), List.nil_append] at next
    obtain ⟨more, final, later, made⟩ := ih rested next (by simp only [files, IoResult.transferred]; omega)
    refine ⟨calls ++ more, final, (transferring.run_append _ _ _ _).mpr ⟨after, reached, later⟩, ?_⟩
    have once : after.transfers = conn.transfers + 1 := round.transfers
    omega

private theorem not_completes_of_short {conn : TcpConnection α} (resting : Resting conn) (unused : conn.work = [])
    {fileDescriptor offset count : Nat} (short : (conn.files fileDescriptor).length - offset < count) :
    ¬Completes conn fileDescriptor offset count := by
  intro ⟨bound, all⟩
  obtain ⟨rested, work⟩ := resting.queued fileDescriptor offset count
  rw [unused] at work
  obtain ⟨calls, final, reached, made⟩ := endless rested work short (bound + 1)
  have most := (all _ calls final .queued reached).1
  have start : TcpConnection.transfers
      { conn with loop_ := conn.loop_.queueInLoop false (.sendFileInLoop fileDescriptor offset count) } = conn.transfers := rfl
  omega

/-- On a connection on which nothing else is sent, a file goes out exactly and the
chain ends if and only if the file has the bytes that were asked for. -/
theorem sendFile_completes_iff (conn : TcpConnection α) (resting : Resting conn) (unused : conn.work = [])
    (fileDescriptor offset count : Nat) :
    Completes conn fileDescriptor offset count ↔ count ≤ (conn.files fileDescriptor).length - offset := by
  constructor
  · intro completes
    by_contra short
    exact not_completes_of_short resting unused (Nat.lt_of_not_le short) completes
  · exact completes_of_enough resting unused

private theorem established_resting (setup : Setup α) : Resting (established setup).1 ∧ (established setup).1.work = [] := by
  refine ⟨⟨rfl, ?_, fun _ => rfl⟩, rfl⟩
  have silent : (established setup).1.channel_.isWriting = false := by
    change ((Channel.kNoneEvent ||| Channel.kReadEvent) &&& Channel.kWriteEvent != 0) = false
    decide
  have empty : (established setup).1.outputBuffer_.readableBytes = 0 := rfl
  simp [TcpConnection.idle, silent, empty]

end Endless

theorem sendFile_completes_four :
    Completes (established ⟨7, fun _ => (0 : Nat), fun _ => [5, 6, 7, 8], false, false, 10⟩).1 3 1 3 :=
  (sendFile_completes_iff _ (established_resting _).1 (established_resting _).2 3 1 3).mpr (by decide)

/-- A file of one byte of which two are asked for: `sendfile` returns 0 at its end
and the functor is queued again and again. -/
theorem sendFile_past_end : (∃ final : TcpConnection Nat,
    transferring.run [.swapFunctors, .runFunctor (.count 0), .endFunctors, .swapFunctors, .runFunctor (.count 0), .endFunctors]
      ((established ⟨7, fun _ => (0 : Nat), fun _ => [5], false, false, 10⟩).1.sendFile 3 0 2 (.count 1)) = some final ∧
    final.accepted = [5] ∧ final.transfers = 3 ∧ final.work = [.sendFileInLoop 3 1 1]) ∧
    ¬Completes (established ⟨7, fun _ => (0 : Nat), fun _ => [5], false, false, 10⟩).1 3 0 2 :=
  ⟨⟨_, rfl, rfl, rfl, rfl⟩, not_completes_of_short (established_resting _).1 (established_resting _).2 (by decide)⟩

end LoopThread
end Webserver
