import Webserver.Proofs.OutputStream

/-! When `writeCompleteCallback_` and `highWaterMarkCallback_` are queued, in terms
of the bytes that were accepted and are not written yet: completion may show on
either path, and the mark is compared with the buffer alone. -/

namespace Webserver
open Library

universe u
variable {α : Type u}

/-- The notification of a step that takes the unwritten bytes from `before` to `after`. -/
def Functor.raised (mark before after : Nat) : List Functor :=
  if mark ≤ after ∧ before < mark then [.highWaterMarkCallback after] else []

theorem Functor.raised_falling {mark before after : Nat} (falling : after ≤ before) : raised mark before after = [] :=
  if_neg (by omega)

namespace TcpConnection

/-- Both callbacks are set, the second with the given mark. -/
structure Notifies (mark : Nat) (conn : TcpConnection α) : Prop where
  complete : conn.writeCompleteCallback_ = true
  high : conn.highWaterMarkCallback_ = true
  mark : conn.highWaterMark_ = mark

variable {mark : Nat} {conn : TcpConnection α}

theorem Notifies.queueWriteComplete (notifies : conn.Notifies mark) (remaining : Nat) :
    (conn.queueWriteComplete remaining).Notifies mark := by
  unfold TcpConnection.queueWriteComplete
  split <;> exact ⟨notifies.complete, notifies.high, notifies.mark⟩

theorem Notifies.queueHighWaterMark (notifies : conn.Notifies mark) (remaining : Nat) :
    (conn.queueHighWaterMark remaining).Notifies mark := by
  simp only [TcpConnection.queueHighWaterMark]
  split <;> exact ⟨notifies.complete, notifies.high, notifies.mark⟩

private theorem queueWriteComplete_pending (notifies : conn.Notifies mark) (remaining : Nat) :
    (conn.queueWriteComplete remaining).loop_.pendingFunctors_ =
      conn.loop_.pendingFunctors_ ++ if remaining = 0 then [.writeCompleteCallback] else [] := by
  simp only [queueWriteComplete, notifies.complete, and_true]
  split <;> simp [queueInLoop]

private theorem queueHighWaterMark_pending (notifies : conn.Notifies mark) (remaining : Nat) :
    (conn.queueHighWaterMark remaining).loop_.pendingFunctors_ = conn.loop_.pendingFunctors_ ++
      Functor.raised mark conn.outputBuffer_.readable.length (conn.outputBuffer_.readable.length + remaining) := by
  simp only [queueHighWaterMark, Functor.raised, notifies.high, notifies.mark, and_true, Buffer.readable_length, ge_iff_le]
  split <;> simp [queueInLoop]

section Sending
variable [OfNat α 0]

theorem Notifies.bufferRemaining (notifies : conn.Notifies mark) (rest : List α) :
    (conn.bufferRemaining rest).Notifies mark := by
  have buffered := notifies.queueHighWaterMark rest.length
  unfold TcpConnection.bufferRemaining
  split
  · simp only
    split <;> exact ⟨buffered.complete, buffered.high, buffered.mark⟩
  · exact notifies

private theorem bufferRemaining_pending (notifies : conn.Notifies mark) (rest : List α) :
    (conn.bufferRemaining rest).loop_.pendingFunctors_ = conn.loop_.pendingFunctors_ ++
      Functor.raised mark conn.outputBuffer_.readable.length (conn.bufferRemaining rest).outputBuffer_.readable.length := by
  rw [bufferRemaining_readable, List.length_append]
  have buffered := queueHighWaterMark_pending notifies rest.length
  unfold bufferRemaining
  split
  next nonempty =>
    simp only
    split <;> exact buffered
  next empty => rw [Functor.raised_falling (by omega), List.append_nil]

theorem Notifies.sendInLoop (notifies : conn.Notifies mark) (data : List α) (result : IoResult) :
    (conn.sendInLoop data result).Notifies mark := by
  have written : (conn.systemCall (.write data result)).Notifies mark :=
    ⟨notifies.complete, notifies.high, notifies.mark⟩
  unfold TcpConnection.sendInLoop
  split
  next idle =>
    cases result with
    | count nwrote => exact (written.queueWriteComplete _).bufferRemaining _
    | error errno =>
      simp only
      split
      · exact written
      · exact written.bufferRemaining data
  next busy => exact notifies.bufferRemaining data

/-- A direct write may complete the output or leave a rest; without one the buffer grows. -/
private theorem sendInLoop_pending (notifies : conn.Notifies mark) (data : List α) (result : IoResult) (nonempty : data ≠ [])
    (healthy : result.isFault = false) :
    (conn.sendInLoop data result).loop_.pendingFunctors_ = conn.loop_.pendingFunctors_ ++
      ((if (conn.sendInLoop data result).outputBuffer_.readable = [] then [.writeCompleteCallback] else []) ++
      Functor.raised mark conn.outputBuffer_.readable.length (conn.sendInLoop data result).outputBuffer_.readable.length) := by
  have written : (conn.systemCall (.write data result)).Notifies mark :=
    ⟨notifies.complete, notifies.high, notifies.mark⟩
  unfold sendInLoop
  split
  next idle =>
    have empty := conn.idle_readable idle
    cases result with
    | count nwrote =>
      simp only
      rw [bufferRemaining_pending (written.queueWriteComplete _), queueWriteComplete_pending written]
      have finished : data.length - nwrote = 0 ↔ data.drop nwrote = [] := by simp [Nat.sub_eq_zero_iff_le]
      simp [finished, empty, systemCall]
    | error errno =>
      have benign : ¬(errno = .EPIPE ∨ errno = .ECONNRESET) := by
        rintro (rfl | rfl) <;> cases healthy
      simp only [benign, if_false]
      rw [bufferRemaining_pending written]
      simp [nonempty, systemCall]
  next busy =>
    rw [bufferRemaining_pending notifies]
    simp [nonempty]

end Sending

theorem Notifies.drain (notifies : conn.Notifies mark) : conn.drain.Notifies mark := by
  have disabled : conn.disableWriting.Notifies mark := ⟨notifies.complete, notifies.high, notifies.mark⟩
  have informed := disabled.queueWriteComplete 0
  simp only [TcpConnection.drain, TcpConnection.shutdownInLoop]
  split <;> (try split) <;> exact ⟨informed.complete, informed.high, informed.mark⟩

private theorem drain_pending (notifies : conn.Notifies mark) :
    conn.drain.loop_.pendingFunctors_ = conn.loop_.pendingFunctors_ ++ [.writeCompleteCallback] := by
  have disabled : conn.disableWriting.Notifies mark := ⟨notifies.complete, notifies.high, notifies.mark⟩
  have informed : (conn.disableWriting.queueWriteComplete 0).loop_.pendingFunctors_ =
      conn.loop_.pendingFunctors_ ++ [.writeCompleteCallback] := queueWriteComplete_pending disabled 0
  simp only [drain, shutdownInLoop]
  split <;> (try split) <;> exact informed

theorem Notifies.handleWrite (notifies : conn.Notifies mark) (result : IoResult) : (conn.handleWrite result).Notifies mark := by
  have retrieved : (conn.retrieved result).Notifies mark := ⟨notifies.complete, notifies.high, notifies.mark⟩
  rcases conn.handleWrite_cases result with ⟨_, same⟩ | ⟨_, same, _⟩ | ⟨_, _, same⟩ <;> rw [same]
  · exact notifies
  · exact ⟨notifies.complete, notifies.high, notifies.mark⟩
  · split
    · exact retrieved.drain
    · exact retrieved

/-- A write event completes the output if it empties the buffer, and never fills it. -/
private theorem handleWrite_pending (notifies : conn.Notifies mark) (interest : conn.Interest) (result : IoResult) :
    (conn.handleWrite result).loop_.pendingFunctors_ = conn.loop_.pendingFunctors_ ++
      (if conn.outputBuffer_.readable ≠ [] ∧ (conn.handleWrite result).outputBuffer_.readable = []
        then [.writeCompleteCallback] else []) ∧
    (conn.handleWrite result).outputBuffer_.readable.length ≤ conn.outputBuffer_.readable.length := by
  have retrieved : (conn.retrieved result).Notifies mark := ⟨notifies.complete, notifies.high, notifies.mark⟩
  have remaining : (conn.retrieved result).outputBuffer_.readable =
      conn.outputBuffer_.readable.drop result.transferred := Buffer.readable_retrieve _ _
  rcases conn.handleWrite_cases result with ⟨silent, same⟩ | ⟨writing, same, _⟩ | ⟨writing, _, same⟩ <;> rw [same]
  · have empty : conn.outputBuffer_.readable = [] := not_not.mp fun rest => by simp [interest.mpr rest] at silent
    simp [empty]
  · simp [interest.mp writing, systemCall]
  · have some := interest.mp writing
    split
    next drained =>
      rw [drain_pending retrieved, drain_outputBuffer, drained, if_pos ⟨some, rfl⟩]
      exact ⟨rfl, Nat.zero_le _⟩
    next rest =>
      rw [if_neg (fun both => rest both.2), List.append_nil, remaining, List.length_drop]
      exact ⟨rfl, Nat.sub_le _ _⟩

end TcpConnection

namespace LoopCall

/-- A non-empty `send`, a write event, or a part of a round of functors. -/
def isOutput : LoopCall α → Bool
  | .send buf _ => !buf.isEmpty
  | .handleWrite _ | .swapFunctors | .runFunctor _ | .endFunctors => true
  | .sendFile .. | .shutdown => false

private theorem isOutput_plain {call : LoopCall α} (output : call.isOutput = true) : call.isSendFile = false := by
  cases call <;> first | rfl | cases output

end LoopCall

namespace LoopThread

def unsent (state : TcpConnection α × List (List α)) : Nat := state.2.flatten.length - state.1.accepted.length

/-- A step accepts or writes at least one byte. -/
def Advances (before after : TcpConnection α × List (List α)) : Prop :=
  before.2.flatten.length < after.2.flatten.length ∨ before.1.accepted.length < after.1.accepted.length

/-- The functors that wait for the next round when a step begins; a round takes them all. -/
def kept : LoopCall α → TcpConnection α → List Functor
  | .swapFunctors, _ => []
  | _, conn => conn.loop_.pendingFunctors_

def Queues (call : LoopCall α) (before after : TcpConnection α) (functors : List Functor) : Prop :=
  after.loop_.pendingFunctors_ = kept call before ++ functors

instance (before after : TcpConnection α × List (List α)) : Decidable (Advances before after) :=
  inferInstanceAs (Decidable (_ ∨ _))

def notifications (mark : Nat) (before after : TcpConnection α × List (List α)) : List Functor :=
  (if Advances before after ∧ unsent after = 0 then [.writeCompleteCallback] else []) ++
    Functor.raised mark (unsent before) (unsent after)

theorem Queues.still {mark : Nat} {call : LoopCall α} {before after : TcpConnection α × List (List α)}
    (submitted : after.2 = before.2) (accepted : after.1.accepted = before.1.accepted)
    (queue : after.1.loop_.pendingFunctors_ = kept call before.1) :
    Queues call before.1 after.1 (notifications mark before after) := by
  have same : unsent after = unsent before := by rw [unsent, unsent, submitted, accepted]
  have still : ¬Advances before after := by simp [Advances, submitted, accepted]
  rw [Queues, notifications, if_neg (fun both => still both.1), same, Functor.raised_falling (Nat.le_refl _), queue]
  simp

theorem step_refused [OfNat α 0] {call : LoopCall α} {conn : TcpConnection α} (stepped : step call conn = some conn) :
    conn.loop_.pendingFunctors_ = kept call conn := by
  cases call with
  | swapFunctors =>
    simp only [step] at stepped
    split at stepped
    next => cases stepped
    next => exact (congrArg (fun state : TcpConnection α => state.loop_.pendingFunctors_) (Option.some.inj stepped)).symm
  | _ => rfl

theorem Whole.lengths {state : TcpConnection α × List (List α)} (whole : Whole state) :
    state.1.accepted.length + state.1.outputBuffer_.readable.length = state.2.flatten.length := by
  rw [← List.length_append, ← whole.stream]
  rfl

theorem Whole.unsent {state : TcpConnection α × List (List α)} (whole : Whole state) :
    unsent state = state.1.outputBuffer_.readable.length := by
  have lengths := whole.lengths
  rw [LoopThread.unsent]
  omega

theorem step_queues [OfNat α 0] {mark : Nat} {call : LoopCall α} {before after : TcpConnection α × List (List α)}
    (healthy : call.isFault = false) (output : call.isOutput = true) (whole : Whole before)
    (notifies : before.1.Notifies mark) (stepped : recorded.step call before = some after) :
    after.1.Notifies mark ∧ Queues call before.1 after.1 (notifications mark before after) := by
  have later := step_whole healthy (LoopCall.isOutput_plain output) whole stepped
  obtain ⟨conn, submitted⟩ := before
  obtain ⟨next, total⟩ := after
  obtain ⟨moved, recorded⟩ := recorded_step stepped
  simp only at moved recorded notifies
  cases step_cases moved with
  | refuses _ given plain => exact ⟨notifies, .still (by simp [recorded, given]) rfl (step_refused moved)⟩
  | sends buf result connected =>
    have nonempty : buf ≠ [] := by simpa [LoopCall.isOutput] using output
    have advances : Advances (conn, submitted) (conn.sendInLoop buf result, total) := by
      refine .inl ?_
      simp [recorded, accepts, TcpConnection.connected, connected, List.length_pos_iff, nonempty]
    refine ⟨notifies.sendInLoop buf result, ?_⟩
    rw [Queues, TcpConnection.sendInLoop_pending notifies buf result nonempty healthy, notifications, whole.unsent,
      later.unsent]
    simp only [advances, true_and, List.length_eq_zero_iff, kept]
  | writes result =>
    obtain ⟨queued, shrinks⟩ := TcpConnection.handleWrite_pending notifies whole.regular.interest result
    have same : total = submitted := by simp [recorded, accepts]
    have first := whole.lengths
    have last := later.lengths
    subst same
    refine ⟨notifies.handleWrite result, ?_⟩
    rw [Queues, queued, notifications, whole.unsent, later.unsent, Functor.raised_falling shrinks, List.append_nil]
    congr 1
    apply if_congr _ rfl rfl
    simp only [Advances, Nat.lt_irrefl, false_or, ← List.length_pos_iff, ← List.length_eq_zero_iff]
    simp only at first last
    omega
  | swapFunctors between =>
    exact ⟨⟨notifies.complete, notifies.high, notifies.mark⟩, .still (by simp [recorded, accepts]) rfl rfl⟩
  | endFunctors finished =>
    exact ⟨⟨notifies.complete, notifies.high, notifies.mark⟩, .still (by simp [recorded, accepts]) rfl rfl⟩
  | runs result functor rest queue =>
    rcases whole.regular.orderly.first queue with ⟨informs, _⟩ | ⟨_, _, _, _, work, _⟩
    · obtain ⟨callback, invoked, _⟩ := (conn.popped rest).execute_notification functor result informs
      rw [invoked]
      exact ⟨⟨notifies.complete, notifies.high, notifies.mark⟩, .still (by simp [recorded, accepts]) rfl rfl⟩
    · rw [whole.alone] at work
      cases work
  | sendsFile | shuts => cases output

theorem run_notifies [OfNat α 0] {setup : Setup α} (complete : setup.writeCompleteCallback = true)
    (high : setup.highWaterMarkCallback = true) {calls : List (LoopCall α)}
    (healthy : ∀ call ∈ calls, call.isFault = false) (output : ∀ call ∈ calls, call.isOutput = true)
    {final : TcpConnection α × List (List α)} (reached : recorded.run calls (established setup) = some final) :
    Whole final ∧ final.1.Notifies setup.highWaterMark := by
  have along : recorded.Along (fun call _ => call.isFault = false ∧ call.isOutput = true) calls (established setup) :=
    Machine.along_of_forall (fun call member => ⟨healthy call member, output call member⟩) _
  let invariant (state : TcpConnection α × List (List α)) : Prop := Whole state ∧ state.1.Notifies setup.highWaterMark
  have preserved (call before after) (good : call.isFault = false ∧ call.isOutput = true) (kept : invariant before)
      (stepped : recorded.step call before = some after) : invariant after :=
    ⟨step_whole good.1 (LoopCall.isOutput_plain good.2) kept.1 stepped,
      (step_queues good.1 good.2 kept.1 kept.2 stepped).1⟩
  have initial : invariant (established setup) := ⟨established_whole setup, complete, high, rfl⟩
  exact Machine.run_invariant preserved reached along initial

/-- A high-water notification means that the mark was crossed. -/
private theorem notifications_high {mark size : Nat} {before after : TcpConnection α × List (List α)}
    (same : notifications mark before after = [.highWaterMarkCallback size]) :
    unsent before < mark ∧ mark ≤ unsent after := by
  have told : .highWaterMarkCallback size ∈ notifications mark before after := by simp [same]
  simp only [notifications, Functor.raised] at told
  by_cases crossed : mark ≤ unsent after ∧ unsent before < mark
  · exact crossed.symm
  · rw [if_neg crossed, List.append_nil] at told
    split at told <;> simp at told

/-- Each step queues exactly what its change of the unwritten bytes calls for, so
between two high-water notifications these were below the mark. -/
theorem notifications_exact [OfNat α 0] (setup : Setup α) (complete : setup.writeCompleteCallback = true)
    (high : setup.highWaterMarkCallback = true) (calls : List (LoopCall α))
    (healthy : ∀ call ∈ calls, call.isFault = false) (output : ∀ call ∈ calls, call.isOutput = true) :
    (∀ earlier call later before after, calls = earlier ++ call :: later →
      recorded.run earlier (established setup) = some before → recorded.step call before = some after →
      Queues call before.1 after.1 (notifications setup.highWaterMark before after)) ∧
    ∀ earlier first middle last later start raised lowered final, calls = earlier ++ first :: middle ++ last :: later →
      recorded.run earlier (established setup) = some start → recorded.step first start = some raised →
      recorded.run middle raised = some lowered → recorded.step last lowered = some final →
      (∃ size, Queues first start.1 raised.1 [.highWaterMarkCallback size]) →
      (∃ size, Queues last lowered.1 final.1 [.highWaterMarkCallback size]) →
      setup.highWaterMark ≤ unsent raised ∧ unsent lowered < setup.highWaterMark := by
  have told (earlier call later before after) (split : calls = earlier ++ call :: later)
      (ran : recorded.run earlier (established setup) = some before) (stepped : recorded.step call before = some after) :
      Queues call before.1 after.1 (notifications setup.highWaterMark before after) := by
    subst split
    obtain ⟨whole, notifies⟩ := run_notifies complete high (fun call member => healthy call (by simp [member]))
      (fun call member => output call (by simp [member])) ran
    exact (step_queues (healthy call (by simp)) (output call (by simp)) whole notifies stepped).2
  refine ⟨told, ?_⟩
  intro earlier first middle last later start raised lowered final split ran up between again ⟨size, firstQueued⟩
    ⟨other, lastQueued⟩
  have rose := told earlier first (middle ++ last :: later) start raised (by simp [split]) ran up
  have reached : recorded.run (earlier ++ first :: middle) (established setup) = some lowered := by
    rw [Machine.run_append]
    exact ⟨start, ran, (Machine.run_cons _ _ _ _ _).mpr ⟨raised, up, between⟩⟩
  have rises := told (earlier ++ first :: middle) last later lowered final (by simp [split]) reached again
  rw [Queues] at firstQueued lastQueued rose rises
  exact ⟨(notifications_high (List.append_cancel_left (rose.symm.trans firstQueued))).2,
    (notifications_high (List.append_cancel_left (rises.symm.trans lastQueued))).1⟩

/-- One byte goes out at once; of the next five, four reach the mark. -/
theorem notifications_exact_mark :
    ∃ before after : TcpConnection UInt8 × List (List UInt8),
      recorded.run [.send [1] (.count 1)] (established ⟨7, fun _ => 0, fun _ => [], true, true, 4⟩) = some before ∧
      recorded.step (.send [2, 3, 4, 5, 6] (.count 1)) before = some after ∧ unsent before = 0 ∧ unsent after = 4 ∧
      Queues (.send [2, 3, 4, 5, 6] (.count 1)) before.1 after.1 (notifications 4 before after) ∧
      notifications 4 before after = [.highWaterMarkCallback 4] := by
  let setup : Setup UInt8 := ⟨7, fun _ => 0, fun _ => [], true, true, 4⟩
  obtain ⟨after, reached, last⟩ := Option.map_eq_some_iff.mp
    (show (recorded.run [.send [1] (.count 1), .send [2, 3, 4, 5, 6] (.count 1)] (established setup)).map unsent =
      some 4 by decide +kernel)
  obtain ⟨before, ran, more⟩ := (Machine.run_append recorded [.send [1] (.count 1)] _ _ _).mp reached
  obtain ⟨_, stepped, same⟩ := (Machine.run_cons _ _ _ _ _).mp more
  cases same
  have first : (recorded.run [.send [1] (.count 1)] (established setup)).map unsent = some 0 := by decide +kernel
  rw [ran, Option.map_some, Option.some.injEq] at first
  refine ⟨before, after, ran, stepped, first, last, ?_, ?_⟩
  · exact (notifications_exact setup rfl rfl [.send [1] (.count 1), .send [2, 3, 4, 5, 6] (.count 1)]
      (by decide) (by decide)).1 _ _ [] before after rfl ran stepped
  · simp [notifications, Functor.raised, first, last]

end LoopThread
end Webserver
