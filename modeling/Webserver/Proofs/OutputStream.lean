import Webserver.Proofs.LoopThreadFeed

/-! The output of a connection over runs of its loop thread: the stream is what
was sent, the channel asks for write events exactly while bytes are buffered, and
the write side is shut once, after the last byte. -/

namespace Webserver
open Library

universe u
variable {α : Type u}

namespace LoopThread

structure SameOutput (before after : TcpConnection α) : Prop where
  state_ : after.state_ = before.state_
  channel_ : after.channel_ = before.channel_
  outputBuffer_ : after.outputBuffer_ = before.outputBuffer_
  calls : after.calls = before.calls

/-- Once the write side is shut, nothing is left to write and nothing more is called. -/
def Sealed (conn : TcpConnection α) : Prop :=
  .shutdownWrite ∈ conn.calls → conn.state_ = .kDisconnecting ∧ conn.outputBuffer_.readable = [] ∧
    ∃ earlier, conn.calls = earlier ++ [.shutdownWrite] ∧ .shutdownWrite ∉ earlier

structure Regular (conn : TcpConnection α) : Prop where
  orderly : Orderly conn
  interest : conn.Interest
  closed : Sealed conn

inductive Output [OfNat α 0] (call : LoopCall α) (conn : TcpConnection α) : TcpConnection α → Prop where
  | none {after} (same : SameOutput conn after) : Output call conn after
  | send (data : List α) (result : IoResult) (connected : conn.state_ = .kConnected) :
      Output call conn (conn.sendInLoop data result)
  | sendFile {base} (same : SameOutput conn base) (fileDescriptor offset count : Nat) (result : IoResult)
      (still : conn.state_ ≠ .kDisconnecting) :
      Output call conn (base.sendFileInLoop fileDescriptor offset count result)
  | shutdown (called : call = .shutdown) (connected : conn.state_ = .kConnected) :
      Output call conn (conn.setState .kDisconnecting).shutdownInLoop
  | handleWrite (result : IoResult) : Output call conn (conn.handleWrite result)

theorem step_output [OfNat α 0] (call : LoopCall α) (conn after : TcpConnection α) (orderly : Orderly conn)
    (stepped : step call conn = some after) : Output call conn after := by
  cases step_cases stepped with
  | refuses | swapFunctors | endFunctors => exact .none ⟨rfl, rfl, rfl, rfl⟩
  | sends buf result connected => exact .send buf result connected
  | sendsFile fileDescriptor offset count result connected =>
    exact .sendFile ⟨rfl, rfl, rfl, rfl⟩ _ _ _ _ (by simp [connected])
  | shuts connected => exact .shutdown rfl connected
  | writes result => exact .handleWrite result
  | runs result functor rest queue =>
    have same : SameOutput conn (conn.popped rest) := ⟨rfl, rfl, rfl, rfl⟩
    rcases orderly.first queue with ⟨informs, _⟩ | ⟨fileDescriptor, offset, count, rfl, _, _, still⟩
    · obtain ⟨callback, invoked, _⟩ := (conn.popped rest).execute_notification functor result informs
      rw [invoked]
      exact .none ⟨rfl, rfl, rfl, rfl⟩
    · exact .sendFile same _ _ _ _ still

theorem SameOutput.interest {before after : TcpConnection α} (same : SameOutput before after)
    (interest : before.Interest) : after.Interest := by
  simpa [TcpConnection.Interest, same.channel_, same.outputBuffer_] using interest

theorem step_interest [OfNat α 0] {call : LoopCall α} {conn after : TcpConnection α}
    (output : Output call conn after) (interest : conn.Interest) : after.Interest := by
  cases output with
  | none same => exact same.interest interest
  | send data result => exact interest.sendInLoop data result
  | sendFile same => exact (same.interest interest).sendFileInLoop _ _ _ _
  | shutdown => exact TcpConnection.Interest.shutdownInLoop interest
  | handleWrite result => exact interest.handleWrite result

private theorem sealed_open {before after : TcpConnection α} {made : List (SystemCall α)}
    (unshut : .shutdownWrite ∉ before.calls) (calls : after.calls = before.calls ++ made)
    (others : .shutdownWrite ∉ made) : Sealed after := by
  intro shut
  rw [calls, List.mem_append] at shut
  exact absurd shut (not_or.mpr ⟨unshut, others⟩)

/-- The step that shuts the write side does so with an empty buffer. -/
private theorem sealed_shut {after : TcpConnection α} {earlier : List (SystemCall α)}
    (unshut : .shutdownWrite ∉ earlier) (calls : after.calls = earlier ++ [.shutdownWrite])
    (state : after.state_ = .kDisconnecting) (drained : after.outputBuffer_.readable = []) : Sealed after :=
  fun _ => ⟨state, drained, earlier, calls, unshut⟩

private theorem handleWrite_sealed (conn : TcpConnection α) (result : IoResult) (interest : conn.Interest)
    (closed : Sealed conn) : Sealed (conn.handleWrite result) := by
  have unshut (writing : conn.channel_.isWriting = true) : .shutdownWrite ∉ conn.calls :=
    fun shut => interest.mp writing (closed shut).2.1
  rcases conn.handleWrite_cases result with ⟨_, same⟩ | ⟨writing, same, _⟩ | ⟨writing, _, same⟩ <;> rw [same]
  · exact closed
  · exact sealed_open (unshut writing) (TcpConnection.systemCall_calls _ _) (by simp)
  · have made : (conn.retrieved result).calls = conn.calls ++ [.write conn.outputBuffer_.readable result] := rfl
    have fresh : .shutdownWrite ∉ (conn.retrieved result).calls := by simp [made, unshut writing]
    split
    next drained =>
      have calls := (conn.retrieved result).drain_calls
      by_cases disconnecting : (conn.retrieved result).state_ = .kDisconnecting
      · rw [if_pos disconnecting] at calls
        refine sealed_shut fresh calls ?_ (by simpa using drained)
        exact (TcpConnection.Frame.drain _).state_.trans disconnecting
      · rw [if_neg disconnecting] at calls
        exact sealed_open fresh calls (by simp)
    next rest =>
      intro shut
      exact absurd shut fresh

theorem step_sealed [OfNat α 0] {call : LoopCall α} {conn after : TcpConnection α} (output : Output call conn after)
    (interest : conn.Interest) (closed : Sealed conn) : Sealed after := by
  cases output with
  | none same =>
    intro shut
    rw [same.calls, same.state_, same.outputBuffer_] at *
    exact closed shut
  | send data result connected =>
    have unshut : .shutdownWrite ∉ conn.calls := fun shut => by simpa [connected] using (closed shut).1
    apply sealed_open unshut (TcpConnection.sendInLoop_calls _ _ _)
    split <;> simp
  | sendFile same fileDescriptor offset count result still =>
    have unshut : .shutdownWrite ∉ conn.calls := fun shut => still (closed shut).1
    rw [← same.calls] at unshut
    apply sealed_open unshut (TcpConnection.sendFileInLoop_calls _ _ _ _ _ (same.state_ ▸ still))
    split <;> simp
  | shutdown called connected =>
    have unshut : .shutdownWrite ∉ conn.calls := fun shut => by simpa [connected] using (closed shut).1
    unfold TcpConnection.shutdownInLoop
    split
    next writing =>
      intro shut
      exact absurd shut unshut
    next silent =>
      apply sealed_shut unshut rfl rfl
      exact not_not.mp fun rest => silent (interest.mpr rest)
  | handleWrite result => exact handleWrite_sealed conn result interest closed

theorem step_regular [OfNat α 0] (call : LoopCall α) (conn after : TcpConnection α) (regular : Regular conn)
    (allowed : Allowed call conn) (stepped : step call conn = some after) : Regular after := by
  have output := step_output call conn after regular.orderly stepped
  exact ⟨(step_effect call conn after regular.orderly allowed stepped).1,
    step_interest output regular.interest, step_sealed output regular.interest regular.closed⟩

theorem step_state [OfNat α 0] {call : LoopCall α} {conn after : TcpConnection α} (output : Output call conn after)
    (other : call ≠ .shutdown) : after.state_ = conn.state_ := by
  cases output with
  | none same => exact same.state_
  | send data result => exact (TcpConnection.Frame.sendInLoop conn data result).state_
  | sendFile same fileDescriptor offset count result still =>
    rw [TcpConnection.sendFileInLoop_state, same.state_]
  | shutdown called => exact absurd called other
  | handleWrite result => exact (TcpConnection.Frame.handleWrite conn result).state_

theorem recorded_step [OfNat α 0] {call : LoopCall α} {before after : TcpConnection α × List (List α)}
    (stepped : recorded.step call before = some after) :
    step call before.1 = some after.1 ∧ after.2 = before.2 ++ (accepts call before.1).toList :=
  Machine.watch_step.mp stepped

/-- Only `sendFile` puts work into the functor queue. -/
theorem Effect.work_plain {call : LoopCall α} {conn after : TcpConnection α} (effect : Effect call conn after)
    (plain : call.isSendFile = false) (none : conn.work = []) : after.work = [] := by
  cases effect with
  | quiet given other stream work => rw [work, none]
  | inform functor rest result called queue informs stream work => rw [work, none]
  | block data result called connected stream work => rw [work, none]
  | start fileDescriptor offset count result called =>
    rw [called] at plain
    cases plain
  | resume fileDescriptor offset count result others rest called queue work =>
    rw [work] at none
    cases none

/-- A connection that was only sent blocks: the stream is what was submitted. -/
structure Whole (state : TcpConnection α × List (List α)) : Prop where
  regular : Regular state.1
  alone : state.1.work = []
  stream : state.1.stream = state.2.flatten

theorem established_whole [OfNat α 0] (setup : Setup α) : Whole (established setup) := by
  have empty : (established setup).1.outputBuffer_.readable = [] := Buffer.readable_new _
  have silent : (established setup).1.channel_.isWriting = false := by
    change ((Channel.kNoneEvent ||| Channel.kReadEvent) &&& Channel.kWriteEvent != 0) = false
    decide
  have waiting : (established setup).1.work = [] := rfl
  refine ⟨⟨⟨fun _ => rfl, ?_, fun _ => rfl⟩, ?_, ?_⟩, waiting, empty⟩
  · intro functor member
    rw [waiting] at member
    cases member
  · simp [TcpConnection.Interest, empty, silent]
  · intro graceful
    cases graceful

theorem feed_alone {conn : TcpConnection α} (alone : conn.work = []) : feed conn = ⟨conn.stream, []⟩ := by
  simp [feed, alone]

theorem step_whole [OfNat α 0] {call : LoopCall α} {before after : TcpConnection α × List (List α)}
    (healthy : call.isFault = false) (plain : call.isSendFile = false) (whole : Whole before)
    (stepped : recorded.step call before = some after) : Whole after := by
  obtain ⟨moved, recorded⟩ := recorded_step stepped
  have allowed : Allowed call before.1 :=
    ⟨healthy, fun _ _ _ _ same => (by rw [same] at plain; cases plain), fun _ => whole.alone⟩
  obtain ⟨_, files, effect⟩ := step_effect call before.1 after.1 whole.regular.orderly allowed moved
  have alone := effect.work_plain plain whole.alone
  have fed := effect.feeds files
  rw [feed_alone whole.alone, feed_alone alone] at fed
  have total := (fed.ordered (Nat.zero_le 1) (.inr rfl)).2
  refine ⟨step_regular call before.1 after.1 whole.regular allowed moved, alone, ?_⟩
  simp only [Feed.total, List.flatten_nil, List.append_nil] at total
  rw [total, whole.stream, recorded]
  cases accepts call before.1 <;> simp

theorem split_last {β : Type u} {last : β} {first earlier later : List β} (fresh : last ∉ first)
    (same : earlier ++ last :: later = first ++ [last]) : earlier = first ∧ later = [] := by
  rcases List.append_eq_append_iff.mp same with ⟨middle, rfl, rest⟩ | ⟨middle, rfl, rest⟩
  · cases middle with
    | nil => simpa using rest
    | cons head tail =>
      obtain ⟨rfl, -⟩ := List.cons_eq_cons.mp rest
      exact absurd (by simp) fresh
  · cases middle with
    | nil => simpa using rest
    | cons head tail => simp at rest

/-- Without a call of `shutdown` the connection stays open. -/
private theorem shutdown_needed [OfNat α 0] {setup : Setup α} {calls : List (LoopCall α)}
    {final : TcpConnection α × List (List α)}
    (healthy : ∀ call ∈ calls, call.isFault = false) (plain : ∀ call ∈ calls, call.isSendFile = false)
    (reached : recorded.run calls (established setup) = some final) (never : .shutdown ∉ calls) :
    final.1.state_ = .kConnected := by
  have along : recorded.Along (fun call _ => (call.isFault = false ∧ call.isSendFile = false) ∧ call ≠ .shutdown)
      calls (established setup) :=
    Machine.along_of_forall (fun call member =>
      ⟨⟨healthy call member, plain call member⟩, fun same => never (same ▸ member)⟩) _
  let invariant (state : TcpConnection α × List (List α)) : Prop := Whole state ∧ state.1.state_ = .kConnected
  have preserved (call before after) (good : (call.isFault = false ∧ call.isSendFile = false) ∧ call ≠ .shutdown)
      (kept : invariant before) (stepped : recorded.step call before = some after) : invariant after := by
    have output := step_output call before.1 after.1 kept.1.regular.orderly (recorded_step stepped).1
    exact ⟨step_whole good.1.1 good.1.2 kept.1 stepped, (step_state output good.2).trans kept.2⟩
  have kept : invariant final := Machine.run_invariant preserved reached along ⟨established_whole setup, rfl⟩
  exact kept.2

/-- For any sends, any results of the kernel and any order of events: what the
kernel accepted and what is buffered is what was sent, write interest says whether
something is buffered, and the write side is shut once, after the last byte. -/
theorem output_stream_integrity [OfNat α 0] (setup : Setup α) (calls : List (LoopCall α))
    (healthy : ∀ call ∈ calls, call.isFault = false) (plain : ∀ call ∈ calls, call.isSendFile = false)
    (conn : TcpConnection α) (submitted : List (List α))
    (reached : recorded.run calls (established setup) = some (conn, submitted)) :
    conn.accepted ++ conn.outputBuffer_.readable = submitted.flatten ∧
    (conn.channel_.isWriting = true ↔ conn.outputBuffer_.readable ≠ []) ∧
    ∀ earlier later, conn.calls = earlier ++ .shutdownWrite :: later →
      .shutdownWrite ∉ earlier ∧ .shutdownWrite ∉ later ∧ .shutdown ∈ calls ∧
      earlier.flatMap SystemCall.accepted = submitted.flatten := by
  have along : recorded.Along (fun call _ => call.isFault = false ∧ call.isSendFile = false) calls (established setup) :=
    Machine.along_of_forall (fun call member => ⟨healthy call member, plain call member⟩) _
  have whole : Whole (conn, submitted) :=
    Machine.run_invariant (fun call before after good => step_whole good.1 good.2) reached along (established_whole setup)
  refine ⟨whole.stream, whole.regular.interest, ?_⟩
  intro earlier later made
  obtain ⟨state, drained, before, only, fresh⟩ := whole.regular.closed (by simp [made])
  rw [made] at only
  obtain ⟨rfl, rfl⟩ := split_last fresh only
  refine ⟨fresh, by simp, ?_, ?_⟩
  · apply not_not.mp
    intro never
    have remains := shutdown_needed healthy plain reached never
    rw [state] at remains
    cases remains
  · have stream := whole.stream
    simpa [TcpConnection.stream, drained, TcpConnection.accepted, made, SystemCall.accepted] using stream

/-- Two sends, a partial write of each kind, and a shutdown between them. -/
theorem output_stream_integrity_four :
    ∃ conn : TcpConnection UInt8, ∃ submitted,
      recorded.run [.send [1, 2, 3] (.count 1), .send [4] (.count 0), .shutdown, .handleWrite (.count 2),
        .handleWrite (.error .EWOULDBLOCK), .handleWrite (.count 1)]
        (established ⟨7, fun _ => 0, fun _ => [], true, true, 16⟩) = some (conn, submitted) ∧
      submitted = [[1, 2, 3], [4]] ∧ conn.accepted ++ conn.outputBuffer_.readable = submitted.flatten := by
  obtain ⟨⟨conn, submitted⟩, reached, same⟩ := Option.map_eq_some_iff.mp
    (show (recorded.run [.send [1, 2, 3] (.count 1), .send [4] (.count 0), .shutdown, .handleWrite (.count 2),
        .handleWrite (.error .EWOULDBLOCK), .handleWrite (.count 1)]
        (established (⟨7, fun _ => 0, fun _ => [], true, true, 16⟩ : Setup UInt8))).map Prod.snd =
      some [[1, 2, 3], [4]] by decide +kernel)
  exact ⟨conn, submitted, reached, same, (output_stream_integrity _ _ (by decide) (by decide) conn _ reached).1⟩

end LoopThread
end Webserver
