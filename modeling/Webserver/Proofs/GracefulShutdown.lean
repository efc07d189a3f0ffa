import Webserver.Proofs.OutputStream

/-! Shutdown after sends and transfers: nothing is truncated as long as `shutdown`
is not called over a transfer that waits in the functor queue. -/

namespace Webserver
open Library

universe u
variable {α : Type u}

namespace LoopThread

/-- `shutdown` is only called while no transfer waits in the functor queue. -/
def Graceful (call : LoopCall α) (conn : TcpConnection α) : Prop :=
  call = .shutdown → ∀ functor ∈ conn.loop_.waiting, functor.isSendFile = false

instance [DecidableEq α] (call : LoopCall α) (conn : TcpConnection α) : Decidable (Graceful call conn) :=
  inferInstanceAs (Decidable (_ → ∀ functor ∈ conn.loop_.waiting, functor.isSendFile = false))

theorem Orderly.work_nil {conn : TcpConnection α} (orderly : Orderly conn)
    (none : ∀ functor ∈ conn.loop_.waiting, functor.isSendFile = false) : conn.work = [] := by
  apply List.eq_nil_iff_forall_not_mem.mpr
  intro functor member
  have waits := none functor (List.mem_of_mem_filter member)
  have backed := orderly.backed functor member
  cases functor with
  | sendFileInLoop => cases waits
  | _ => cases backed

/-- Everything submitted is accepted, buffered or queued. -/
structure Kept (files : Nat → List α) (state : TcpConnection α × List (List α)) : Prop where
  regular : Regular state.1
  disk : state.1.files = files
  total : (feed state.1).total.Perm state.2.flatten

private theorem established_kept [OfNat α 0] (setup : Setup α) : Kept setup.files (established setup) where
  regular := (established_whole setup).regular
  disk := rfl
  total := by
    have whole := established_whole setup
    rw [feed_alone whole.alone, Feed.total, List.flatten_nil, List.append_nil, whole.stream]

theorem step_kept [OfNat α 0] {files : Nat → List α} {call : LoopCall α} {before after : TcpConnection α × List (List α)}
    (allowed : Allowed call before.1) (kept : Kept files before) (stepped : recorded.step call before = some after) :
    Kept files after := by
  obtain ⟨moved, recorded⟩ := recorded_step stepped
  obtain ⟨_, same, effect⟩ := step_effect call before.1 after.1 kept.regular.orderly allowed moved
  refine ⟨step_regular call before.1 after.1 kept.regular allowed moved, same.trans kept.disk, ?_⟩
  have given : after.2.flatten = before.2.flatten ++ (accepts call before.1).getD [] := by
    rw [recorded, List.flatten_append]
    cases accepts call before.1 <;> simp
  rw [given]
  exact (effect.feeds same).conserves.trans (kept.total.append_right _)

/-- While `shutdown` is not called over a waiting transfer, no submitted byte is
discarded, and all of them are accepted before the write side is shut. -/
theorem graceful_shutdown [OfNat α 0] (setup : Setup α) (calls : List (LoopCall α))
    (healthy : ∀ call ∈ calls, call.isFault = false)
    (enough : ∀ fileDescriptor offset count result, .sendFile fileDescriptor offset count result ∈ calls →
      offset + count ≤ (setup.files fileDescriptor).length)
    (conn : TcpConnection α) (submitted : List (List α))
    (reached : recorded.run calls (established setup) = some (conn, submitted))
    (graceful : recorded.Along (fun call state => Graceful call state.1) calls (established setup)) :
    (conn.stream ++ (conn.work.map (tail conn.files)).flatten).Perm submitted.flatten ∧
    ∀ earlier later, conn.calls = earlier ++ .shutdownWrite :: later →
      (earlier.flatMap SystemCall.accepted).Perm submitted.flatten := by
  let good (call : LoopCall α) : Prop := call.isFault = false ∧
    ∀ fileDescriptor offset count result, call = .sendFile fileDescriptor offset count result →
      offset + count ≤ (setup.files fileDescriptor).length
  have plain : recorded.Along (fun call _ => good call) calls (established setup) := by
    refine Machine.along_of_forall (fun call member => ⟨healthy call member, ?_⟩) _
    intro _ _ _ _ same
    exact enough _ _ _ _ (same ▸ member)
  have kept : Kept setup.files (conn, submitted) := by
    refine Machine.run_invariant ?_ reached (plain.and graceful) (established_kept setup)
    intro call before after ⟨⟨sound, stored⟩, graceful⟩ kept stepped
    have allowed : Allowed call before.1 :=
      ⟨sound, kept.disk ▸ stored, fun same => kept.regular.orderly.work_nil (graceful same)⟩
    exact step_kept allowed kept stepped
  refine ⟨kept.total, ?_⟩
  intro earlier later made
  obtain ⟨state, drained, first, only, fresh⟩ := kept.regular.closed (by simp [made])
  have alone := kept.regular.orderly.graceful state
  rw [made] at only
  obtain ⟨rfl, rfl⟩ := split_last fresh only
  have total := kept.total
  simpa [feed_alone alone, Feed.total, TcpConnection.stream, drained, TcpConnection.accepted, made,
    SystemCall.accepted] using total

/-- A transfer that finishes in the functor queue before the shutdown. -/
theorem graceful_shutdown_resumed :
    ∃ conn : TcpConnection UInt8, ∃ submitted,
      recorded.run [.sendFile 0 0 3 (.count 1), .swapFunctors, .runFunctor (.count 2), .endFunctors, .shutdown]
        (established ⟨7, fun _ => 0, fun _ => [1, 2, 3], true, true, 16⟩) = some (conn, submitted) ∧
      conn.calls = [.sendfile [1, 2, 3] (.count 1), .sendfile [2, 3] (.count 2)] ++ [.shutdownWrite] ∧
      ([1, 2, 3] : List UInt8).Perm submitted.flatten := by
  obtain ⟨⟨conn, submitted⟩, reached, calls⟩ := Option.map_eq_some_iff.mp
    (show (recorded.run [.sendFile 0 0 3 (.count 1), .swapFunctors, .runFunctor (.count 2), .endFunctors, .shutdown]
        (established (⟨7, fun _ => 0, fun _ => [1, 2, 3], true, true, 16⟩ : Setup UInt8))).map
          (fun state => state.1.calls) =
        some ([.sendfile [1, 2, 3] (.count 1), .sendfile [2, 3] (.count 2)] ++ [.shutdownWrite]) by decide +kernel)
  refine ⟨conn, submitted, reached, calls, ?_⟩
  refine (graceful_shutdown _ _ (by decide) ?_ conn submitted reached (by decide +kernel)).2 _ _ calls
  intro fileDescriptor offset count result member
  simp only [List.mem_cons, LoopCall.sendFile.injEq, reduceCtorEq, List.not_mem_nil, or_false] at member
  obtain ⟨rfl, rfl, rfl, -⟩ := member
  decide

/-- A `shutdown` after a partial `sendfile` shuts the write side before the rest of
the file, which the queued functor then gives up. -/
theorem shutdown_truncates_sendFile :
    ∃ conn : TcpConnection UInt8, ∃ submitted,
      recorded.run [.sendFile 0 0 3 (.count 1), .shutdown, .swapFunctors, .runFunctor (.count 0), .endFunctors]
        (established ⟨7, fun _ => 0, fun _ => [1, 2, 3], true, true, 16⟩) = some (conn, submitted) ∧
      submitted = [[1, 2, 3]] ∧ conn.calls = [.sendfile [1, 2, 3] (.count 1), .shutdownWrite] ∧
      conn.outputBuffer_.readable = [] ∧ conn.loop_.waiting = [] := by
  obtain ⟨⟨conn, submitted⟩, reached, same⟩ := Option.map_eq_some_iff.mp
    (show (recorded.run [.sendFile 0 0 3 (.count 1), .shutdown, .swapFunctors, .runFunctor (.count 0), .endFunctors]
        (established (⟨7, fun _ => 0, fun _ => [1, 2, 3], true, true, 16⟩ : Setup UInt8))).map
          (fun state => (state.2, state.1.calls, state.1.outputBuffer_.readable, state.1.loop_.waiting)) =
        some ([[1, 2, 3]], [.sendfile [1, 2, 3] (.count 1), .shutdownWrite], [], []) by decide +kernel)
  simp only [Prod.mk.injEq] at same
  exact ⟨conn, submitted, reached, same⟩

end LoopThread
end Webserver
