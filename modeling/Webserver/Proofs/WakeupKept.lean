import Webserver.Proofs.LoopRunStep

/-! A loop that is about to block has been woken, or will be: a push is followed by its
write, and the counter is reset only before the queue is taken. -/

namespace Webserver.LoopRun
open Library

universe u
variable {φ : Type u}

/-- The counter is up, or a thread is about to raise it. -/
def Wakes (run : LoopRun φ) : Prop :=
  run.loop.wakeupFd_ ≠ 0 ∨ run.waking = true ∨ ∃ thread, run.others thread = .pushed

/-- The loop's own thread queues only inside handlers and functors. -/
def Inside (event : LoopEvent φ) (run : LoopRun φ) : Prop :=
  match event with
  | .queue _ => run.phase ≠ .outside
  | _ => True

instance (event : LoopEvent φ) (run : LoopRun φ) : Decidable (Inside event run) :=
  match event with
  | .queue _ => inferInstanceAs (Decidable (run.phase ≠ .outside))
  | .push .. | .quit _ | .wakeup _ | .enter | .reset | .test | .poll _ | .handleRead | .write | .quitHere | .swap | .call
  | .finish => isTrue trivial

/-- What was pushed before the handlers of a round is taken after them. -/
structure Awake (run : LoopRun φ) : Prop extends Settled run where
  wakes : (∀ woken, run.phase ≠ .handling woken) → run.loop.pendingFunctors_ = [] ∨ run.Wakes

private theorem wakeup_raises (loop : EventLoop φ) : loop.wakeup.wakeupFd_ ≠ 0 := by
  unfold EventLoop.wakeup
  split
  next => exact Nat.succ_ne_zero _
  next full =>
    intro zero
    exact full (by rw [zero]; decide)

theorem Wakes.setOther {run : LoopRun φ} {thread : Nat} (wakes : run.Wakes) (idle : run.others thread = .idle)
    (position : OtherThread) : (run.setOther thread position).Wakes := by
  rcases wakes with raised | waking | ⟨other, pushed⟩
  · exact .inl raised
  · exact .inr (.inl waking)
  · have different : other ≠ thread := by
      rintro rfl
      rw [idle] at pushed
      cases pushed
    refine .inr (.inr ⟨other, ?_⟩)
    simp only [LoopRun.setOther, Function.update_of_ne different]
    exact pushed

theorem step_awake {event : LoopEvent φ} {before after : LoopRun φ} (inside : Inside event before)
    (awake : Awake before) (stepped : step event before = some after) : Awake after := by
  refine ⟨step_settled awake.toSettled stepped, ?_⟩
  have wakes := awake.wakes
  cases step_cases stepped with
  | pushes thread cb =>
    refine fun _ => .inr (.inr (.inr ⟨thread, ?_⟩))
    simp [LoopRun.setOther]
  | quits thread idle =>
    refine fun other => (wakes other).imp id fun held => ?_
    exact @Wakes.setOther φ { before with quit_ := true } thread held idle .quitting
  | wakes => exact fun _ => .inr (.inl (wakeup_raises before.loop))
  | writes => exact fun _ => .inr (.inl (wakeup_raises before.loop))
  | enters _ phase => exact fun _ => wakes (by simp [phase])
  | resets _ phase => exact fun _ => wakes (by simp [phase])
  | leaves _ phase => exact fun _ => wakes (by simp [phase])
  | stays _ phase => exact fun _ => wakes (by simp [phase])
  | polls reported => exact fun other => absurd rfl (other reported)
  | reads => exact fun other => absurd rfl (other false)
  | queues cb still code =>
    intro other
    simp only [userCode] at code
    split at code
    next outside => exact absurd outside inside
    next woken handling => exact absurd handling (other woken)
    next running => exact .inr (.inr (.inl (awake.calling.mpr running)))
    · cases code
  | quitsHere => exact wakes
  | swaps => exact fun _ => .inl rfl
  | calls => exact wakes
  | finishes _ phase => exact fun _ => wakes (by simp [phase])

/-- A loop that is about to block has nothing pending, or will not block for long. -/
theorem no_lost_wakeup {events : List (LoopEvent φ)} {final : LoopRun φ}
    (reached : machine.run events new = some final) (inside : machine.Along Inside events new)
    (blocking : final.phase = .polling) :
    final.loop.pendingFunctors_ = [] ∨ final.loop.wakeupFd_ ≠ 0 ∨ ∃ thread, final.others thread = .pushed := by
  have initial : Awake (new : LoopRun φ) := ⟨new_settled, fun _ => .inl rfl⟩
  have awake := Machine.run_invariant (fun _ _ _ => step_awake) reached inside initial
  apply (awake.wakes (by simp [blocking])).imp id
  rintro (raised | waking | pushed)
  · exact .inl raised
  · have running := awake.waking waking
    rw [blocking] at running
    cases running
  · exact .inr pushed

/-- A functor queues another one, and the loop comes back to `poll` with its counter up. -/
theorem no_lost_wakeup_nested : ∃ final : LoopRun Nat,
    machine.run [.push 0 1, .enter, .reset, .test, .wakeup 0, .poll true, .handleRead, .swap, .call, .queue 2, .write,
      .finish, .test] new = some final ∧ final.loop.pendingFunctors_ = [2] ∧
    (final.loop.pendingFunctors_ = [] ∨ final.loop.wakeupFd_ ≠ 0 ∨ ∃ thread, final.others thread = .pushed) := by
  have computed : (machine.run
    [.push 0 1, .enter, .reset, .test, .wakeup 0, .poll true, .handleRead, .swap, .call, .queue 2, .write, .finish, .test]
    (new : LoopRun Nat)).map (fun run => (run.loop.pendingFunctors_, run.phase)) = some ([2], .polling) := by
    decide +kernel
  obtain ⟨final, reached, seen⟩ := Option.map_eq_some_iff.mp computed
  simp only [Prod.mk.injEq] at seen
  exact ⟨final, reached, seen.1, no_lost_wakeup reached (by decide +kernel) seen.2⟩

end Webserver.LoopRun
