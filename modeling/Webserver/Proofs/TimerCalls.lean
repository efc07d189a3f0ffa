import Webserver.LoopTimers
import Webserver.Proofs.TimerSteps

/-! No loop has a `TimerQueue`, and so no timer call reaches one. -/

namespace Webserver.LoopTimers
open Library

universe u
variable {κ : Type u} {clock : Nat → Int}

/-- The call finds a queue, and its timer is there once afterwards. -/
def Serves (clock : Nat → Int) (loop : LoopTimers κ) (thread : Option Nat) (now : Int) (address : TimerPtr)
    (call : TimerCall κ) : Prop :=
  ∃ queue after served, loop.timerQueue_ = some queue ∧ loop.request clock thread now address call = some after ∧
    after.timerQueue_ = some served ∧ served.heap address = some (newTimer now address call).timer ∧
    (served.owned []).count address = 1

/-- With a live queue, a call on the loop's own thread would register its timer. -/
theorem serves_of_live {loop : LoopTimers κ} {queue : TimerQueue κ} (live : loop.timerQueue_ = some queue)
    (keyed : queue.Keyed []) {now : Int} {address : TimerPtr} (free : queue.Free address) (call : TimerCall κ) :
    Serves clock loop none now address call := by
  have same : (newTimer now address call).address = address := by
    cases call <;> rfl
  have added : queue.addTimerHere clock (newTimer now address call) =
      some ((queue.allocated (newTimer now address call)).arrived clock (newTimer now address call).entry) :=
    TimerQueue.addTimerHere_eq_some.mpr ⟨by rwa [same], rfl⟩
  obtain ⟨afterKeyed, adds⟩ := TimerQueue.addTimerHere_adds keyed added
  have made := (adds.made _ List.mem_cons_self).2
  rw [same] at made
  refine ⟨queue, { loop with timerQueue_ := some _ }, _, live, ?_, rfl, made, ?_⟩
  · simp [request, onQueue, live, TimerQueue.step, added]
  · apply List.count_eq_one_of_mem afterKeyed.once
    have inside := List.mem_map_of_mem (f := TimerQueue.Entry.second) (adds.entries.mem_iff.mpr List.mem_cons_self)
    rw [show (newTimer now address call).entry.second = address from same] at inside
    exact List.mem_append_left _ inside

private theorem onQueue_null {loop : LoopTimers κ} (null : loop.timerQueue_ = none) (event : TimerEvent κ) :
    loop.onQueue clock event = none := by
  simp [onQueue, null]

private theorem request_null {loop : LoopTimers κ} (null : loop.timerQueue_ = none) (thread : Option Nat) (now : Int)
    (address : TimerPtr) (call : TimerCall κ) : loop.request clock thread now address call = none := by
  unfold request
  split
  · exact onQueue_null null _
  · rw [onQueue_null null, Option.bind_none]

theorem step_null {event : LoopTimersEvent κ} {before after : LoopTimers κ} (null : before.timerQueue_ = none)
    (stepped : step clock event before = some after) : after.timerQueue_ = none := by
  cases event with
  | loop event =>
    obtain ⟨run, _, moved⟩ := Option.bind_eq_some_iff.mp stepped
    split at moved
    · rw [@onQueue_null κ clock { before with run } null] at moved
      cases moved
    · cases moved
      exact null
  | fire =>
    rw [step, onQueue_null null] at stepped
    cases stepped
  | poll =>
    rw [step, onQueue_null null] at stepped
    cases stepped
  | handleRead calls =>
    rw [step, onQueue_null null] at stepped
    cases stepped
  | request thread now address call =>
    rw [step, request_null null] at stepped
    cases stepped

/-- In every reachable state of a loop every timer call, on any thread, goes through a null pointer. -/
theorem timer_calls_unserved {events : List (LoopTimersEvent κ)} {loop : LoopTimers κ}
    (reached : (machine clock).run events new = some loop) (thread : Option Nat) (now : Int) (address : TimerPtr)
    (call : TimerCall κ) :
    loop.timerQueue_ = none ∧ loop.request clock thread now address call = none ∧
      ¬ Serves clock loop thread now address call := by
  have preserved : ∀ event (before after : LoopTimers κ), before.timerQueue_ = none →
      (machine clock).step event before = some after → after.timerQueue_ = none := fun _ _ _ => step_null
  have null : loop.timerQueue_ = none := Machine.run_preserves preserved reached rfl
  refine ⟨null, request_null null _ _ _ _, ?_⟩
  intro ⟨queue, _, _, live, _⟩
  rw [null] at live
  cases live

/-- While the loop runs a functor, another thread calls `runAfter`. -/
theorem timer_calls_unserved_running : ∃ loop : LoopTimers Nat,
    (machine fun _ => 0).run [.loop (.push 0 (.user 1)), .loop .enter, .loop .reset, .loop .test, .loop (.wakeup 0),
      .loop (.poll true), .loop .handleRead, .loop .swap] new = some loop ∧
    loop.request (fun _ => 0) (some 1) 0 16 (.runAfter ⟨true, 1000000⟩ 7) = none := by
  have computed : ((machine fun _ => 0).run [.loop (.push 0 (.user 1)),
    .loop .enter, .loop .reset, .loop .test, .loop (.wakeup 0), .loop (.poll true), .loop .handleRead, .loop .swap]
    (new : LoopTimers Nat)).map (fun loop => loop.run.phase) = some .running := by
    decide +kernel
  obtain ⟨loop, reached, _⟩ := Option.map_eq_some_iff.mp computed
  exact ⟨loop, reached, (timer_calls_unserved reached _ _ _ _).2.1⟩

/-- `runAfter` on a new loop, from the thread that built it. -/
theorem runAfter_unserved :
    ¬ Serves (fun _ => 0) (new : LoopTimers Nat) none 0 16 (.runAfter ⟨true, 1000000⟩ 7) := by
  intro ⟨queue, _, _, live, _⟩
  cases live

end Webserver.LoopTimers
