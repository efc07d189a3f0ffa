import Webserver.Proofs.LoopRunStep

/-! Delivery of the queued functors: what was executed, what is left of the batch
and what is pending are together all that was ever queued, in that order. -/

namespace Webserver.LoopRun
open Library

universe u
variable {φ : Type u}

/-- The functors in the order of their pushes, and in the order of their executions. -/
structure Delivery (φ : Type u) where
  queued : List φ
  executed : List φ

def Delivery.note (event : LoopEvent φ) (run : LoopRun φ) (delivery : Delivery φ) : Delivery φ :=
  match event with
  | .push _ cb => { delivery with queued := delivery.queued ++ [cb] }
  | .queue cb => { delivery with queued := delivery.queued ++ [cb] }
  | .call => { delivery with executed := delivery.executed ++ run.loop.functors.head?.toList }
  | _ => delivery

def delivering : Machine (LoopRun φ × Delivery φ) (LoopEvent φ) := machine.watch Delivery.note

@[simp]
private theorem wakeup_waiting (loop : EventLoop φ) : loop.wakeup.waiting = loop.waiting := by
  unfold EventLoop.wakeup
  split <;> rfl

@[simp]
private theorem wakeup_functors (loop : EventLoop φ) : loop.wakeup.functors = loop.functors := by
  unfold EventLoop.wakeup
  split <;> rfl

structure Delivered (run : LoopRun φ) (delivery : Delivery φ) : Prop where
  conserved : delivery.executed ++ run.loop.waiting = delivery.queued
  batch : run.phase ≠ .running → run.loop.functors = []

theorem step_delivered {event : LoopEvent φ} {before after : LoopRun φ} {delivery : Delivery φ}
    (delivered : Delivered before delivery) (stepped : step event before = some after) :
    Delivered after (delivery.note event before) := by
  obtain ⟨conserved, batch⟩ := delivered
  cases step_cases stepped with
  | pushes thread cb =>
    refine ⟨?_, batch⟩
    simp only [Delivery.note, ← conserved]
    simp [setOther, EventLoop.pushFunctor, EventLoop.waiting]
  | quits => exact ⟨conserved, batch⟩
  | wakes => exact ⟨by simpa [setOther, Delivery.note] using conserved, by simpa [setOther] using batch⟩
  | writes => exact ⟨by simpa [Delivery.note] using conserved, by simpa using batch⟩
  | enters _ phase => exact ⟨conserved, fun _ => batch (by simp [phase])⟩
  | resets _ phase => exact ⟨conserved, fun _ => batch (by simp [phase])⟩
  | leaves _ phase => exact ⟨conserved, fun _ => batch (by simp [phase])⟩
  | stays _ phase => exact ⟨conserved, fun _ => batch (by simp [phase])⟩
  | polls reported _ phase => exact ⟨conserved, fun _ => batch (by simp [phase])⟩
  | reads _ phase => exact ⟨conserved, fun _ => batch (by simp [phase])⟩
  | queues cb =>
    refine ⟨?_, batch⟩
    simp only [Delivery.note, ← conserved]
    simp [queueHere, EventLoop.pushFunctor, EventLoop.waiting]
  | quitsHere => exact ⟨conserved, batch⟩
  | swaps _ phase =>
    have empty := batch (by simp [phase])
    refine ⟨?_, fun other => absurd rfl other⟩
    simpa [Delivery.note, EventLoop.waiting, EventLoop.swapFunctors, empty] using conserved
  | calls functor rest _ phase first =>
    refine ⟨?_, fun other => absurd phase other⟩
    simp only [Delivery.note, first, ← conserved]
    simp [EventLoop.waiting, first]
  | finishes _ _ done => exact ⟨conserved, fun _ => done⟩

private theorem delivering_delivered {events : List (LoopEvent φ)} {start final : LoopRun φ × Delivery φ}
    (reached : delivering.run events start = some final) (delivered : Delivered start.1 start.2) :
    Delivered final.1 final.2 := by
  have preserved : ∀ event (before after : LoopRun φ × Delivery φ), Delivered before.1 before.2 →
      delivering.step event before = some after → Delivered after.1 after.2 := by
    intro event before after delivered stepped
    obtain ⟨stepped, noted⟩ := Machine.watch_step.mp stepped
    rw [noted]
    exact step_delivered delivered stepped
  exact Machine.run_preserves preserved reached delivered

/-- In every state of every interleaving, the functors executed, the rest of the batch and
the pending ones are the functors queued, in the order of their pushes. -/
theorem functors_delivered {events : List (LoopEvent φ)} {final : LoopRun φ} {delivery : Delivery φ}
    (reached : delivering.run events (new, ⟨[], []⟩) = some (final, delivery)) :
    delivery.executed ++ final.loop.functors ++ final.loop.pendingFunctors_ = delivery.queued ∧
      delivery.executed <+: delivery.queued ∧ (delivery.queued.Nodup → delivery.executed.Nodup) := by
  have delivered := delivering_delivered reached ⟨rfl, fun _ => rfl⟩
  have conserved : delivery.executed ++ (final.loop.functors ++ final.loop.pendingFunctors_) = delivery.queued :=
    delivered.conserved
  have prior : delivery.executed <+: delivery.queued := conserved ▸ List.prefix_append _ _
  exact ⟨(List.append_assoc _ _ _).trans conserved, prior, fun once => prior.sublist.nodup once⟩

/-- Functor 1 of another thread runs and queues 2, while 3 comes from a third thread. -/
theorem functors_delivered_nested : ∃ final : LoopRun Nat, ∃ delivery,
    delivering.run [.push 0 1, .enter, .reset, .test, .wakeup 0, .poll true, .handleRead, .swap, .call, .push 1 3,
      .queue 2, .write] (new, ⟨[], []⟩) = some (final, delivery) ∧
    delivery.executed = [1] ∧ final.loop.pendingFunctors_ = [3, 2] ∧ delivery.queued = [1, 3, 2] ∧
    delivery.executed.Nodup := by
  have computed : (delivering.run
    [.push 0 1, .enter, .reset, .test, .wakeup 0, .poll true, .handleRead, .swap, .call, .push 1 3, .queue 2, .write]
    ((new : LoopRun Nat), ⟨[], []⟩)).map (fun state =>
      (state.2.executed, state.1.loop.pendingFunctors_, state.2.queued)) = some ([1], [3, 2], [1, 3, 2]) := by
    decide +kernel
  obtain ⟨⟨final, delivery⟩, reached, seen⟩ := Option.map_eq_some_iff.mp computed
  simp only [Prod.mk.injEq] at seen
  obtain ⟨_, _, once⟩ := functors_delivered reached
  exact ⟨final, delivery, reached, seen.1, seen.2.1, seen.2.2, once (by rw [seen.2.2]; decide)⟩

end Webserver.LoopRun
