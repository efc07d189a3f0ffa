import Mathlib.Data.List.Basic

/-! A stream fed by whole blocks and by transfers that continue later. A transfer
that is not finished waits at the end of a queue; the first of the queue resumes.
No byte is lost in this way, but the order is kept only while a single transfer
waits and nothing else is fed. -/

namespace Webserver.Library

universe u

structure Feed (α : Type u) where
  delivered : List α
  queued : List (List α)

namespace Feed
variable {α : Type u}

/-- One step, with the bytes that it submits. -/
inductive Step : Feed α → List α → Feed α → Prop where
  | idle {feed : Feed α} : Step feed [] feed
  | direct {feed : Feed α} (block : List α) : Step feed block ⟨feed.delivered ++ block, feed.queued⟩
  | start {feed : Feed α} (sent rest : List α) (unfinished : rest ≠ []) :
      Step feed (sent ++ rest) ⟨feed.delivered ++ sent, feed.queued ++ [rest]⟩
  | resume (delivered sent rest : List α) (others : List (List α)) :
      Step ⟨delivered, (sent ++ rest) :: others⟩ [] ⟨delivered ++ sent, others ++ [rest]⟩
  | finish (delivered last : List α) (others : List (List α)) :
      Step ⟨delivered, last :: others⟩ [] ⟨delivered ++ last, others⟩

/-- Everything submitted: what was delivered and what the queued transfers hold. -/
def total (feed : Feed α) : List α := feed.delivered ++ feed.queued.flatten

/-- Whatever the order of the steps, nothing is lost and nothing is made up. -/
theorem Step.conserves {before after : Feed α} {given : List α} (step : Step before given after) :
    after.total.Perm (before.total ++ given) := by
  cases step with
  | idle => simp
  | direct =>
    simp only [total, List.append_assoc]
    exact List.perm_append_comm.append_left _
  | start sent rest =>
    simp only [total, List.flatten_append, List.flatten_singleton, List.append_assoc]
    apply List.Perm.append_left
    rw [← List.append_assoc, ← List.append_assoc]
    exact List.perm_append_comm.append_right rest
  | resume delivered sent rest others =>
    simp only [total, List.flatten_append, List.flatten_nil, List.flatten_cons, List.append_assoc, List.append_nil]
    exact (List.perm_append_comm.append_left sent).append_left delivered
  | finish => simp [total]

/-- With one transfer waiting and nothing fed beside it, the order is kept too. -/
theorem Step.ordered {before after : Feed α} {given : List α} (step : Step before given after)
    (single : before.queued.length ≤ 1) (apart : given = [] ∨ before.queued = []) :
    after.queued.length ≤ 1 ∧ after.total = before.total ++ given := by
  cases step with
  | idle => simp [single]
  | direct =>
    refine ⟨single, ?_⟩
    rcases apart with nothing | alone
    · simp [total, nothing]
    · simp [total, alone]
  | start sent rest unfinished =>
    have alone : before.queued = [] := by
      rcases apart with nothing | alone
      · exact absurd (List.append_eq_nil_iff.mp nothing).2 unfinished
      · exact alone
    simp [total, alone]
  | resume delivered sent rest others =>
    have alone : others = [] := List.eq_nil_of_length_eq_zero (by simp only [List.length_cons] at single; omega)
    simp [total, alone]
  | finish delivered last others =>
    have alone : others = [] := List.eq_nil_of_length_eq_zero (by simp only [List.length_cons] at single; omega)
    simp [total, alone]

end Feed
end Webserver.Library
