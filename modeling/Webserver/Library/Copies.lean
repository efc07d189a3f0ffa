import Mathlib.Data.Fintype.Basic
import Mathlib.Logic.Function.Basic
import Webserver.Library.Machine

/-! A machine in several copies. Each event reaches some of them, which all have to take
it. A run of the copies is a run of each on the events that reach it, so that the order
of events for different copies does not matter. -/

namespace Webserver.Library

universe u v w

namespace Machine
variable {σ : Type u} {ε : Type v} {ι : Type w} {machine : Machine σ ε} {reaches : ι → ε → Bool}

/-- One copy, which an event may pass by. -/
def move (machine : Machine σ ε) (reaches : ι → ε → Bool) (event : ε) (i : ι) (state : σ) : Option σ :=
  if reaches i event then machine.step event state else some state

def copies [Fintype ι] (machine : Machine σ ε) (reaches : ι → ε → Bool) : Machine (ι → σ) ε where
  step event states :=
    if all : ∀ i, (machine.move reaches event i (states i)).isSome then
      some fun i => (machine.move reaches event i (states i)).get (all i)
    else none

theorem run_filter_cons (event : ε) (events : List ε) (i : ι) (start final : σ) :
    machine.run ((event :: events).filter (reaches i)) start = some final ↔
      ∃ next, machine.move reaches event i start = some next ∧ machine.run (events.filter (reaches i)) next = some final := by
  rw [List.filter_cons, move]
  split
  · rw [run_cons]
  · simp

variable [Fintype ι]

theorem copies_step {event : ε} {before after : ι → σ} :
    (machine.copies reaches).step event before = some after ↔
      ∀ i, machine.move reaches event i (before i) = some (after i) := by
  unfold copies
  dsimp only
  split
  next all =>
    constructor
    · intro same i
      cases same
      exact (Option.some_get (all i)).symm
    · intro moves
      exact congrArg some (funext fun i => Option.get_of_eq_some _ (moves i))
  next missing => exact iff_of_false (by simp) fun moves => missing fun i => by rw [moves i]; rfl

/-- Only one copy is reached, which then decides whether the step is made. -/
theorem copies_step_one [DecidableEq ι] {event : ε} {i : ι} (one : ∀ j, reaches j event = true ↔ j = i) (states : ι → σ) :
    (machine.copies reaches).step event states = (machine.step event (states i)).map (Function.update states i) := by
  ext after
  rw [copies_step, Option.map_eq_some_iff]
  constructor
  · intro moves
    have moved := moves i
    rw [move, if_pos ((one i).mpr rfl)] at moved
    refine ⟨after i, moved, funext fun j => ?_⟩
    by_cases here : j = i
    · rw [here, Function.update_self]
    · have passed := moves j
      rw [move, if_neg fun reached => here ((one j).mp reached)] at passed
      rw [Function.update_of_ne here, Option.some.inj passed]
  · intro ⟨next, moved, same⟩ j
    cases same
    by_cases here : j = i
    · subst here
      rw [move, if_pos ((one j).mpr rfl), Function.update_self, moved]
    · rw [move, if_neg fun reached => here ((one j).mp reached), Function.update_of_ne here]

theorem copies_run {events : List ε} {start final : ι → σ} :
    (machine.copies reaches).run events start = some final ↔
      ∀ i, machine.run (events.filter (reaches i)) (start i) = some (final i) := by
  induction events generalizing start with
  | nil => simp [funext_iff]
  | cons event events ih =>
    simp only [run_cons, run_filter_cons, copies_step, ih]
    constructor
    · intro ⟨next, moves, rest⟩ i
      exact ⟨next i, moves i, rest i⟩
    · intro each
      obtain ⟨next, both⟩ := Classical.skolem.mp each
      exact ⟨next, fun i => (both i).1, fun i => (both i).2⟩

/-- The same events for each copy, in whatever order altogether. -/
theorem copies_run_congr {events others : List ε} (same : ∀ i, events.filter (reaches i) = others.filter (reaches i))
    (start : ι → σ) : (machine.copies reaches).run events start = (machine.copies reaches).run others start := by
  ext final
  simp only [copies_run, same]

end Machine
end Webserver.Library
