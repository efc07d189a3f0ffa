import Mathlib.Init

/-! Partial step functions whose labels carry every choice of the environment.
A run is its list of labels: a concrete run is evaluated, and a property of all
runs is an induction over lists. -/

namespace Webserver.Library

universe u v w w'

/-- A label that is not enabled in a state has no successor there. -/
structure Machine (σ : Type u) (ε : Type v) where
  step : ε → σ → Option σ

namespace Machine
variable {σ : Type u} {ε : Type v} {η : Type w}

def run (machine : Machine σ ε) : List ε → σ → Option σ
  | [], state => some state
  | event :: events, state => (machine.step event state).bind (machine.run events)

/-- Every step of the run is taken from a state where `good` allows it. -/
def Along (machine : Machine σ ε) (good : ε → σ → Prop) : List ε → σ → Prop
  | [], _ => True
  | event :: events, state => good event state ∧
      ∀ next, machine.step event state = some next → machine.Along good events next

instance Along.decidable (machine : Machine σ ε) (good : ε → σ → Prop) [∀ event state, Decidable (good event state)] :
    (events : List ε) → (start : σ) → Decidable (machine.Along good events start)
  | [], _ => isTrue trivial
  | event :: events, start =>
    match reached : machine.step event start with
    | none => decidable_of_iff (good event start) (by simp [Along, reached])
    | some next =>
      have := Along.decidable machine good events next
      decidable_of_iff (good event start ∧ machine.Along good events next) (by simp [Along, reached])

@[simp]
theorem run_nil (machine : Machine σ ε) (state : σ) : machine.run [] state = some state := rfl

theorem run_cons (machine : Machine σ ε) (event : ε) (events : List ε) (start final : σ) :
    machine.run (event :: events) start = some final ↔
      ∃ next, machine.step event start = some next ∧ machine.run events next = some final := by
  simp only [run, Option.bind_eq_some_iff]

theorem run_append (machine : Machine σ ε) (first rest : List ε) (start final : σ) :
    machine.run (first ++ rest) start = some final ↔
      ∃ middle, machine.run first start = some middle ∧ machine.run rest middle = some final := by
  induction first generalizing start with
  | nil => simp
  | cons event events ih =>
    simp only [List.cons_append, run_cons, ih]
    constructor
    · intro ⟨next, stepped, middle, before, after⟩
      exact ⟨middle, ⟨next, stepped, before⟩, after⟩
    · intro ⟨middle, ⟨next, stepped, before⟩, after⟩
      exact ⟨next, stepped, middle, before, after⟩

theorem Along.and {machine : Machine σ ε} {good other : ε → σ → Prop} {events : List ε} {start : σ}
    (first : machine.Along good events start) (second : machine.Along other events start) :
    machine.Along (fun event state => good event state ∧ other event state) events start := by
  induction events generalizing start with
  | nil => trivial
  | cons event events ih =>
    exact ⟨⟨first.1, second.1⟩, fun next stepped => ih (first.2 next stepped) (second.2 next stepped)⟩

theorem along_append {machine : Machine σ ε} {good : ε → σ → Prop} {first rest : List ε} {start : σ} :
    machine.Along good (first ++ rest) start ↔
      machine.Along good first start ∧ ∀ middle, machine.run first start = some middle → machine.Along good rest middle := by
  induction first generalizing start with
  | nil => simp [Along]
  | cons event events ih =>
    simp only [List.cons_append, Along, run_cons, ih]
    constructor
    · intro ⟨now, later⟩
      exact ⟨⟨now, fun next stepped => (later next stepped).1⟩,
        fun middle ⟨next, stepped, reached⟩ => (later next stepped).2 middle reached⟩
    · intro ⟨⟨now, later⟩, ends⟩
      exact ⟨now, fun next stepped => ⟨later next stepped, fun middle reached => ends middle ⟨next, stepped, reached⟩⟩⟩

theorem along_of_forall {machine : Machine σ ε} {good : ε → Prop} {events : List ε}
    (all : ∀ event ∈ events, good event) (start : σ) : machine.Along (fun event _ => good event) events start := by
  induction events generalizing start with
  | nil => trivial
  | cons event events ih =>
    exact ⟨all event (by simp), fun next _ => ih (fun other member => all other (by simp [member])) next⟩

/-- A step has one successor at most: what holds of all holds of it. -/
theorem forall_next {machine : Machine σ ε} {event : ε} {before after : σ} {good : σ → Prop}
    (stepped : machine.step event before = some after) :
    (∀ next, machine.step event before = some next → good next) ↔ good after := by
  simp only [stepped, Option.some.injEq, forall_eq']

/-- The induction over runs: what one allowed step preserves, a run preserves. -/
theorem run_invariant {machine : Machine σ ε} {good : ε → σ → Prop} {invariant : σ → Prop}
    (preserved : ∀ event before after, good event before → invariant before →
      machine.step event before = some after → invariant after)
    {events : List ε} {start final : σ} (reached : machine.run events start = some final)
    (along : machine.Along good events start) (initial : invariant start) : invariant final := by
  induction events generalizing start with
  | nil => cases reached; exact initial
  | cons event events ih =>
    obtain ⟨next, stepped, later⟩ := (machine.run_cons _ _ _ _).mp reached
    exact ih later (along.2 next stepped) (preserved event start next along.1 initial stepped)

/-- What every step preserves, a run preserves. -/
theorem run_preserves {machine : Machine σ ε} {invariant : σ → Prop}
    (preserved : ∀ event before after, invariant before → machine.step event before = some after → invariant after)
    {events : List ε} {start final : σ} (reached : machine.run events start = some final) (initial : invariant start) :
    invariant final :=
  run_invariant (fun event before after _ => preserved event before after) reached (along_of_forall (fun _ _ => trivial) start)
    initial

/-- What an invariant allows is allowed all along a run. -/
theorem along_of_invariant {machine : Machine σ ε} {good : ε → σ → Prop} {invariant : σ → Prop}
    (allowed : ∀ event before, invariant before → good event before)
    (preserved : ∀ event before after, invariant before → machine.step event before = some after → invariant after)
    (events : List ε) {start : σ} (initial : invariant start) : machine.Along good events start := by
  induction events generalizing start with
  | nil => trivial
  | cons event events ih =>
    exact ⟨allowed event start initial, fun next stepped => ih (preserved event start next initial stepped)⟩

/-- Two conditions that agree on every step of a run that stays where `allowed`
does, for as long as the first keeps the invariant. -/
theorem along_iff_within {machine : Machine σ ε} {allowed good other : ε → σ → Prop} {invariant : σ → Prop}
    (agree : ∀ event before after, allowed event before → invariant before → machine.step event before = some after →
      (good event before ↔ other event before))
    (preserved : ∀ event before after, allowed event before → good event before → invariant before →
      machine.step event before = some after → invariant after)
    {events : List ε} {start final : σ} (reached : machine.run events start = some final)
    (within : machine.Along allowed events start) (initial : invariant start) :
    machine.Along good events start ↔ machine.Along other events start := by
  induction events generalizing start with
  | nil => exact Iff.rfl
  | cons event events ih =>
    obtain ⟨next, stepped, later⟩ := (machine.run_cons _ _ _ _).mp reached
    have same := agree event start next within.1 initial stepped
    simp only [Along, stepped, Option.some.injEq, forall_eq', same]
    apply and_congr_right
    intro kept
    exact ih later (within.2 next stepped) (preserved event start next within.1 (same.mpr kept) initial stepped)

/-- Two conditions that agree on every step, for as long as the first keeps the invariant. -/
theorem along_iff {machine : Machine σ ε} {good other : ε → σ → Prop} {invariant : σ → Prop}
    (agree : ∀ event before after, invariant before → machine.step event before = some after →
      (good event before ↔ other event before))
    (preserved : ∀ event before after, good event before → invariant before →
      machine.step event before = some after → invariant after)
    {events : List ε} {start final : σ} (reached : machine.run events start = some final) (initial : invariant start) :
    machine.Along good events start ↔ machine.Along other events start :=
  along_iff_within (fun event before after _ => agree event before after)
    (fun event before after _ => preserved event before after) reached (along_of_forall (fun _ _ => trivial) start) initial

/-- A machine refines total operations on abstract values when each step keeps
the two related: then every run does. -/
theorem run_refines {τ : Type w} {machine : Machine σ ε} {meaning : τ → ε → τ} {related : σ → τ → Prop}
    (refines : ∀ event before after value, related before value →
      machine.step event before = some after → related after (meaning value event))
    {events : List ε} {start final : σ} {value : τ} (reached : machine.run events start = some final)
    (initial : related start value) : related final (events.foldl meaning value) := by
  induction events generalizing start value with
  | nil => cases reached; exact initial
  | cons event events ih =>
    obtain ⟨next, stepped, later⟩ := (machine.run_cons _ _ _ _).mp reached
    exact ih later (refines event start next value initial stepped)

/-- The same where related values enable every event that `good` allows: then the run exists. -/
theorem run_refines_along {τ : Type w} {machine : Machine σ ε} {good : ε → σ → Prop} {meaning : τ → ε → τ}
    {related : σ → τ → Prop}
    (refines : ∀ event before value, good event before → related before value →
      ∃ after, machine.step event before = some after ∧ related after (meaning value event))
    {events : List ε} {start : σ} {value : τ} (along : machine.Along good events start) (initial : related start value) :
    ∃ final, machine.run events start = some final ∧ related final (events.foldl meaning value) := by
  induction events generalizing start value with
  | nil => exact ⟨start, rfl, initial⟩
  | cons event events ih =>
    obtain ⟨next, stepped, held⟩ := refines event start value along.1 initial
    obtain ⟨final, later, done⟩ := ih (along.2 next stepped) held
    exact ⟨final, (machine.run_cons _ _ _ _).mpr ⟨next, stepped, later⟩, done⟩

/-- Some run leads from one state to the other by steps that `good` allows. -/
def Leads (machine : Machine σ ε) (good : ε → σ → Prop) (start final : σ) : Prop :=
  ∃ events, machine.run events start = some final ∧ machine.Along good events start

theorem leads_refl (machine : Machine σ ε) (good : ε → σ → Prop) (start : σ) : machine.Leads good start start :=
  ⟨[], rfl, trivial⟩

theorem Leads.head {machine : Machine σ ε} {good : ε → σ → Prop} {event : ε} {start next final : σ} (allowed : good event start)
    (stepped : machine.step event start = some next) (later : machine.Leads good next final) :
    machine.Leads good start final := by
  obtain ⟨events, reached, along⟩ := later
  exact ⟨event :: events, (machine.run_cons _ _ _ _).mpr ⟨next, stepped, reached⟩, allowed, (forall_next stepped).mpr along⟩

theorem Leads.trans {machine : Machine σ ε} {good : ε → σ → Prop} {start middle final : σ}
    (first : machine.Leads good start middle) (second : machine.Leads good middle final) : machine.Leads good start final := by
  obtain ⟨events, reached, along⟩ := first
  induction events generalizing start with
  | nil =>
    cases reached
    exact second
  | cons event events ih =>
    obtain ⟨next, stepped, rest⟩ := (machine.run_cons _ _ _ _).mp reached
    exact (ih rest (along.2 next stepped)).head along.1 stepped

/-- Where an invariant enables every event, every list of events is a run. -/
theorem run_enabled {machine : Machine σ ε} {invariant : σ → Prop}
    (enabled : ∀ event before, invariant before → ∃ after, machine.step event before = some after ∧ invariant after)
    (events : List ε) {start : σ} (initial : invariant start) :
    ∃ final, machine.run events start = some final ∧ invariant final := by
  induction events generalizing start with
  | nil => exact ⟨start, rfl, initial⟩
  | cons event events ih =>
    obtain ⟨next, stepped, held⟩ := enabled event start initial
    obtain ⟨final, later, done⟩ := ih held
    exact ⟨final, (machine.run_cons _ _ _ _).mpr ⟨next, stepped, later⟩, done⟩

/-- When each step is matched by a run of another machine, each run is. -/
theorem run_simulates {τ : Type w} {φ : Type w'} {machine : Machine σ ε} {other : Machine τ φ} {translate : ε → List φ}
    {related : σ → τ → Prop}
    (simulates : ∀ event before after value, related before value → machine.step event before = some after →
      ∃ next, other.run (translate event) value = some next ∧ related after next)
    {events : List ε} {start final : σ} {value : τ} (reached : machine.run events start = some final)
    (initial : related start value) :
    ∃ last, other.run (events.flatMap translate) value = some last ∧ related final last := by
  induction events generalizing start value with
  | nil => cases reached; exact ⟨value, rfl, initial⟩
  | cons event events ih =>
    obtain ⟨next, stepped, later⟩ := (machine.run_cons _ _ _ _).mp reached
    obtain ⟨matched, first, still⟩ := simulates event start next value initial stepped
    obtain ⟨last, rest, done⟩ := ih later still
    exact ⟨last, (other.run_append _ _ _ _).mpr ⟨matched, first, rest⟩, done⟩

/-- The same where the other machine takes the same steps. -/
theorem run_matched {τ : Type w} {machine : Machine σ ε} {other : Machine τ ε} {related : σ → τ → Prop}
    (matched : ∀ event before after value, related before value → machine.step event before = some after →
      ∃ next, other.step event value = some next ∧ related after next)
    {events : List ε} {start final : σ} {value : τ} (reached : machine.run events start = some final)
    (initial : related start value) : ∃ last, other.run events value = some last ∧ related final last := by
  have simulates : ∀ event before after value, related before value → machine.step event before = some after →
      ∃ next, other.run [event] value = some next ∧ related after next := by
    intro event before after value held stepped
    obtain ⟨next, one, still⟩ := matched event before after value held stepped
    exact ⟨next, (other.run_cons _ _ _ _).mpr ⟨next, one, rfl⟩, still⟩
  have along := run_simulates simulates reached initial
  rwa [List.flatMap_singleton'] at along

/-- Related results are processed further alike. -/
theorem rel_bind {α : Type u} {β : Type v} {γ : Type w} {δ : Type w'} {related : α → β → Prop} {later : γ → δ → Prop}
    {first : Option α} {second : Option β} (rel : first.Rel related second) {f : α → Option γ} {g : β → Option δ}
    (each : ∀ a b, related a b → (f a).Rel later (g b)) : (first.bind f).Rel later (second.bind g) := by
  cases rel with
  | some same => exact each _ _ same
  | none => exact .none

theorem rel_map {α : Type u} {β : Type v} {γ : Type w} {δ : Type w'} {related : α → β → Prop} {later : γ → δ → Prop}
    {first : Option α} {second : Option β} (rel : first.Rel related second) {f : α → γ} {g : β → δ}
    (each : ∀ a b, related a b → later (f a) (g b)) : (first.map f).Rel later (second.map g) := by
  cases rel with
  | some same => exact .some (each _ _ same)
  | none => exact .none

/-- Two machines whose steps fail together and keep states related run alike. -/
theorem run_bisimulates {τ : Type w} {φ : Type w'} {machine : Machine σ ε} {other : Machine τ φ} {translate : ε → φ}
    {related : σ → τ → Prop}
    (matched : ∀ event before value, related before value →
      (machine.step event before).Rel related (other.step (translate event) value))
    (events : List ε) {start : σ} {value : τ} (initial : related start value) :
    (machine.run events start).Rel related (other.run (events.map translate) value) := by
  induction events generalizing start value with
  | nil => exact .some initial
  | cons event events ih => exact rel_bind (matched event start value initial) fun _ _ still => ih still

/-- A machine on images of states runs as the one on the states does. -/
theorem run_map {τ : Type w} {machine : Machine σ ε} {image : Machine τ ε} {f : σ → τ}
    (mapped : ∀ event state, image.step event (f state) = (machine.step event state).map f) (events : List ε) (start : σ) :
    image.run events (f start) = (machine.run events start).map f := by
  induction events generalizing start with
  | nil => rfl
  | cons event events ih =>
    rw [run, run, mapped]
    cases machine.step event start with
    | none => rfl
    | some next => exact ih next

/-- The same machine beside a history that it never reads. -/
def watch (machine : Machine σ ε) (record : ε → σ → η → η) : Machine (σ × η) ε where
  step event state := (machine.step event state.1).map fun next => (next, record event state.1 state.2)

theorem watch_step {machine : Machine σ ε} {record : ε → σ → η → η} {event : ε} {before after : σ × η} :
    (machine.watch record).step event before = some after ↔
      machine.step event before.1 = some after.1 ∧ after.2 = record event before.1 before.2 := by
  simp only [watch, Option.map_eq_some_iff]
  constructor
  · rintro ⟨next, stepped, rfl⟩
    exact ⟨stepped, rfl⟩
  · intro ⟨stepped, recorded⟩
    exact ⟨after.1, stepped, by rw [← recorded]⟩

/-- A history does not change the run. -/
theorem run_of_watch {machine : Machine σ ε} {record : ε → σ → η → η} {events : List ε} {start final : σ × η}
    (reached : (machine.watch record).run events start = some final) : machine.run events start.1 = some final.1 := by
  induction events generalizing start with
  | nil =>
    cases reached
    rfl
  | cons event events ih =>
    obtain ⟨next, stepped, later⟩ := (run_cons _ _ _ _ _).mp reached
    exact (machine.run_cons _ _ _ _).mpr ⟨next.1, (watch_step.mp stepped).1, ih later⟩

end Machine
end Webserver.Library
