import Webserver.Proofs.LogConservation

/-! What the asynchronous log has written when `threadFunc` returns. `stop` only
clears `running_`: the backend may swap once more, or never again. -/

namespace Webserver.AsyncLogging
open Library

universe u
variable {α : Type u} {bufferSize : Nat}

/-- The bytes that a stopped backend will have passed to `LogFile::append`. -/
def secured (log : AsyncLogging α bufferSize) : List α :=
  if log.backend.collects then log.taken ++ log.pending else log.taken

/-- A stopped log, seen from the `start` of its last phase. What is secured stays so,
and nothing more is secured once the backend will not swap again. -/
structure Stopping (start log : AsyncLogging α bufferSize) : Prop where
  owned : Owned log
  stopped : log.running_ = false
  started : log.backend ≠ .idle
  kept : start.secured <+: log.secured
  decided : start.backend.collects = false → log.backend.collects = false ∧ log.secured = start.secured

theorem Stopping.of_secured {start before after : AsyncLogging α bufferSize} (stopping : Stopping start before)
    (owned : Owned after) (stopped : after.running_ = false) (started : after.backend ≠ .idle)
    (collects : after.backend.collects = true → before.backend.collects = true)
    (secured : before.secured <+: after.secured)
    (decided : before.backend.collects = false → after.secured = before.secured) : Stopping start after := by
  refine ⟨owned, stopped, started, stopping.kept.trans secured, ?_⟩
  intro final
  obtain ⟨ended, same⟩ := stopping.decided final
  refine ⟨?_, (decided ended).trans same⟩
  rw [← Bool.not_eq_true]
  intro again
  rw [collects again] at ended
  cases ended

theorem step_stopping [OfNat α 0] {event : LogEvent α} {start before after : AsyncLogging α bufferSize}
    (short : ∀ logline, event = .append logline → logline.length < bufferSize) (stopping : Stopping start before)
    (stepped : step event before = some after) : Stopping start after := by
  cases step_change stopping.owned stepped with
  | appended logline called change =>
    have position := change.backend
    have secured : after.secured = if before.backend.collects then before.secured ++ logline else before.secured := by
      simp only [secured, position, change.taken, change.pending (short logline called)]
      cases before.backend.collects <;> simp
    refine stopping.of_secured change.owned (change.running_.trans stopping.stopped) (position ▸ stopping.started)
      (position ▸ id) ?_ fun ended => ?_
    · rw [secured]
      split
      · exact List.prefix_append _ _
      · exact List.prefix_rfl
    · rw [secured, ended]
      rfl
  | swapped _ collects change =>
    have secured : after.secured = before.secured := by
      rw [AsyncLogging.secured, AsyncLogging.secured, collects, change.backend, change.taken]
      rfl
    refine stopping.of_secured change.owned (change.running_.trans stopping.stopped) ?_ (fun _ => collects)
      (secured ▸ List.prefix_rfl) fun _ => secured
    rw [change.backend]
    simp
  | kept _ change =>
    obtain ⟨stopped, started, collects⟩ := change.stopped stopping.stopped stopping.started
    have secured : after.secured = before.secured := by
      simp only [secured, collects, change.taken, change.pending]
    exact stopping.of_secured change.owned stopped started (collects ▸ id) (secured ▸ List.prefix_rfl) fun _ => secured

theorem run_stopping [OfNat α 0] {events : List (LogEvent α)} {start : AsyncLogging α bufferSize}
    {before after : AsyncLogging α bufferSize × List (List α)} (reached : recorded.run events before = some after)
    (short : Short bufferSize events) (stopping : Stopping start before.1) : Stopping start after.1 := by
  have preserved : ∀ event (before after : AsyncLogging α bufferSize × List (List α)),
      (∀ logline, event = .append logline → logline.length < bufferSize) → Stopping start before.1 →
      recorded.step event before = some after → Stopping start after.1 :=
    fun _ _ _ allowed held stepped => step_stopping allowed held (Machine.watch_step.mp stepped).1
  exact Machine.run_invariant preserved reached (short.along _) stopping

/-- `stop` loses no line when the backend still has a swap before it, or when no line
waits for one. -/
theorem stop_keeps_lines [OfNat α 0] {earlier later : List (LogEvent α)} {stopped final : AsyncLogging α bufferSize}
    {completed appended : List (List α)} (reached : recorded.run earlier (new, []) = some (stopped, completed))
    (started : stopped.backend ≠ .idle)
    (ended : recorded.run (earlier ++ .stop :: later) (new, []) = some (final, appended))
    (done : final.backend = .returned) (short : Short bufferSize (earlier ++ .stop :: later)) :
    completed.flatten <+: final.output.flatten ↔ stopped.backend.collects = true ∨ stopped.pending = [] := by
  have conserved := run_conserved reached (fun logline member => short logline (by simp [member])) new_conserved
  have balance : stopped.taken ++ stopped.pending = completed.flatten := conserved.balance
  obtain ⟨before, same, after⟩ := (Machine.run_append _ _ _ _ _).mp ended
  cases reached.symm.trans same
  obtain ⟨middle, stop, rest⟩ := (Machine.run_cons _ _ _ _ _).mp after
  obtain ⟨cleared, _⟩ := Machine.watch_step.mp stop
  have initial : Stopping stopped middle.1 := by
    rw [← Option.some.inj cleared]
    exact ⟨(stop_kept conserved.owned).owned, rfl, started, List.prefix_rfl, fun same => ⟨same, rfl⟩⟩
  have stopping := run_stopping rest (fun logline member => short logline (by simp [member])) initial
  have written : final.secured = final.output.flatten := by
    have spares := stopping.owned.spares
    simp only [Spares, done] at spares
    simp [secured, taken, unwritten, done, Backend.collects, spares, contents]
  cases collects : stopped.backend.collects with
  | true =>
    have kept : stopped.secured <+: final.secured := stopping.kept
    rw [written, secured, if_pos collects, balance] at kept
    simp [kept]
  | false =>
    have same : final.secured = stopped.secured := (stopping.decided collects).2
    rw [written, secured, collects] at same
    have fits : stopped.taken ++ stopped.pending <+: stopped.taken ↔ stopped.pending = [] := by
      calc stopped.taken ++ stopped.pending <+: stopped.taken
          ↔ stopped.taken ++ stopped.pending <+: stopped.taken ++ [] := by rw [List.append_nil]
        _ ↔ stopped.pending <+: [] := List.prefix_append_right_inj _
        _ ↔ stopped.pending = [] := List.prefix_nil
    rw [same, ← balance]
    simpa using fits

/-- `stop` comes during the wait, and the line is still written. -/
theorem stop_keeps_lines_waiting : ∃ final : AsyncLogging Nat kLargeBufferSize, ∃ appended,
    recorded.run ([.start, .test, .lock, .append [1, 2]] ++ .stop :: [.append [3], .wake, .write, .recycle, .test])
      (new, []) = some (final, appended) ∧
    final.backend = .returned ∧ [1, 2] <+: final.output.flatten := by
  have computed : (recorded.run
    [.start, .test, .lock, .append [1, 2]] ((new : AsyncLogging Nat kLargeBufferSize), [])).map
    (fun bytes => (bytes.2, bytes.1.backend)) = some ([[1, 2]], .waiting) := by
    decide +kernel
  obtain ⟨⟨stopped, completed⟩, reached, seen⟩ := Option.map_eq_some_iff.mp computed
  have computed : (recorded.run
    ([.start, .test, .lock, .append [1, 2]] ++ .stop :: [.append [3], .wake, .write, .recycle, .test])
    ((new : AsyncLogging Nat kLargeBufferSize), [])).map (fun bytes => bytes.1.backend) = some .returned := by
    decide +kernel
  obtain ⟨⟨final, appended⟩, ended, done⟩ := Option.map_eq_some_iff.mp computed
  simp only [Prod.mk.injEq] at seen
  obtain ⟨rfl, waiting⟩ := seen
  refine ⟨final, appended, ended, done, (stop_keeps_lines reached ?_ ended done ?_).mpr (.inl ?_)⟩
  · rw [waiting]
    simp
  · simp [Short, kLargeBufferSize]
  · rw [waiting]
    rfl

/-- With `stop` before the first test of `running_`, `threadFunc` returns at once. -/
theorem stop_drops_line : ∃ stopped final : AsyncLogging Nat kLargeBufferSize,
    recorded.run [.start, .append [1]] (new, []) = some (stopped, [[1]]) ∧
    recorded.run ([.start, .append [1]] ++ .stop :: [.test]) (new, []) = some (final, [[1]]) ∧
    final.backend = .returned ∧ ¬ ([[1]] : List (List Nat)).flatten <+: final.output.flatten := by
  have computed : (recorded.run
    [.start, .append [1]] ((new : AsyncLogging Nat kLargeBufferSize), [])).map (fun bytes => bytes.2) =
    some [[1]] := by
    decide +kernel
  obtain ⟨⟨stopped, completed⟩, reached, seen⟩ := Option.map_eq_some_iff.mp computed
  have computed : (recorded.run
    ([.start, .append [1]] ++ .stop :: [.test]) ((new : AsyncLogging Nat kLargeBufferSize), [])).map
    (fun bytes => (bytes.2, bytes.1.backend, bytes.1.output)) = some ([[1]], .returned, []) := by
    decide +kernel
  obtain ⟨⟨final, appended⟩, ended, done⟩ := Option.map_eq_some_iff.mp computed
  simp only [Prod.mk.injEq] at seen done
  obtain ⟨rfl, returned, empty⟩ := done
  cases seen
  refine ⟨stopped, final, reached, ended, returned, ?_⟩
  simp [empty]

end Webserver.AsyncLogging
