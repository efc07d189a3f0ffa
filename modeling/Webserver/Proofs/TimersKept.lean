import Webserver.Proofs.TimerDispatch

/-! Timers over whole runs: every entry of the set is one live timer under its own key, and
every dispatch runs, frees, inserts again and keeps what it should. -/

namespace Webserver
open Library

universe u
variable {κ : Type u}

namespace TimerQueue
variable {clock : Nat → Int}

structure Allocates (queue : TimerQueue κ) (timers : List (NewTimer κ)) : Prop where
  free : ∀ timer ∈ timers, queue.Free timer.address
  distinct : (timers.map NewTimer.address).Nodup

theorem Adds.allocates {before middle : TimerQueue κ} {first second : List (NewTimer κ)} {called : List (TimerPtr × κ)}
    (adds : Adds before first called middle) (allocates : Allocates before (first ++ second)) :
    Allocates middle second := by
  obtain ⟨free, distinct⟩ := allocates
  rw [List.map_append] at distinct
  obtain ⟨_, rest, apart⟩ := List.nodup_append.mp distinct
  refine ⟨fun timer member => ?_, rest⟩
  obtain ⟨empty, low⟩ := free timer (List.mem_append_right _ member)
  refine ⟨?_, low⟩
  rw [adds.same _ fun taken => apart _ taken _ (List.mem_map_of_mem member) rfl, empty]

private theorem call_defined (clock : Nat → Int) {call : List (NewTimer κ)} {queue : TimerQueue κ} {out : List Entry}
    (keyed : Keyed queue out) (allocates : Allocates queue call) :
    ∃ after, call.foldlM (addTimerHere clock) queue = some after := by
  induction call generalizing queue with
  | nil => exact ⟨queue, rfl⟩
  | cons timer call ih =>
    have added : queue.addTimerHere clock timer = some ((queue.allocated timer).arrived clock timer.entry) :=
      addTimerHere_eq_some.mpr ⟨allocates.free timer List.mem_cons_self, rfl⟩
    obtain ⟨nextKeyed, adds⟩ := addTimerHere_adds keyed added
    obtain ⟨after, rest⟩ := ih nextKeyed (adds.allocates allocates)
    refine ⟨after, ?_⟩
    rw [List.foldlM_cons, added]
    exact rest

private theorem runExpired_defined (clock : Nat → Int) {expired out : List Entry} {calls : List (List (NewTimer κ))}
    {queue : TimerQueue κ} (keyed : Keyed queue out) (taken : expired ⊆ out) (sized : calls.length = expired.length)
    (allocates : Allocates queue calls.flatten) : ∃ after, runExpired clock expired calls queue = some after := by
  induction expired generalizing calls queue with
  | nil =>
    cases calls with
    | nil => exact ⟨queue, rfl⟩
    | cons => cases sized
  | cons entry expired ih =>
    cases calls with
    | nil => cases sized
    | cons call calls =>
      obtain ⟨live, found, _⟩ := keyed.live entry (List.mem_append_left _ (taken List.mem_cons_self))
      obtain ⟨called, runs, timers, first⟩ := run_adds found
      have calledKeyed : Keyed called out :=
        keyed.congr timers (funext fun address => first.same address List.not_mem_nil) first.queued
      have whole : Allocates called (call ++ calls.flatten) := first.allocates allocates
      obtain ⟨next, added⟩ := call_defined clock calledKeyed
        ⟨fun timer member => whole.free timer (List.mem_append_left _ member),
          whole.distinct.sublist ((List.sublist_append_left call calls.flatten).map NewTimer.address)⟩
      obtain ⟨nextKeyed, adds⟩ := call_adds calledKeyed added
      obtain ⟨after, rest⟩ := ih nextKeyed (fun _ member => taken (List.mem_cons_of_mem _ member))
        (Nat.succ.inj sized) (adds.allocates whole)
      exact ⟨after, by simp [runExpired, runs, added, rest]⟩

private theorem handleRead_defined {queue : TimerQueue κ} {calls : List (List (NewTimer κ))} (keyed : Keyed queue [])
    (sized : calls.length = (queue.due (clock queue.readings)).length) (allocates : Allocates queue calls.flatten) :
    ∃ after, queue.handleRead clock calls = some after := by
  have opened : Keyed (queue.opened (clock queue.readings)) (queue.due (clock queue.readings)) := keyed.opened
  have same : Allocates (queue.opened (clock queue.readings)) calls.flatten := ⟨allocates.free, allocates.distinct⟩
  obtain ⟨called, runs⟩ := runExpired_defined clock opened (List.Subset.refl _) sized same
  obtain ⟨after, resets, _⟩ :=
    reset_resets clock (runExpired_adds opened (List.Subset.refl _) runs).1
  exact ⟨after, by rw [handleRead_eq keyed, runs]; exact resets⟩

theorem new_keyed : Keyed (new : TimerQueue κ) [] :=
  ⟨fun _ member => absurd member List.not_mem_nil, fun _ member => absurd member List.not_mem_nil,
    fun _ live => absurd rfl live, List.nodup_nil⟩

private theorem addTimer_keyed {queue : TimerQueue κ} {timer : NewTimer κ} (keyed : Keyed queue [])
    (free : queue.Free timer.address) :
    Keyed { queue.allocated timer with queued := queue.queued ++ [timer.address] } [] := by
  have alone : timer.address ∉ queue.owned [] := free.alone keyed
  obtain ⟨live, held, low, once⟩ : Keyed (queue.allocated timer) [] := keyed.update alone fun _ => free.2
  refine ⟨live, ?_, low, ?_⟩
  · intro other member
    rcases List.mem_append.mp member with earlier | same
    · exact held other earlier
    · cases List.mem_singleton.mp same
      simp [allocated]
  · have perm : List.Perm ((queue.allocated timer).owned [] ++ [timer.address]) (timer.address :: queue.owned []) :=
      List.perm_append_singleton _ _
    have nodup := perm.nodup_iff.mpr (List.nodup_cons.mpr ⟨alone, once⟩)
    rw [owned, List.append_assoc] at nodup
    exact nodup

/-- A queued `addTimerInLoop` hands its timer over to the set. -/
private theorem addTimerInLoop_keyed {queue : TimerQueue κ} {timer : TimerPtr} {live : Timer κ} (keyed : Keyed queue [])
    (member : timer ∈ queue.queued) (found : queue.heap timer = some live) :
    Keyed ({ queue with queued := queue.queued.erase timer }.arrived clock ⟨live.expiration_, timer⟩) [] := by
  have perm : List.Perm (queue.owned []) (timer :: { queue with queued := queue.queued.erase timer }.owned []) :=
    ((List.perm_cons_erase member).append_left _).trans List.perm_middle
  obtain ⟨alone, once⟩ := List.nodup_cons.mp (perm.nodup_iff.mp keyed.once)
  have released : Keyed { queue with queued := queue.queued.erase timer } [] :=
    ⟨keyed.live, fun other inside => keyed.held other (List.mem_of_mem_erase inside), keyed.low, once⟩
  exact released.arrived found rfl alone

theorem step_keyed {event : TimerEvent κ} {before after : TimerQueue κ} (keyed : Keyed before [])
    (stepped : step clock event before = some after) : Keyed after [] := by
  cases step_cases stepped with
  | adds timer free => exact addTimer_keyed keyed free
  | arrives timer live member found => exact addTimerInLoop_keyed keyed member found
  | addsHere timer added => exact (addTimerHere_adds keyed added).1
  | fires => exact keyed.congr rfl rfl rfl
  | polls => exact keyed.congr rfl rfl rfl
  | handles calls _ handled => exact (handleRead_dispatched keyed.closed handled).1

theorem run_keyed {events : List (TimerEvent κ)} {start final : TimerQueue κ}
    (reached : (machine clock).run events start = some final) (keyed : Keyed start []) : Keyed final [] :=
  have preserved : ∀ event (before after : TimerQueue κ), Keyed before [] →
      (machine clock).step event before = some after → Keyed after [] := fun _ _ _ => step_keyed
  Machine.run_preserves preserved reached keyed

/-- In every reachable state each entry is one live timer under its own key, and every
`handleRead` that is dispatched there is defined and treats the timers as it should. -/
theorem timers_conserved {events : List (TimerEvent κ)} {before : TimerQueue κ}
    (reached : (machine clock).run events new = some before) :
    (∀ entry ∈ before.timers_.entries, ∃ live, before.heap entry.second = some live ∧ live.expiration_ = entry.first) ∧
    (before.timers_.entries.map Entry.second).Nodup ∧
    (∀ calls after, step clock (.handleRead calls) before = some after → Dispatched clock before calls after) ∧
    ∀ calls, before.dispatching = true → calls.length = (before.due (clock before.readings)).length →
      Allocates before calls.flatten → ∃ after, step clock (.handleRead calls) before = some after := by
  have keyed := run_keyed reached new_keyed
  refine ⟨keyed.live, keyed.distinct.2, fun calls after stepped => ?_, fun calls dispatching sized allocates => ?_⟩
  · cases step_cases stepped with
    | handles _ _ handled =>
      obtain ⟨_, ran, ordered, freed, distinct, gone, renewed, kept, added, only, once, keys⟩ :=
        handleRead_dispatched keyed.closed handled
      exact ⟨ran, ordered, freed, distinct, gone, renewed, kept, added, only, once, keys⟩
  · simp only [step, if_pos dispatching]
    exact handleRead_defined keyed.closed sized ⟨allocates.free, allocates.distinct⟩

/-- A one-shot and a repeating timer expire together, and the first callback adds a third. -/
theorem timers_conserved_three : ∃ before after : TimerQueue Nat,
    (machine fun reading => 10 * reading).run [.addTimerHere ⟨1, 7, 3, ⟨false, 0⟩⟩, .addTimer ⟨2, 8, 3, ⟨true, 5⟩⟩,
      .addTimerInLoop 2, .fire, .poll] new = some before ∧
    step (fun reading => 10 * reading) (.handleRead [[⟨3, 9, 40, ⟨false, 0⟩⟩], []]) before = some after ∧
    Dispatched (fun reading => 10 * reading) before [[⟨3, 9, 40, ⟨false, 0⟩⟩], []] after ∧
    after.timers_.entries = [⟨40, 3⟩, ⟨45, 2⟩] ∧ after.ran = [(1, 7), (2, 8)] ∧ after.freed = [1] := by
  have computed : (((machine fun reading => 10 * reading).run [.addTimerHere ⟨1, 7, 3, ⟨false, 0⟩⟩,
      .addTimer ⟨2, 8, 3, ⟨true, 5⟩⟩, .addTimerInLoop 2, .fire, .poll] (new : TimerQueue Nat)).bind fun before =>
      (step (fun reading => 10 * reading) (.handleRead [[⟨3, 9, 40, ⟨false, 0⟩⟩], []]) before).map fun after =>
        (after.timers_.entries, after.ran, after.freed)) =
      some ([⟨40, 3⟩, ⟨45, 2⟩], [(1, 7), (2, 8)], [1]) := by decide +kernel
  obtain ⟨before, reached, computed⟩ := Option.bind_eq_some_iff.mp computed
  obtain ⟨after, stepped, seen⟩ := Option.map_eq_some_iff.mp computed
  simp only [Prod.mk.injEq] at seen
  obtain ⟨_, _, dispatched, _⟩ := timers_conserved reached
  exact ⟨before, after, reached, stepped, dispatched _ _ stepped, seen⟩

end TimerQueue
end Webserver
