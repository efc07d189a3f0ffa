import Webserver.Proofs.TimersKept

/-! The timers that `addTimer` makes, up to the destructor of the queue: each of them is
deleted once, by the dispatch that ends it or by the destructor, but for those that still
wait in a functor of the loop. -/

namespace Webserver
open Library

universe u
variable {κ : Type u}

def TimerEvent.made : TimerEvent κ → List TimerPtr
  | .addTimer timer | .addTimerHere timer => [timer.address]
  | .handleRead calls => calls.flatten.map NewTimer.address
  | _ => []

namespace TimerQueue
variable {clock : Nat → Int} {queue after : TimerQueue κ} {out rest expired : List Entry} {made : List TimerPtr}

/-- What has been made is deleted or held, and nothing else is live. -/
structure Accounted (queue : TimerQueue κ) (out : List Entry) (made : List TimerPtr) : Prop where
  keyed : Keyed queue out
  ledger : made.Perm (queue.freed ++ queue.owned out)
  alive : ∀ timer, queue.heap timer ≠ none → timer ∈ queue.owned out

private theorem owned_inserted {entry : Entry} (alone : entry.second ∉ queue.owned out) :
    ((queue.inserted entry).owned out).Perm (entry.second :: queue.owned out) := by
  have entries : (queue.inserted entry).timers_.entries.Perm (entry :: queue.timers_.entries) :=
    OrderedSet.insert_perm (Keyed.fresh alone)
  have middle : List.Perm (out.map Entry.second ++ (entry :: queue.timers_.entries).map Entry.second)
      (entry.second :: (out.map Entry.second ++ queue.timers_.entries.map Entry.second)) := List.perm_middle
  exact (((entries.map Entry.second).append_left _).trans middle).append_right _

namespace Accounted

theorem congr (accounted : Accounted queue out made) (keyed : Keyed after rest)
    (owned : (after.owned rest).Perm (queue.owned out))
    (heap : ∀ timer, after.heap timer ≠ none → queue.heap timer ≠ none) (freed : after.freed = queue.freed) :
    Accounted after rest made where
  keyed := keyed
  ledger := by
    rw [freed]
    exact accounted.ledger.trans (owned.symm.append_left _)
  alive timer live := owned.mem_iff.mpr (accounted.alive timer (heap timer live))

theorem make (accounted : Accounted queue out made) (keyed : Keyed after out) {timer : NewTimer κ}
    (owned : (after.owned out).Perm (timer.address :: queue.owned out))
    (heap : after.heap = (queue.allocated timer).heap) (freed : after.freed = queue.freed) :
    Accounted after out (made ++ [timer.address]) where
  keyed := keyed
  ledger := by
    have more : (made ++ [timer.address]).Perm (timer.address :: (queue.freed ++ queue.owned out)) :=
      (List.perm_append_singleton _ _).trans (accounted.ledger.cons _)
    rw [freed]
    exact more.trans (List.perm_middle.symm.trans (owned.symm.append_left _))
  alive other live := by
    apply owned.mem_iff.mpr
    by_cases same : other = timer.address
    · exact same ▸ List.mem_cons_self
    · have earlier : queue.heap other ≠ none := by
        rw [heap] at live
        simpa only [allocated, Function.update_of_ne same] using live
      exact List.mem_cons_of_mem _ (accounted.alive other earlier)

theorem addTimerHere (accounted : Accounted queue out made) {timer : NewTimer κ}
    (added : queue.addTimerHere clock timer = some after) : Accounted after out (made ++ [timer.address]) := by
  have keyed := (addTimerHere_adds accounted.keyed added).1
  obtain ⟨free, rfl⟩ := addTimerHere_eq_some.mp added
  refine accounted.make keyed ?_ (arrived_heap _ _) (arrived_freed _ _)
  have alone : timer.entry.second ∉ (queue.allocated timer).owned out := free.alone accounted.keyed
  rw [owned, arrived_timers, arrived_queued]
  exact owned_inserted alone

theorem call (accounted : Accounted queue out made) {calls : List (NewTimer κ)}
    (added : calls.foldlM (TimerQueue.addTimerHere clock) queue = some after) :
    Accounted after out (made ++ calls.map NewTimer.address) := by
  induction calls generalizing queue made with
  | nil =>
    cases added
    rwa [List.map_nil, List.append_nil]
  | cons timer calls ih =>
    obtain ⟨next, first, rest⟩ := Option.bind_eq_some_iff.mp (show
      (queue.addTimerHere clock timer).bind (calls.foldlM (TimerQueue.addTimerHere clock)) = some after from added)
    have later := ih (accounted.addTimerHere first) rest
    rwa [List.append_assoc] at later

theorem runExpired (accounted : Accounted queue out made) (taken : expired ⊆ out) {calls : List (List (NewTimer κ))}
    (ran : TimerQueue.runExpired clock expired calls queue = some after) :
    Accounted after out (made ++ calls.flatten.map NewTimer.address) := by
  induction expired generalizing calls queue made with
  | nil =>
    cases calls with
    | nil =>
      cases ran
      rwa [List.flatten_nil, List.map_nil, List.append_nil]
    | cons => cases ran
  | cons entry expired ih =>
    cases calls with
    | nil => cases ran
    | cons call calls =>
      obtain ⟨live, found, _⟩ := accounted.keyed.live entry (List.mem_append_left _ (taken List.mem_cons_self))
      simp only [TimerQueue.runExpired, run, found, Option.map_some, Option.bind_some, Option.bind_eq_some_iff] at ran
      obtain ⟨next, added, ran⟩ := ran
      have called : Accounted { queue with ran := queue.ran ++ [(entry.second, live.callback_)] } out made :=
        accounted.congr (accounted.keyed.congr rfl rfl rfl) (.refl _) (fun _ live => live) rfl
      have whole := ih (called.call added) (fun _ member => taken (List.mem_cons_of_mem _ member)) ran
      rwa [List.append_assoc, ← List.map_append] at whole

theorem rearmed (accounted : Accounted queue out made) : Accounted (queue.rearmed clock) out made := by
  have keyed := @Keyed.rearmed κ clock queue out accounted.keyed
  rcases rearmed_cases clock queue with same | ⟨expiration, armed⟩
  · rwa [same]
  · rw [armed] at keyed ⊢
    exact accounted.congr keyed (.refl _) (fun _ live => live) rfl

theorem renew {entry : Entry} (accounted : Accounted queue (entry :: rest) made)
    (renewed : queue.renew clock entry.second = some after) : Accounted after rest made := by
  obtain ⟨live, found, _⟩ := accounted.keyed.live entry List.mem_cons_self
  obtain ⟨other, same, keyed, _⟩ := renew_resets clock accounted.keyed
  cases renewed.symm.trans same
  rw [renew_eq found] at same
  cases repeats : live.repeat_ with
  | true =>
    rw [if_pos repeats] at same
    cases same
    refine accounted.congr keyed (owned_inserted accounted.keyed.drop.2) (fun timer alive => ?_) rfl
    by_cases here : timer = entry.second
    · rw [here, found]
      exact Option.some_ne_none live
    · simpa only [restarted, Function.update_of_ne here] using alive
  | false =>
    rw [repeats, if_neg (by decide)] at same
    cases same
    refine ⟨keyed, ?_, fun timer alive => ?_⟩
    · have moved : (queue.freed ++ entry.second :: queue.owned rest).Perm
          (queue.freed ++ [entry.second] ++ queue.owned rest) := by rw [List.append_assoc]; exact .refl _
      exact accounted.ledger.trans moved
    · by_cases here : timer = entry.second
      · exact absurd (by simp only [deleted, here, Function.update_self]) alive
      · have earlier : queue.heap timer ≠ none := by simpa only [deleted, Function.update_of_ne here] using alive
        exact (List.mem_cons.mp (accounted.alive timer earlier)).resolve_left here

theorem reset (accounted : Accounted queue expired made) (done : TimerQueue.reset clock expired queue = some after) :
    Accounted after [] made := by
  induction expired generalizing queue with
  | nil =>
    cases done
    exact accounted
  | cons entry expired ih =>
    simp only [TimerQueue.reset, List.foldlM_cons, Option.bind_eq_bind, Option.bind_eq_some_iff] at done
    obtain ⟨next, ⟨renewed, renewing, arming⟩, later⟩ := done
    have middle := accounted.renew renewing
    rw [rearm_eq middle.keyed] at arming
    cases arming
    exact ih middle.rearmed later

theorem handleRead (accounted : Accounted queue [] made) {calls : List (List (NewTimer κ))}
    (handled : queue.handleRead clock calls = some after) :
    Accounted after [] (made ++ calls.flatten.map NewTimer.address) := by
  rw [handleRead_eq accounted.keyed, Option.bind_eq_some_iff] at handled
  obtain ⟨called, runs, resets⟩ := handled
  have opened : Accounted (queue.opened (clock queue.readings)) (queue.due (clock queue.readings)) made := by
    refine accounted.congr accounted.keyed.opened ?_ (fun _ live => live) rfl
    have whole := @Keyed.opened_whole κ queue (clock queue.readings) accounted.keyed
    simp only [owned, ← List.map_append, whole]
    exact .refl _
  exact (opened.runExpired (List.Subset.refl _) runs).reset resets

theorem step (accounted : Accounted queue [] made) {event : TimerEvent κ}
    (stepped : TimerQueue.step clock event queue = some after) : Accounted after [] (made ++ event.made) := by
  have keyed := step_keyed accounted.keyed stepped
  cases step_cases stepped with
  | adds timer free =>
    refine accounted.make keyed ?_ rfl rfl
    simp only [owned, ← List.append_assoc]
    exact List.perm_append_singleton _ _
  | arrives timer live member found =>
    change Accounted _ [] (made ++ [])
    rw [List.append_nil]
    have moved : (queue.owned []).Perm (timer :: { queue with queued := queue.queued.erase timer }.owned []) :=
      ((List.perm_cons_erase member).append_left _).trans List.perm_middle
    have alone := (List.nodup_cons.mp (moved.nodup_iff.mp accounted.keyed.once)).1
    refine accounted.congr keyed ?_ (fun other alive => ?_) (arrived_freed _ _)
    · rw [owned, arrived_timers, arrived_queued]
      exact (@owned_inserted κ _ [] ⟨live.expiration_, timer⟩ alone).trans moved.symm
    · rwa [arrived_heap] at alive
  | addsHere timer added => exact accounted.addTimerHere added
  | fires | polls =>
    change Accounted _ [] (made ++ [])
    rw [List.append_nil]
    exact accounted.congr keyed (.refl _) (fun _ live => live) rfl
  | handles calls _ handled =>
    have closed : Accounted { queue with dispatching := false } [] made :=
      accounted.congr accounted.keyed.closed (.refl _) (fun _ live => live) rfl
    exact closed.handleRead handled

theorem run {events : List (TimerEvent κ)} {final : TimerQueue κ} (accounted : Accounted queue [] made)
    (reached : (machine clock).run events queue = some final) :
    Accounted final [] (made ++ events.flatMap TimerEvent.made) := by
  induction events generalizing queue made with
  | nil =>
    cases reached
    rwa [List.flatMap_nil, List.append_nil]
  | cons event events ih =>
    obtain ⟨next, stepped, later⟩ := (Machine.run_cons _ _ _ _ _).mp reached
    have still := ih (accounted.step stepped) later
    rwa [List.append_assoc] at still

theorem new : Accounted (TimerQueue.new : TimerQueue κ) [] [] :=
  ⟨new_keyed, .nil, fun _ live => absurd rfl live⟩

end Accounted

private theorem release_all {entries : List Entry} (once : (entries.map Entry.second).Nodup)
    (live : ∀ entry ∈ entries, queue.heap entry.second ≠ none) :
    ∃ after, entries.foldlM (fun queue entry => queue.release entry.second) queue = some after ∧
      after.freed = queue.freed ++ entries.map Entry.second ∧
      ∀ timer, after.heap timer ≠ none ↔ queue.heap timer ≠ none ∧ timer ∉ entries.map Entry.second := by
  induction entries generalizing queue with
  | nil => exact ⟨queue, rfl, by simp, by simp⟩
  | cons entry entries ih =>
    rw [List.map_cons, List.nodup_cons] at once
    obtain ⟨timer, found⟩ := Option.ne_none_iff_exists'.mp (live entry List.mem_cons_self)
    have apart : ∀ other ∈ entries, other.second ≠ entry.second := by
      intro other member same
      exact once.1 (same ▸ List.mem_map_of_mem member)
    obtain ⟨after, released, freed, heap⟩ := @ih (queue.deleted entry.second) once.2 fun other member => by
      simpa only [deleted, Function.update_of_ne (apart other member)] using live other (List.mem_cons_of_mem _ member)
    refine ⟨after, ?_, ?_, fun other => ?_⟩
    · rw [List.foldlM_cons, release, found]
      exact released
    · rw [freed, deleted, List.append_assoc]
      rfl
    · rw [heap other, List.map_cons, List.mem_cons, not_or]
      by_cases here : other = entry.second
      · simp [deleted, here]
      · simp only [deleted, Function.update_of_ne here, here, not_false_eq_true, true_and]

/-- Every timer made in a run has been deleted once when the destructor is through, but those
whose `addTimerInLoop` has not run, and these are all that is left. -/
theorem timers_released (clock : Nat → Int) {events : List (TimerEvent κ)} {final : TimerQueue κ}
    (reached : (machine clock).run events new = some final) :
    ∃ after, final.destroy = some after ∧ (events.flatMap TimerEvent.made).Perm (after.freed ++ final.queued) ∧
      ∀ timer, after.heap timer ≠ none ↔ timer ∈ final.queued := by
  obtain ⟨keyed, ledger, alive⟩ := Accounted.new.run reached
  have parts : final.owned [] = final.timers_.entries.map Entry.second ++ final.queued := rfl
  have live : ∀ entry ∈ final.timers_.entries, final.heap entry.second ≠ none := by
    intro entry member
    obtain ⟨timer, found, _⟩ := keyed.live entry member
    exact found ▸ Option.some_ne_none timer
  obtain ⟨after, destroyed, freed, left⟩ := release_all keyed.distinct.2 live
  refine ⟨after, destroyed, ?_, fun timer => ?_⟩
  · rw [freed, List.append_assoc, ← parts]
    exact ledger
  · rw [left timer]
    constructor
    · intro ⟨present, outside⟩
      exact (List.mem_append.mp (parts ▸ alive timer present)).resolve_left outside
    · intro waiting
      refine ⟨keyed.held timer waiting, fun inside => ?_⟩
      exact (List.nodup_append.mp (parts ▸ keyed.once)).2.2 _ inside _ waiting rfl

/-- One timer has been deleted by a dispatch, one by the destructor, and one still waits. -/
theorem timers_released_three : ∃ final after : TimerQueue Nat,
    (machine fun reading => 10 * reading).run [.addTimerHere ⟨1, 7, 3, ⟨false, 0⟩⟩, .addTimerHere ⟨2, 8, 90, ⟨true, 5⟩⟩, .fire,
      .poll, .handleRead [[]], .addTimer ⟨3, 9, 40, ⟨false, 0⟩⟩] new = some final ∧
    final.destroy = some after ∧ after.freed = [1, 2] ∧ final.queued = [3] ∧
    [1, 2, 3].Perm (after.freed ++ final.queued) := by
  have computed : (((machine fun reading => 10 * reading).run [.addTimerHere ⟨1, 7, 3, ⟨false, 0⟩⟩,
      .addTimerHere ⟨2, 8, 90, ⟨true, 5⟩⟩, .fire, .poll, .handleRead [[]], .addTimer ⟨3, 9, 40, ⟨false, 0⟩⟩]
      (new : TimerQueue Nat)).bind fun final => final.destroy.map fun after => (after.freed, final.queued)) =
      some ([1, 2], [3]) := by
    decide +kernel
  obtain ⟨final, reached, rest⟩ := Option.bind_eq_some_iff.mp computed
  obtain ⟨after, destroyed, seen⟩ := Option.map_eq_some_iff.mp rest
  obtain ⟨freed, queued⟩ := Prod.mk.inj seen
  obtain ⟨other, same, ledger, _⟩ := timers_released (fun reading => 10 * reading) reached
  cases destroyed.symm.trans same
  exact ⟨final, after, reached, destroyed, freed, queued, ledger⟩

end TimerQueue
end Webserver
