import Webserver.Proofs.TimerSteps

/-! One dispatch of the timerfd: the callbacks that run, and the timers that are freed,
inserted again, kept and added. -/

namespace Webserver
open Library

universe u
variable {κ : Type u}

namespace TimerQueue
variable {clock : Nat → Int}

def callbacks (queue : TimerQueue κ) (entries : List Entry) : List (TimerPtr × κ) :=
  entries.filterMap fun entry => (queue.heap entry.second).map fun live => (entry.second, live.callback_)

def oneShots (queue : TimerQueue κ) (entries : List Entry) : List TimerPtr :=
  (entries.map Entry.second).filter fun timer => (queue.heap timer).any fun live => !live.repeat_

private theorem callbacks_congr {queue other : TimerQueue κ} {entries : List Entry}
    (same : ∀ entry ∈ entries, other.heap entry.second = queue.heap entry.second) :
    other.callbacks entries = queue.callbacks entries :=
  List.filterMap_congr fun entry member => by rw [same entry member]

private theorem oneShots_congr {queue other : TimerQueue κ} {entries : List Entry}
    (same : ∀ entry ∈ entries, other.heap entry.second = queue.heap entry.second) :
    other.oneShots entries = queue.oneShots entries := by
  apply List.filter_congr
  intro timer member
  obtain ⟨entry, inside, rfl⟩ := List.mem_map.mp member
  rw [same entry inside]

theorem run_adds {queue : TimerQueue κ} {timer : TimerPtr} {live : Timer κ} (found : queue.heap timer = some live) :
    ∃ after, queue.run timer = some after ∧ after.timers_ = queue.timers_ ∧
      Adds queue [] [(timer, live.callback_)] after := by
  refine ⟨{ queue with ran := queue.ran ++ [(timer, live.callback_)] }, by simp [run, found], rfl, ?_⟩
  exact ⟨.refl _, fun _ member => absurd member List.not_mem_nil, fun _ _ => rfl, rfl, rfl, rfl, le_rfl, .inl rfl⟩

/-- The expired timers stay as they are while callbacks add others. -/
theorem runExpired_adds {expired out : List Entry} {calls : List (List (NewTimer κ))} {queue after : TimerQueue κ}
    (keyed : Keyed queue out) (taken : expired ⊆ out) (ran : runExpired clock expired calls queue = some after) :
    Keyed after out ∧ Adds queue calls.flatten (queue.callbacks expired) after := by
  induction expired generalizing calls queue with
  | nil =>
    cases calls with
    | nil =>
      cases ran
      exact ⟨keyed, .refl _⟩
    | cons => cases ran
  | cons entry expired ih =>
    cases calls with
    | nil => cases ran
    | cons call calls =>
      obtain ⟨live, found, _⟩ := keyed.live entry (List.mem_append_left _ (taken List.mem_cons_self))
      obtain ⟨called, runs, timers, first⟩ := run_adds found
      simp only [runExpired, runs, Option.bind_some, Option.bind_eq_some_iff] at ran
      obtain ⟨next, added, ran⟩ := ran
      have calledKeyed : Keyed called out :=
        keyed.congr timers (funext fun address => first.same address List.not_mem_nil) first.queued
      obtain ⟨nextKeyed, adds⟩ := call_adds calledKeyed added
      obtain ⟨afterKeyed, more⟩ := ih nextKeyed (fun _ member => taken (List.mem_cons_of_mem _ member)) ran
      refine ⟨afterKeyed, ?_⟩
      have whole := (first.trans adds).trans more
      have same : next.callbacks expired = queue.callbacks expired := by
        refine callbacks_congr fun other member => (first.trans adds).live_same ?_
        obtain ⟨otherLive, otherFound, _⟩ :=
          keyed.live other (List.mem_append_left _ (taken (List.mem_cons_of_mem _ member)))
        simp [otherFound]
      have head : queue.callbacks (entry :: expired) = (entry.second, live.callback_) :: queue.callbacks expired := by
        simp [callbacks, found]
      rw [same] at whole
      rw [head]
      exact whole

/-- What `reset` changes for the expired timers. -/
structure Resets (clock : Nat → Int) (before : TimerQueue κ) (expired : List Entry) (after : TimerQueue κ) : Prop where
  gone : ∀ entry ∈ expired, ∀ live, before.heap entry.second = some live → live.repeat_ = false →
    after.heap entry.second = none
  renewed : ∀ entry ∈ expired, ∀ live, before.heap entry.second = some live → live.repeat_ = true →
    ∃ reading, before.readings ≤ reading ∧ reading < after.readings ∧
      after.heap entry.second = some (live.restart (clock reading)) ∧
      ⟨addTime (clock reading) live.interval_, entry.second⟩ ∈ after.timers_.entries
  kept : before.timers_.entries ⊆ after.timers_.entries
  only : ∀ entry ∈ after.timers_.entries, entry ∈ before.timers_.entries ∨ entry.second ∈ expired.map Entry.second
  same : ∀ timer, timer ∉ expired.map Entry.second → after.heap timer = before.heap timer
  ran : after.ran = before.ran
  queued : after.queued = before.queued
  freed : after.freed = before.freed ++ before.oneShots expired
  readings : before.readings ≤ after.readings
  timerfd : after.timerfd_ = before.timerfd_ ∨ after.timerfd_.ready = false

namespace Resets
variable {before middle after : TimerQueue κ} {entry : Entry} {expired : List Entry}

theorem refl (queue : TimerQueue κ) : Resets clock queue [] queue where
  gone _ member := absurd member List.not_mem_nil
  renewed _ member := absurd member List.not_mem_nil
  kept := List.Subset.refl _
  only _ member := .inl member
  same _ _ := rfl
  ran := rfl
  queued := rfl
  freed := (List.append_nil _).symm
  readings := le_rfl
  timerfd := .inl rfl

theorem untouched (first : Resets clock before [entry] middle) (alone : entry.second ∉ expired.map Entry.second) :
    ∀ other ∈ expired, middle.heap other.second = before.heap other.second := by
  intro other member
  apply first.same
  intro same
  exact alone (List.mem_singleton.mp same ▸ List.mem_map_of_mem member)

theorem trans (first : Resets clock before [entry] middle) (rest : Resets clock middle expired after)
    (alone : entry.second ∉ expired.map Entry.second) : Resets clock before (entry :: expired) after where
  gone other member live found oneShot := by
    rcases List.mem_cons.mp member with rfl | later
    · rw [rest.same _ alone]
      exact first.gone _ List.mem_cons_self live found oneShot
    · exact rest.gone other later live ((first.untouched alone other later).trans found) oneShot
  renewed other member live found repeats := by
    rcases List.mem_cons.mp member with rfl | later
    · obtain ⟨reading, low, high, heap, inside⟩ := first.renewed _ List.mem_cons_self live found repeats
      exact ⟨reading, low, high.trans_le rest.readings, (rest.same _ alone).trans heap, rest.kept inside⟩
    · obtain ⟨reading, low, property⟩ :=
        rest.renewed other later live ((first.untouched alone other later).trans found) repeats
      exact ⟨reading, first.readings.trans low, property⟩
  kept := fun _ member => rest.kept (first.kept member)
  only other member := by
    rcases rest.only other member with inside | later
    · rcases first.only other inside with earlier | same
      · exact .inl earlier
      · exact .inr (by simpa using .inl (List.mem_singleton.mp same))
    · exact .inr (List.mem_cons_of_mem _ later)
  same timer outside := by
    simp only [List.map_cons, List.mem_cons, not_or] at outside
    rw [rest.same timer outside.2, first.same timer (by simpa using outside.1)]
  ran := rest.ran.trans first.ran
  queued := rest.queued.trans first.queued
  freed := by
    rw [rest.freed, first.freed, oneShots_congr (first.untouched alone), List.append_assoc]
    simp only [oneShots, ← List.filter_append, ← List.map_append, List.singleton_append]
  readings := first.readings.trans rest.readings
  timerfd := by
    rcases rest.timerfd with same | unready
    · rw [same]
      exact first.timerfd
    · exact .inr unready

end Resets

def restarted (clock : Nat → Int) (queue : TimerQueue κ) (timer : TimerPtr) (live : Timer κ) : TimerQueue κ :=
  { queue with
    readings := queue.readings + 1
    heap := Function.update queue.heap timer (some (live.restart (clock queue.readings)))
    timers_ := queue.timers_.insert ⟨(live.restart (clock queue.readings)).expiration_, timer⟩ }

def deleted (queue : TimerQueue κ) (timer : TimerPtr) : TimerQueue κ :=
  { queue with heap := Function.update queue.heap timer none, freed := queue.freed ++ [timer] }

theorem renew_eq {queue : TimerQueue κ} {timer : TimerPtr} {live : Timer κ} (found : queue.heap timer = some live) :
    queue.renew clock timer = some (if live.repeat_ then queue.restarted clock timer live else queue.deleted timer) := by
  simp only [renew, found, Option.bind_some]
  split
  · simp [insert_eq, restarted, inserted]
  · rfl

section Renewal
variable {queue : TimerQueue κ} {entry : Entry} {rest : List Entry} {live : Timer κ}

private theorem restarted_resets (keyed : Keyed queue (entry :: rest)) (found : queue.heap entry.second = some live)
    (repeats : live.repeat_ = true) :
    Keyed (queue.restarted clock entry.second live) rest ∧
      Resets clock queue [entry] (queue.restarted clock entry.second live) := by
  obtain ⟨dropped, alone⟩ := keyed.drop
  have made : (queue.restarted clock entry.second live).heap entry.second =
      some (live.restart (clock queue.readings)) := Function.update_self ..
  have expiration : (live.restart (clock queue.readings)).expiration_ = addTime (clock queue.readings) live.interval_ := by
    simp [Timer.restart, repeats]
  have entries : List.Perm (queue.restarted clock entry.second live).timers_.entries
      (⟨addTime (clock queue.readings) live.interval_, entry.second⟩ :: queue.timers_.entries) := by
    rw [← expiration]
    exact OrderedSet.insert_perm (Keyed.fresh alone)
  have updated := dropped.update alone fun (_ : some (live.restart (clock queue.readings)) ≠ none) =>
    keyed.low _ (by simp [found])
  have placed := @Keyed.inserted κ _ rest ⟨(live.restart (clock queue.readings)).expiration_, entry.second⟩ updated
    (live.restart (clock queue.readings)) made rfl alone
  refine ⟨placed.congr rfl rfl rfl, ?_, ?_, ?_, ?_, ?_, rfl, rfl, ?_, Nat.le_succ _, .inl rfl⟩
  · intro _ member _ found' oneShot
    cases List.mem_singleton.mp member
    cases found.symm.trans found'
    rw [repeats] at oneShot
    cases oneShot
  · intro _ member _ found' _
    cases List.mem_singleton.mp member
    cases found.symm.trans found'
    exact ⟨queue.readings, le_rfl, Nat.lt_succ_self _, made, entries.mem_iff.mpr List.mem_cons_self⟩
  · exact fun _ member => entries.mem_iff.mpr (List.mem_cons_of_mem _ member)
  · intro _ member
    rcases List.mem_cons.mp (entries.mem_iff.mp member) with rfl | earlier
    · exact .inr List.mem_cons_self
    · exact .inl earlier
  · exact fun timer outside => Function.update_of_ne (by simpa using outside) ..
  · simp [restarted, oneShots, found, repeats]

private theorem deleted_resets (keyed : Keyed queue (entry :: rest)) (found : queue.heap entry.second = some live)
    (oneShot : live.repeat_ = false) :
    Keyed (queue.deleted entry.second) rest ∧ Resets clock queue [entry] (queue.deleted entry.second) := by
  obtain ⟨dropped, alone⟩ := keyed.drop
  have updated := dropped.update alone fun (absent : (none : Option (Timer κ)) ≠ none) => absurd rfl absent
  refine ⟨updated.congr rfl rfl rfl, ?_, ?_, List.Subset.refl _, fun _ member => .inl member, ?_, rfl, rfl, ?_, le_rfl,
    .inl rfl⟩
  · intro _ member _ _ _
    cases List.mem_singleton.mp member
    exact Function.update_self ..
  · intro _ member _ found' repeats
    cases List.mem_singleton.mp member
    cases found.symm.trans found'
    rw [oneShot] at repeats
    cases repeats
  · exact fun timer outside => Function.update_of_ne (by simpa using outside) ..
  · simp [deleted, oneShots, found, oneShot]

/-- `renew` either inserts the timer again, at the clock's next reading, or frees it. -/
theorem renew_resets (clock : Nat → Int) (keyed : Keyed queue (entry :: rest)) :
    ∃ after, queue.renew clock entry.second = some after ∧ Keyed after rest ∧ Resets clock queue [entry] after := by
  obtain ⟨live, found, _⟩ := keyed.live entry List.mem_cons_self
  refine ⟨_, renew_eq found, ?_⟩
  cases repeats : live.repeat_ with
  | true => exact restarted_resets keyed found repeats
  | false => exact deleted_resets keyed found repeats

end Renewal

def rearmed (clock : Nat → Int) (queue : TimerQueue κ) : TimerQueue κ :=
  match queue.timers_.entries.head? with
  | none => queue
  | some first => queue.resetTimerfd clock first.first

theorem rearm_eq {queue : TimerQueue κ} {out : List Entry} (keyed : Keyed queue out) :
    queue.rearm clock = some (queue.rearmed clock) := by
  unfold rearm rearmed
  cases head : queue.timers_.entries.head? with
  | none => rfl
  | some first =>
    obtain ⟨live, found, key⟩ := keyed.live first (List.mem_append_right _ (List.mem_of_head? head))
    simp [found, key]

theorem rearmed_cases (clock : Nat → Int) (queue : TimerQueue κ) :
    queue.rearmed clock = queue ∨ ∃ expiration, queue.rearmed clock = queue.resetTimerfd clock expiration := by
  unfold rearmed
  split
  · exact .inl rfl
  next first _ => exact .inr ⟨first.first, rfl⟩

theorem Keyed.rearmed {queue : TimerQueue κ} {out : List Entry} (keyed : Keyed queue out) :
    Keyed (queue.rearmed clock) out := by
  rcases rearmed_cases clock queue with same | ⟨expiration, armed⟩
  · rwa [same]
  · rw [armed]
    exact keyed.congr rfl rfl rfl

theorem Resets.rearmed {before after : TimerQueue κ} {expired : List Entry}
    (resets : Resets clock before expired after) : Resets clock before expired (after.rearmed clock) := by
  rcases rearmed_cases clock after with same | ⟨expiration, armed⟩
  · rwa [same]
  · rw [armed]
    exact { resets with
      renewed := fun entry member live found repeats => by
        obtain ⟨reading, low, high, property⟩ := resets.renewed entry member live found repeats
        exact ⟨reading, low, high.trans (Nat.lt_succ_self _), property⟩
      readings := resets.readings.trans (Nat.le_succ _)
      timerfd := by
        rcases Timerfd.settime_cases after.timerfd_ _ with same | unready
        · exact resets.timerfd.imp same.trans fun unready => (congrArg Timerfd.ready same).trans unready
        · exact .inr unready }

theorem reset_resets (clock : Nat → Int) {expired : List Entry} {queue : TimerQueue κ} (keyed : Keyed queue expired) :
    ∃ after, reset clock expired queue = some after ∧ Keyed after [] ∧ Resets clock queue expired after := by
  induction expired generalizing queue with
  | nil => exact ⟨queue, rfl, keyed, .refl queue⟩
  | cons entry expired ih =>
    obtain ⟨middle, renews, middleKeyed, first⟩ := renew_resets clock keyed
    obtain ⟨after, resets, afterKeyed, rest⟩ := ih middleKeyed.rearmed
    refine ⟨after, ?_, afterKeyed, first.rearmed.trans rest ?_⟩
    · simp only [reset, List.foldlM_cons, renews, Option.bind_some, rearm_eq middleKeyed]
      exact resets
    · have alone := keyed.drop.2
      simp only [owned, List.mem_append, not_or] at alone
      exact alone.1.1

def due (queue : TimerQueue κ) (now : Int) : List Entry := queue.timers_.entries.filter (·.first ≤ now)

def opened (queue : TimerQueue κ) (now : Int) : TimerQueue κ :=
  { queue with
    readings := queue.readings + 1
    timerfd_ := { queue.timerfd_ with ready := false }
    timers_ := queue.timers_.eraseBelow ⟨now, UINTPTR_MAX⟩ }

section Dispatch
variable {queue after : TimerQueue κ} {calls : List (List (NewTimer κ))} {now : Int}

/-- No timer is at the address of the sentry. -/
theorem Keyed.below_sentry (keyed : Keyed queue []) {entry : Entry} (member : entry ∈ queue.timers_.entries) :
    entry < ⟨now, UINTPTR_MAX⟩ ↔ entry.first ≤ now := by
  obtain ⟨live, found, _⟩ := keyed.live entry member
  have low : entry.second < UINTPTR_MAX := keyed.low _ (by simp [found])
  rw [Entry.lt_iff]
  constructor
  · rintro (below | ⟨same, _⟩)
    · exact below.le
    · exact same.le
  · intro expired
    rcases expired.lt_or_eq with below | same
    · exact .inl below
    · exact .inr ⟨same, low⟩

theorem Keyed.below_due (keyed : Keyed queue []) : queue.timers_.below ⟨now, UINTPTR_MAX⟩ = queue.due now := by
  rw [(queue.timers_.below_eq_filter _).1]
  exact List.filter_congr fun entry member => by simp [keyed.below_sentry member]

theorem Keyed.opened_entries (keyed : Keyed queue []) {entry : Entry} :
    entry ∈ (queue.opened now).timers_.entries ↔ entry ∈ queue.timers_.entries ∧ now < entry.first := by
  simp only [opened, (queue.timers_.below_eq_filter _).2, List.mem_filter, decide_eq_true_eq]
  exact and_congr_right fun member => by rw [keyed.below_sentry member, not_le]

theorem Keyed.opened_whole (keyed : Keyed queue []) :
    queue.due now ++ (queue.opened now).timers_.entries = queue.timers_.entries := by
  rw [← keyed.below_due]
  exact queue.timers_.below_append _

theorem Keyed.opened (keyed : Keyed queue []) : Keyed (queue.opened now) (queue.due now) := by
  have whole : queue.due now ++ (queue.opened now).timers_.entries = queue.timers_.entries := keyed.opened_whole
  refine ⟨?_, keyed.held, keyed.low, ?_⟩
  · rw [whole]
    exact keyed.live
  · simp only [owned, ← List.map_append, whole]
    exact keyed.once

theorem Keyed.closed (keyed : Keyed queue []) : Keyed { queue with dispatching := false } [] := keyed.congr rfl rfl rfl

theorem handleRead_eq (keyed : Keyed queue []) :
    queue.handleRead clock calls =
      (runExpired clock (queue.due (clock queue.readings)) calls (queue.opened (clock queue.readings))).bind
        (reset clock (queue.due (clock queue.readings))) := by
  rw [← keyed.below_due]
  rfl

/-- What one dispatch does when its callbacks call `addTimer` as in `calls`. -/
structure Dispatched (clock : Nat → Int) (before : TimerQueue κ) (calls : List (List (NewTimer κ)))
    (after : TimerQueue κ) : Prop where
  ran : after.ran = before.ran ++ before.callbacks (before.due (clock before.readings))
  ordered : (before.due (clock before.readings)).Pairwise fun one other => one.first ≤ other.first
  freed : after.freed = before.freed ++ before.oneShots (before.due (clock before.readings))
  distinct : ((before.due (clock before.readings)).map Entry.second).Nodup
  gone : ∀ entry ∈ before.due (clock before.readings), ∀ live, before.heap entry.second = some live →
    live.repeat_ = false →
    after.heap entry.second = none ∧ ∀ other ∈ after.timers_.entries, other.second ≠ entry.second
  renewed : ∀ entry ∈ before.due (clock before.readings), ∀ live, before.heap entry.second = some live →
    live.repeat_ = true →
    ∃ reading, before.readings < reading ∧ reading < after.readings ∧
      after.heap entry.second = some (live.restart (clock reading)) ∧
      ⟨addTime (clock reading) live.interval_, entry.second⟩ ∈ after.timers_.entries
  kept : ∀ entry ∈ before.timers_.entries, clock before.readings < entry.first →
    entry ∈ after.timers_.entries ∧ after.heap entry.second = before.heap entry.second
  added : ∀ timer ∈ calls.flatten,
    timer.entry ∈ after.timers_.entries ∧ after.heap timer.address = some timer.timer
  only : ∀ entry ∈ after.timers_.entries,
    (entry ∈ before.timers_.entries ∧ clock before.readings < entry.first) ∨
      (∃ timer ∈ calls.flatten, entry = timer.entry) ∨
      entry.second ∈ (before.due (clock before.readings)).map Entry.second
  once : (after.timers_.entries.map Entry.second).Nodup
  keys : ∀ entry ∈ after.timers_.entries, ∃ live, after.heap entry.second = some live ∧ live.expiration_ = entry.first

theorem Keyed.distinct {out : List Entry} (keyed : Keyed queue out) :
    (out.map Entry.second).Nodup ∧ (queue.timers_.entries.map Entry.second).Nodup := by
  have once := (List.nodup_append.mp keyed.once).1
  exact ⟨(List.nodup_append.mp once).1, (List.nodup_append.mp once).2.1⟩

theorem Keyed.not_out {out : List Entry} {entry : Entry} (keyed : Keyed queue out)
    (inside : entry ∈ queue.timers_.entries) : entry.second ∉ out.map Entry.second := by
  have once := (List.nodup_append.mp keyed.once).1
  intro taken
  exact (List.nodup_append.mp once).2.2 _ taken _ (List.mem_map_of_mem inside) rfl

theorem handleRead_dispatched (keyed : Keyed queue []) (handled : queue.handleRead clock calls = some after) :
    Keyed after [] ∧ Dispatched clock queue calls after := by
  rw [handleRead_eq keyed, Option.bind_eq_some_iff] at handled
  obtain ⟨called, runs, resets⟩ := handled
  have opened : Keyed (queue.opened (clock queue.readings)) (queue.due (clock queue.readings)) := keyed.opened
  obtain ⟨calledKeyed, adds⟩ := runExpired_adds opened (List.Subset.refl _) runs
  obtain ⟨final, same, finalKeyed, reset⟩ := reset_resets clock calledKeyed
  cases resets.symm.trans same
  have unchanged : ∀ entry ∈ queue.due (clock queue.readings), called.heap entry.second = queue.heap entry.second := by
    intro entry member
    obtain ⟨live, found, _⟩ := opened.live entry (List.mem_append_left _ member)
    exact adds.live_same (by simp [found])
  refine ⟨finalKeyed, ?_, ?_, ?_, keyed.opened.distinct.1, ?_, ?_, ?_, ?_, ?_, finalKeyed.distinct.2, finalKeyed.live⟩
  · rw [reset.ran, adds.ran]
    rfl
  · exact (queue.timers_.sorted.sublist List.filter_sublist).imp fun below => Entry.first_le below.le
  · rw [reset.freed, adds.freed, oneShots_congr unchanged]
    rfl
  · intro entry member live found oneShot
    have gone := reset.gone entry member live ((unchanged entry member).trans found) oneShot
    refine ⟨gone, fun other inside same => ?_⟩
    obtain ⟨otherLive, otherFound, _⟩ := finalKeyed.live other inside
    rw [same, gone] at otherFound
    cases otherFound
  · intro entry member live found repeats
    obtain ⟨reading, low, property⟩ := reset.renewed entry member live ((unchanged entry member).trans found) repeats
    exact ⟨reading, (Nat.lt_succ_self _).trans_le (adds.readings.trans low), property⟩
  · intro entry member later
    have inside := keyed.opened_entries.mpr ⟨member, later⟩
    obtain ⟨live, found, _⟩ := opened.live entry (List.mem_append_right _ inside)
    refine ⟨reset.kept (adds.entries.mem_iff.mpr (List.mem_append_right _ inside)), ?_⟩
    rw [reset.same _ (opened.not_out inside), adds.live_same (by simp [found])]
    rfl
  · intro timer member
    obtain ⟨free, made⟩ := adds.made timer member
    refine ⟨reset.kept (adds.entries.mem_iff.mpr (List.mem_append_left _ (List.mem_map_of_mem member))), ?_⟩
    rw [reset.same, made]
    intro taken
    obtain ⟨entry, inside, same⟩ := List.mem_map.mp taken
    obtain ⟨live, found, _⟩ := opened.live entry (List.mem_append_left _ inside)
    rw [same, free] at found
    cases found
  · intro entry member
    rcases reset.only entry member with inside | taken
    · rcases List.mem_append.mp (adds.entries.mem_iff.mp inside) with added | old
      · obtain ⟨timer, listed, same⟩ := List.mem_map.mp added
        exact .inr (.inl ⟨timer, listed, same.symm⟩)
      · exact .inl (keyed.opened_entries.mp old)
    · exact .inr (.inr taken)

end Dispatch

end TimerQueue
end Webserver
