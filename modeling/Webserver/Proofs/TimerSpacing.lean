import Webserver.Proofs.TimersKept

/-! How close the callbacks of a repeating timer come, over whole runs: `restart` counts from
a reading of the clock that is not before the one of the dispatch, so that they are at least
an interval apart, however late each of them is. -/

namespace Webserver
open Library

universe u
variable {κ : Type u}

namespace TimerQueue

/-- A call of the callback of a timer, as the timer was then, with the reading of the dispatch. -/
structure Tick (κ : Type u) where
  timer : TimerPtr
  live : Timer κ
  now : Int

def ticks (queue : TimerQueue κ) (now : Int) : List (Tick κ) :=
  (queue.due now).filterMap fun entry => (queue.heap entry.second).map fun live => ⟨entry.second, live, now⟩

def note (clock : Nat → Int) (event : TimerEvent κ) (queue : TimerQueue κ) (seen : List (Tick κ)) : List (Tick κ) :=
  match event with
  | .handleRead _ => seen ++ queue.ticks (clock queue.readings)
  | _ => seen

/-- The calls of a repeating timer are an interval apart. -/
def Spaced (earlier later : Tick κ) : Prop :=
  earlier.timer = later.timer → earlier.live.repeat_ = true →
    earlier.now + earlier.live.interval_.microSeconds ≤ later.now

structure Again (clock : Nat → Int) (queue : TimerQueue κ) (tick : Tick κ) (live : Timer κ) : Prop where
  found : queue.heap tick.timer = some live
  repeats : live.repeat_ = true
  interval_ : live.interval_ = tick.live.interval_
  waits : ⟨live.expiration_, tick.timer⟩ ∈ queue.timers_.entries
  later : tick.now + tick.live.interval_.microSeconds ≤ live.expiration_
  past : tick.now ≤ clock queue.readings

structure Ticked (clock : Nat → Int) (queue : TimerQueue κ) (seen : List (Tick κ)) : Prop where
  keyed : Keyed queue []
  ran : seen.map (fun tick => (tick.timer, tick.live.callback_)) = queue.ran
  expired : ∀ tick ∈ seen, tick.live.expiration_ ≤ tick.now
  again : ∀ tick ∈ seen, tick.live.repeat_ = true → ∃ live, Again clock queue tick live
  spaced : seen.Pairwise Spaced

variable {clock : Nat → Int} {before after : TimerQueue κ} {tick : Tick κ} {seen : List (Tick κ)}

theorem Again.extend {live : Timer κ} (again : Again clock before tick live)
    (monotone : ∀ reading later, reading ≤ later → clock reading ≤ clock later)
    (heap : ∀ timer, before.heap timer ≠ none → after.heap timer = before.heap timer)
    (kept : before.timers_.entries ⊆ after.timers_.entries) (readings : before.readings ≤ after.readings) :
    Again clock after tick live where
  found := (heap _ (by simp [again.found])).trans again.found
  repeats := again.repeats
  interval_ := again.interval_
  waits := kept again.waits
  later := again.later
  past := Int.le_trans again.past (monotone _ _ readings)

private theorem mem_ticks {now : Int} : tick ∈ before.ticks now ↔
    ∃ entry ∈ before.due now, before.heap entry.second = some tick.live ∧ tick.timer = entry.second ∧ tick.now = now := by
  simp only [ticks, List.mem_filterMap, Option.map_eq_some_iff]
  constructor
  · rintro ⟨entry, member, live, found, rfl⟩
    exact ⟨entry, member, found, rfl, rfl⟩
  · rintro ⟨entry, member, found, timer, now⟩
    exact ⟨entry, member, tick.live, found, by rw [← timer, ← now]⟩

private theorem ticks_ran (now : Int) :
    (before.ticks now).map (fun tick => (tick.timer, tick.live.callback_)) = before.callbacks (before.due now) := by
  rw [ticks, callbacks, List.map_filterMap]
  apply List.filterMap_congr
  intro entry _
  rw [Option.map_map]
  rfl

/-- No timer is called twice in one dispatch. -/
private theorem ticks_spaced (keyed : Keyed before []) (now : Int) : (before.ticks now).Pairwise Spaced := by
  have distinct := List.pairwise_map.mp (@Keyed.opened κ before now keyed).distinct.1
  refine List.Pairwise.filterMap _ ?_ distinct
  intro one other apart first found second foundOther same
  obtain ⟨_, _, rfl⟩ := Option.map_eq_some_iff.mp found
  obtain ⟨_, _, rfl⟩ := Option.map_eq_some_iff.mp foundOther
  exact absurd same apart

private theorem handleRead_readings (keyed : Keyed before []) {calls : List (List (NewTimer κ))}
    (handled : before.handleRead clock calls = some after) : before.readings ≤ after.readings := by
  rw [handleRead_eq keyed, Option.bind_eq_some_iff] at handled
  obtain ⟨called, runs, resets⟩ := handled
  obtain ⟨calledKeyed, adds⟩ := runExpired_adds keyed.opened (List.Subset.refl _) runs
  obtain ⟨final, same, _, reset⟩ := reset_resets clock calledKeyed
  cases resets.symm.trans same
  exact Nat.le_trans (Nat.le_succ _) (Nat.le_trans adds.readings reset.readings)

namespace Ticked

theorem quiet (ticked : Ticked clock before seen) (monotone : ∀ reading later, reading ≤ later → clock reading ≤ clock later)
    (keyed : Keyed after []) (ran : after.ran = before.ran)
    (heap : ∀ timer, before.heap timer ≠ none → after.heap timer = before.heap timer)
    (kept : before.timers_.entries ⊆ after.timers_.entries) (readings : before.readings ≤ after.readings) :
    Ticked clock after seen where
  keyed := keyed
  ran := ticked.ran.trans ran.symm
  expired := ticked.expired
  again tick member repeats := by
    obtain ⟨live, again⟩ := ticked.again tick member repeats
    exact ⟨live, again.extend monotone heap kept readings⟩
  spaced := ticked.spaced

/-- A repeating timer that a dispatch finds expired waits again for an interval at least. -/
theorem renewed {calls : List (List (NewTimer κ))} {entry : Entry} {live : Timer κ}
    (monotone : ∀ reading later, reading ≤ later → clock reading ≤ clock later)
    (dispatched : Dispatched clock before calls after) (readings : before.readings ≤ after.readings)
    (member : entry ∈ before.due (clock before.readings)) (found : before.heap entry.second = some live)
    (timer : tick.timer = entry.second) (repeats : live.repeat_ = true) (interval_ : live.interval_ = tick.live.interval_)
    (past : tick.now ≤ clock before.readings) : ∃ live, Again clock after tick live := by
  obtain ⟨reading, now, _, heap, inside⟩ := dispatched.renewed entry member live found repeats
  have counted := monotone before.readings reading (Nat.le_of_lt now)
  have restarted : (live.restart (clock reading)).expiration_ = clock reading + live.interval_.microSeconds := by
    simp only [Timer.restart, repeats, if_true, addTime]
  refine ⟨live.restart (clock reading), ?_, ?_, ?_, ?_, ?_, ?_⟩
  · rw [timer]
    exact heap
  · simp only [Timer.restart, repeats, if_true]
  · simp only [Timer.restart, repeats, if_true]
    exact interval_
  · rw [timer, restarted]
    exact inside
  · rw [restarted, ← interval_]
    omega
  · exact Int.le_trans past (monotone _ _ readings)

/-- The timers that wait are called again only when they have expired. -/
theorem dispatch (ticked : Ticked clock before seen)
    (monotone : ∀ reading later, reading ≤ later → clock reading ≤ clock later) {calls : List (List (NewTimer κ))}
    (handled : before.handleRead clock calls = some after) :
    Ticked clock after (seen ++ before.ticks (clock before.readings)) := by
  obtain ⟨keyed, dispatched⟩ := handleRead_dispatched ticked.keyed handled
  have readings := handleRead_readings ticked.keyed handled
  refine ⟨keyed, ?_, ?_, ?_, ?_⟩
  · rw [List.map_append, ticked.ran, ticks_ran, dispatched.ran]
  · intro tick member
    rcases List.mem_append.mp member with old | new
    · exact ticked.expired tick old
    · obtain ⟨entry, due, found, _, now⟩ := mem_ticks.mp new
      obtain ⟨inside, expired⟩ := List.mem_filter.mp due
      obtain ⟨live, same, key⟩ := ticked.keyed.live entry inside
      cases found.symm.trans same
      rw [key, now]
      exact of_decide_eq_true expired
  · intro tick member repeats
    rcases List.mem_append.mp member with old | new
    · obtain ⟨live, again⟩ := ticked.again tick old repeats
      by_cases due : live.expiration_ ≤ clock before.readings
      · exact renewed monotone dispatched readings (List.mem_filter.mpr ⟨again.waits, decide_eq_true due⟩) again.found rfl
          again.repeats again.interval_ again.past
      · obtain ⟨kept, same⟩ := dispatched.kept _ again.waits (Int.not_le.mp due)
        exact ⟨live, same.trans again.found, again.repeats, again.interval_, kept, again.later,
          Int.le_trans again.past (monotone _ _ readings)⟩
    · obtain ⟨entry, due, found, timer, now⟩ := mem_ticks.mp new
      exact renewed monotone dispatched readings due found timer repeats rfl (Int.le_of_eq now)
  · refine List.pairwise_append.mpr ⟨ticked.spaced, ticks_spaced ticked.keyed _, ?_⟩
    intro earlier old later new same repeats
    obtain ⟨live, again⟩ := ticked.again earlier old repeats
    obtain ⟨entry, due, found, timer, now⟩ := mem_ticks.mp new
    obtain ⟨inside, expired⟩ := List.mem_filter.mp due
    obtain ⟨other, found', key⟩ := ticked.keyed.live entry inside
    rw [← timer, ← same, again.found] at found'
    cases found'
    have := of_decide_eq_true expired
    have := again.later
    omega

theorem step (ticked : Ticked clock before seen)
    (monotone : ∀ reading later, reading ≤ later → clock reading ≤ clock later) {event : TimerEvent κ}
    (stepped : TimerQueue.step clock event before = some after) : Ticked clock after (note clock event before seen) := by
  have keyed := step_keyed ticked.keyed stepped
  cases step_cases stepped with
  | adds timer free =>
    refine ticked.quiet monotone keyed rfl (fun other present => ?_) (List.Subset.refl _) (Nat.le_refl _)
    apply Function.update_of_ne
    rintro rfl
    exact present free.1
  | arrives timer live member found =>
    have readings := @arrived_readings κ clock { before with queued := before.queued.erase timer } ⟨live.expiration_, timer⟩
    refine ticked.quiet monotone keyed (arrived_ran _ _) (fun other _ => congrFun (arrived_heap _ _) other) ?_ readings
    intro entry inside
    rw [arrived_timers]
    exact OrderedSet.mem_insert.mpr (.inr inside)
  | addsHere timer added =>
    obtain ⟨_, adds⟩ := addTimerHere_adds ticked.keyed added
    refine ticked.quiet monotone keyed (adds.ran.trans (List.append_nil _)) (fun other present => adds.live_same present) ?_
      adds.readings
    exact fun entry inside => adds.entries.mem_iff.mpr (List.mem_append_right _ inside)
  | fires | polls =>
    exact ticked.quiet monotone keyed rfl (fun _ _ => rfl) (List.Subset.refl _) (Nat.le_refl _)
  | handles calls _ handled =>
    have closed : Ticked clock { before with dispatching := false } seen :=
      ticked.quiet monotone ticked.keyed.closed rfl (fun _ _ => rfl) (List.Subset.refl _) (Nat.le_refl _)
    exact closed.dispatch monotone handled

theorem new : Ticked clock (TimerQueue.new : TimerQueue κ) [] :=
  ⟨new_keyed, rfl, fun _ member => absurd member List.not_mem_nil, fun _ member => absurd member List.not_mem_nil, .nil⟩

end Ticked

end TimerQueue
end Webserver
