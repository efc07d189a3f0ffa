import Webserver.Proofs.TimersKept

/-! A queue that is not empty is armed for its earliest timer, as long as every dispatch of
a fired timerfd finds a timer that has expired. -/

namespace Webserver
open Library

universe u
variable {κ : Type u}

def Timespec.nanoSeconds (value : Timespec) : Int := value.tv_sec * 1000000000 + value.tv_nsec

namespace TimerQueue
variable {clock : Nat → Int}

/-- Armed for the time from the reading of the last arming to `expiration`, and at least 100 microseconds. -/
def ArmedFor (queue : TimerQueue κ) (expiration : Int) : Prop :=
  ∃ value, queue.timerfd_.it_value = some value ∧ value ≠ ⟨0, 0⟩ ∧
    value.nanoSeconds = max 100 (expiration - queue.armedAt) * 1000

/-- A timerfd that has fired waits for its dispatch; else it is armed for the earliest timer. -/
def Armed (queue : TimerQueue κ) : Prop :=
  queue.timers_.entries ≠ [] → queue.timerfd_.ready = true ∨
    ∃ earliest ∈ queue.timers_.entries, (∀ entry ∈ queue.timers_.entries, earliest.first ≤ entry.first) ∧
      queue.ArmedFor earliest.first

/-- The dispatch of a timerfd that has fired reads the clock at or after the earliest expiration. -/
def Timely (clock : Nat → Int) (event : TimerEvent κ) (queue : TimerQueue κ) : Prop :=
  match event with
  | .handleRead _ => queue.timerfd_.ready = true → queue.timers_.entries ≠ [] →
      ∃ entry ∈ queue.timers_.entries, entry.first ≤ clock queue.readings
  | _ => True

instance (event : TimerEvent κ) (queue : TimerQueue κ) : Decidable (Timely clock event queue) :=
  match event with
  | .handleRead _ => inferInstanceAs (Decidable (queue.timerfd_.ready = true → queue.timers_.entries ≠ [] →
      ∃ entry ∈ queue.timers_.entries, entry.first ≤ clock queue.readings))
  | .addTimer _ | .addTimerInLoop _ | .addTimerHere _ | .fire | .poll => isTrue trivial

/-- `timerfd_settime` accepts what `resetTimerfd` computes. -/
private theorem resetTimerfd_armed (clock : Nat → Int) (queue : TimerQueue κ) (expiration : Int) :
    (queue.resetTimerfd clock expiration).ArmedFor expiration ∧
      (queue.resetTimerfd clock expiration).timerfd_.ready = false := by
  have clipped : (if expiration - clock queue.readings < 100 then 100 else expiration - clock queue.readings) =
      max 100 (expiration - clock queue.readings) := by
    split <;> omega
  have enough : 100 ≤ max 100 (expiration - clock queue.readings) := le_max_left _ _
  simp only [resetTimerfd, ArmedFor, clipped]
  generalize max 100 (expiration - clock queue.readings) = microSecondDif at enough
  have quotient : microSecondDif.tdiv kMicroSecondsPerSecond = microSecondDif / 1000000 :=
    Int.tdiv_eq_ediv_of_nonneg (by omega)
  have remainder : microSecondDif.tmod kMicroSecondsPerSecond = microSecondDif % 1000000 :=
    Int.tmod_eq_emod_of_nonneg (by omega)
  have shape : queue.timerfd_.settime ⟨microSecondDif / 1000000, microSecondDif % 1000000 * 1000⟩ =
      ⟨some ⟨microSecondDif / 1000000, microSecondDif % 1000000 * 1000⟩, false⟩ := by
    unfold Timerfd.settime
    rw [if_neg (by dsimp only; omega), if_neg (by rw [Timespec.mk.injEq]; omega)]
  rw [quotient, remainder, shape]
  refine ⟨⟨_, rfl, ?_, ?_⟩, rfl⟩
  · rw [ne_eq, Timespec.mk.injEq]
    omega
  · simp only [Timespec.nanoSeconds]
    omega

private theorem first_earliest {queue : TimerQueue κ} {first : Entry} (head : queue.timers_.entries.head? = some first) :
    first ∈ queue.timers_.entries ∧ ∀ entry ∈ queue.timers_.entries, first.first ≤ entry.first :=
  ⟨List.mem_of_head? head, fun entry member => Entry.first_le (OrderedSet.first_least head entry member)⟩

private theorem rearmed_armed (clock : Nat → Int) (queue : TimerQueue κ) : Armed (queue.rearmed clock) := by
  unfold rearmed
  cases head : queue.timers_.entries.head? with
  | none => exact fun occupied => absurd (List.head?_eq_none_iff.mp head) occupied
  | some first =>
    obtain ⟨member, least⟩ := first_earliest head
    exact fun _ => .inr ⟨first, member, least, (resetTimerfd_armed clock queue first.first).1⟩

/-- `addTimerInLoop` arms for a new earliest timer, and needs to for no other. -/
private theorem arrived_armed {queue : TimerQueue κ} {entry : Entry} (armed : Armed queue) :
    Armed (queue.arrived clock entry) := by
  intro _
  rw [arrived_timers]
  cases new : queue.earliest entry.first with
  | true =>
    have arms : queue.arrived clock entry = (queue.inserted entry).resetTimerfd clock entry.first := by
      simp [arrived, new]
    refine .inr ⟨entry, OrderedSet.mem_insert.mpr (.inl rfl), fun other member => ?_, ?_⟩
    · rcases OrderedSet.mem_insert.mp member with rfl | earlier
      · exact le_rfl
      · simp only [earliest] at new
        split at new
        next none =>
          rw [List.head?_eq_none_iff.mp none] at earlier
          cases earlier
        next first head =>
          exact ((of_decide_eq_true new).trans_le ((first_earliest head).2 other earlier)).le
    · rw [arms]
      exact (resetTimerfd_armed clock _ _).1
  | false =>
    have keeps : queue.arrived clock entry = queue.inserted entry := by simp [arrived, new]
    rw [keeps]
    simp only [earliest] at new
    split at new
    · cases new
    next first head =>
      obtain ⟨present, least⟩ := first_earliest head
      apply (armed (List.ne_nil_of_mem present)).imp id
      rintro ⟨old, member, before, armedFor⟩
      refine ⟨old, OrderedSet.mem_insert.mpr (.inr member), fun other inside => ?_, armedFor⟩
      rcases OrderedSet.mem_insert.mp inside with rfl | earlier
      · exact (before first present).trans (not_lt.mp (of_decide_eq_false new))
      · exact before other earlier

private theorem reset_armed {expired : List Entry} {queue after : TimerQueue κ} (keyed : Keyed queue expired)
    (some_expired : expired ≠ []) (resets : reset clock expired queue = some after) : Armed after := by
  induction expired generalizing queue with
  | nil => exact absurd rfl some_expired
  | cons entry expired ih =>
    obtain ⟨middle, renews, middleKeyed, _⟩ := renew_resets clock keyed
    simp only [reset, List.foldlM_cons, renews, Option.bind_some, rearm_eq middleKeyed] at resets
    cases expired with
    | nil =>
      cases resets
      exact rearmed_armed clock middle
    | cons next expired => exact ih middleKeyed.rearmed (List.cons_ne_nil _ _) resets

def Unread (queue : TimerQueue κ) : Prop := queue.timerfd_.ready = true → queue.timerfd_.it_value = none

theorem Unread.of_timerfd {before after : TimerQueue κ} (unread : Unread before)
    (timerfd : after.timerfd_ = before.timerfd_ ∨ after.timerfd_.ready = false) : Unread after := by
  rcases timerfd with same | unready
  · rwa [Unread, same]
  · intro ready
    rw [unready] at ready
    cases ready

private theorem handleRead_unready {queue after : TimerQueue κ} {calls : List (List (NewTimer κ))} (keyed : Keyed queue [])
    (handled : queue.handleRead clock calls = some after) : after.timerfd_.ready = false := by
  rw [handleRead_eq keyed, Option.bind_eq_some_iff] at handled
  obtain ⟨called, runs, resets⟩ := handled
  have opened : Keyed (queue.opened (clock queue.readings)) (queue.due (clock queue.readings)) := keyed.opened
  obtain ⟨calledKeyed, adds⟩ := runExpired_adds opened (List.Subset.refl _) runs
  obtain ⟨final, same, _, reset⟩ := reset_resets clock calledKeyed
  cases resets.symm.trans same
  rcases reset.timerfd with kept | unready
  · rw [kept]
    rcases adds.timerfd with kept | unready
    · rw [kept]
      rfl
    · exact unready
  · exact unready

private theorem handleRead_idle {queue after : TimerQueue κ} {calls : List (List (NewTimer κ))} (keyed : Keyed queue [])
    (idle : queue.due (clock queue.readings) = []) (handled : queue.handleRead clock calls = some after) :
    after = queue.opened (clock queue.readings) ∧ after.timers_.entries = queue.timers_.entries := by
  have whole : queue.due (clock queue.readings) ++ (queue.opened (clock queue.readings)).timers_.entries =
      queue.timers_.entries := keyed.opened_whole
  rw [handleRead_eq keyed, Option.bind_eq_some_iff] at handled
  obtain ⟨called, runs, resets⟩ := handled
  rw [idle] at runs resets whole
  have same : called = queue.opened (clock queue.readings) := by
    cases calls with
    | nil => exact (Option.some.inj runs).symm
    | cons => cases runs
  cases resets
  exact ⟨same, same ▸ whole⟩

/-- A dispatch leaves the queue armed exactly when it was timely. -/
private theorem handleRead_armed_iff {queue after : TimerQueue κ} {calls : List (List (NewTimer κ))} (keyed : Keyed queue [])
    (unread : Unread queue) (armed : Armed queue) (handled : queue.handleRead clock calls = some after) :
    Armed after ↔ Timely clock (.handleRead calls) queue := by
  by_cases idle : queue.due (clock queue.readings) = []
  · obtain ⟨rfl, entries⟩ := handleRead_idle keyed idle handled
    have later : ¬ ∃ entry ∈ queue.timers_.entries, entry.first ≤ clock queue.readings := by
      rintro ⟨entry, member, expired⟩
      have due : entry ∈ queue.due (clock queue.readings) := List.mem_filter.mpr ⟨member, decide_eq_true expired⟩
      rw [idle] at due
      cases due
    simp only [Armed, entries, Timely]
    constructor
    · intro rearmed ready occupied
      rcases rearmed occupied with unready | ⟨_, _, _, value, set, _⟩
      · cases unready
      · have disarmed : queue.timerfd_.it_value = none := unread ready
        cases disarmed.symm.trans set
    · intro timely occupied
      rcases armed occupied with ready | ⟨earliest, member, least, armedFor⟩
      · exact absurd (timely ready occupied) later
      · exact .inr ⟨earliest, member, least, armedFor⟩
  · rw [handleRead_eq keyed, Option.bind_eq_some_iff] at handled
    obtain ⟨called, runs, resets⟩ := handled
    have opened : Keyed (queue.opened (clock queue.readings)) (queue.due (clock queue.readings)) := keyed.opened
    have calledKeyed := (runExpired_adds opened (List.Subset.refl _) runs).1
    refine ⟨fun _ _ _ => ?_, fun _ => reset_armed calledKeyed idle resets⟩
    obtain ⟨entry, member⟩ := List.exists_mem_of_ne_nil _ idle
    obtain ⟨inside, expired⟩ := List.mem_filter.mp member
    exact ⟨entry, inside, of_decide_eq_true expired⟩

structure Watched (queue : TimerQueue κ) : Prop where
  keyed : Keyed queue []
  unread : Unread queue

theorem step_watched {event : TimerEvent κ} {before after : TimerQueue κ} (watched : Watched before)
    (stepped : step clock event before = some after) : Watched after := by
  obtain ⟨keyed, unread⟩ := watched
  refine ⟨step_keyed keyed stepped, ?_⟩
  cases step_cases stepped with
  | adds => exact unread
  | arrives => exact Unread.of_timerfd unread (arrived_timerfd _ _)
  | addsHere timer added => exact unread.of_timerfd (addTimerHere_adds keyed added).2.timerfd
  | fires => exact fun _ => rfl
  | polls => exact unread
  | handles calls _ handled => exact unread.of_timerfd (.inr (handleRead_unready keyed.closed handled))

/-- Only a dispatch can leave the queue unarmed. -/
theorem step_armed_iff {event : TimerEvent κ} {before after : TimerQueue κ} (watched : Watched before)
    (armed : Armed before) (stepped : step clock event before = some after) :
    Armed after ↔ Timely clock event before := by
  obtain ⟨keyed, unread⟩ := watched
  cases step_cases stepped with
  | adds => exact iff_of_true armed trivial
  | arrives => exact iff_of_true (arrived_armed armed) trivial
  | addsHere timer added =>
    obtain ⟨_, rfl⟩ := addTimerHere_eq_some.mp added
    exact iff_of_true (arrived_armed armed) trivial
  | fires => exact iff_of_true (fun _ => .inl rfl) trivial
  | polls => exact iff_of_true armed trivial
  | handles calls _ handled =>
    have closed : Armed after ↔ Timely clock (.handleRead calls) { before with dispatching := false } :=
      handleRead_armed_iff keyed.closed unread armed handled
    exact closed

/-- After every operation of a run the queue is armed, exactly when every dispatch of a fired
timerfd reads the clock at or after the earliest expiration. -/
theorem pending_armed {events : List (TimerEvent κ)} {final : TimerQueue κ}
    (reached : (machine clock).run events new = some final) :
    (machine clock).Along (fun event queue => ∀ next, step clock event queue = some next → Armed next) events new ↔
      (machine clock).Along (Timely clock) events new := by
  have agree : ∀ event (before after : TimerQueue κ), Watched before ∧ Armed before →
      (machine clock).step event before = some after →
      ((∀ next, step clock event before = some next → Armed next) ↔ Timely clock event before) := by
    intro event before after held stepped
    rw [← step_armed_iff held.1 held.2 stepped]
    exact ⟨fun all => all after stepped, fun armed next same => Option.some.inj (stepped.symm.trans same) ▸ armed⟩
  have preserved : ∀ event (before after : TimerQueue κ), (∀ next, step clock event before = some next → Armed next) →
      Watched before ∧ Armed before → (machine clock).step event before = some after → Watched after ∧ Armed after :=
    fun _ _ after all held stepped => ⟨step_watched held.1 stepped, all after stepped⟩
  exact Machine.along_iff agree preserved reached
    ⟨⟨new_keyed, fun ready => by cases ready⟩, fun occupied => absurd rfl occupied⟩

/-- A timely dispatch renews a timer, and the queue is armed for it again. -/
theorem pending_armed_renewed :
    (machine fun reading => 10 * reading).Along
      (fun event queue => ∀ next, step (fun reading => 10 * reading) event queue = some next → Armed next)
      [.addTimerHere ⟨1, 7, 3, ⟨true, 5⟩⟩, .fire, .poll, .handleRead [[]]] (new : TimerQueue Nat) := by
  have computed : ((machine fun reading => 10 * reading).run
    [.addTimerHere ⟨1, 7, 3, ⟨true, 5⟩⟩, .fire, .poll, .handleRead [[]]] (new : TimerQueue Nat)).map
      (fun queue => queue.timers_.entries) = some [⟨25, 1⟩] := by
    decide +kernel
  obtain ⟨final, reached, _⟩ := Option.map_eq_some_iff.mp computed
  exact (pending_armed reached).mpr (by decide +kernel)

/-- The clock steps back before the dispatch. The timer is still there, and nothing will fire. -/
theorem dispatch_disarms : ∃ final : TimerQueue Nat,
    (machine fun reading => -10 * reading).run [.addTimerHere ⟨1, 7, 1000, ⟨false, 0⟩⟩, .fire, .poll, .handleRead []] new =
      some final ∧
    final.timers_.entries = [⟨1000, 1⟩] ∧ final.timerfd_ = ⟨none, false⟩ ∧ ¬ Armed final := by
  have computed : ((machine fun reading => -10 * reading).run
    [.addTimerHere ⟨1, 7, 1000, ⟨false, 0⟩⟩, .fire, .poll, .handleRead []] (new : TimerQueue Nat)).map
      (fun queue => (queue.timers_.entries, queue.timerfd_)) = some ([⟨1000, 1⟩], ⟨none, false⟩) := by
    decide +kernel
  obtain ⟨final, reached, seen⟩ := Option.map_eq_some_iff.mp computed
  simp only [Prod.mk.injEq] at seen
  refine ⟨final, reached, seen.1, seen.2, fun armed => ?_⟩
  simp only [Armed, ArmedFor, seen] at armed
  rcases armed (by simp) with ready | ⟨_, _, _, _, set, _⟩
  · cases ready
  · cases set

end TimerQueue
end Webserver
