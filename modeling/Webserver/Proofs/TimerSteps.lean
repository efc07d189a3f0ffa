import Webserver.TimerQueue

/-! What the operations on timers change, said once. Every entry of the set stands for one
live timer, and so does every entry that a dispatch has taken out of it. -/

namespace Webserver
open Library

universe u
variable {κ : Type u}

def NewTimer.entry (timer : NewTimer κ) : TimerQueue.Entry := ⟨timer.when, timer.address⟩

def NewTimer.timer (timer : NewTimer κ) : Timer κ := .new timer.cb timer.when timer.interval

theorem Timerfd.settime_cases (timerfd : Timerfd) (value : Timespec) :
    timerfd.settime value = timerfd ∨ (timerfd.settime value).ready = false := by
  unfold settime
  split
  · exact .inl rfl
  · split <;> exact .inr rfl

namespace TimerQueue
variable {clock : Nat → Int}

def earliest (queue : TimerQueue κ) (expiration : Int) : Bool :=
  match queue.timers_.entries.head? with
  | none => true
  | some first => expiration < first.first

def inserted (queue : TimerQueue κ) (entry : Entry) : TimerQueue κ :=
  { queue with timers_ := queue.timers_.insert entry }

def arrived (clock : Nat → Int) (queue : TimerQueue κ) (entry : Entry) : TimerQueue κ :=
  if queue.earliest entry.first then (queue.inserted entry).resetTimerfd clock entry.first else queue.inserted entry

theorem insert_eq (queue : TimerQueue κ) (timer : TimerPtr) :
    queue.insert timer = (queue.heap timer).map fun live =>
      (queue.earliest live.expiration_, queue.inserted ⟨live.expiration_, timer⟩) := rfl

private theorem addTimerInLoop_eq (queue : TimerQueue κ) (timer : TimerPtr) :
    queue.addTimerInLoop clock timer =
      (queue.heap timer).map fun live => queue.arrived clock ⟨live.expiration_, timer⟩ := by
  unfold addTimerInLoop
  rw [insert_eq]
  cases live : queue.heap timer with
  | none => rfl
  | some live =>
    simp only [Option.map_some, Option.bind_some, arrived]
    split
    next => simp [inserted, *]
    next => rfl

section Arrival
variable (queue : TimerQueue κ) (entry : Entry)

@[simp]
theorem arrived_timers : (queue.arrived clock entry).timers_ = queue.timers_.insert entry := by
  unfold arrived
  split <;> rfl

@[simp]
theorem arrived_heap : (queue.arrived clock entry).heap = queue.heap := by
  unfold arrived
  split <;> rfl

@[simp]
theorem arrived_queued : (queue.arrived clock entry).queued = queue.queued := by
  unfold arrived
  split <;> rfl

@[simp]
theorem arrived_ran : (queue.arrived clock entry).ran = queue.ran := by
  unfold arrived
  split <;> rfl

@[simp]
theorem arrived_freed : (queue.arrived clock entry).freed = queue.freed := by
  unfold arrived
  split <;> rfl

theorem arrived_timerfd :
    (queue.arrived clock entry).timerfd_ = queue.timerfd_ ∨ (queue.arrived clock entry).timerfd_.ready = false := by
  unfold arrived
  split
  · exact Timerfd.settime_cases ..
  · exact .inl rfl

theorem arrived_readings : queue.readings ≤ (queue.arrived clock entry).readings := by
  unfold arrived
  split
  · exact Nat.le_succ _
  · exact le_rfl

end Arrival

def allocated (queue : TimerQueue κ) (timer : NewTimer κ) : TimerQueue κ :=
  { queue with heap := Function.update queue.heap timer.address (some timer.timer) }

/-- `new` can return this address. -/
def Free (queue : TimerQueue κ) (address : TimerPtr) : Prop := queue.heap address = none ∧ address < UINTPTR_MAX

private theorem allocate_eq_some {queue after : TimerQueue κ} {timer : NewTimer κ} :
    queue.allocate timer = some after ↔ queue.Free timer.address ∧ after = queue.allocated timer := by
  simp only [allocate, Free, Option.isNone_iff_eq_none]
  split
  next free => simp [free, allocated, NewTimer.timer, eq_comm]
  next taken => simp [taken]

theorem addTimerHere_eq_some {queue after : TimerQueue κ} {timer : NewTimer κ} :
    queue.addTimerHere clock timer = some after ↔
      queue.Free timer.address ∧ after = (queue.allocated timer).arrived clock timer.entry := by
  have live : (queue.allocated timer).heap timer.address = some timer.timer := Function.update_self ..
  simp only [addTimerHere, Option.bind_eq_some_iff, allocate_eq_some, addTimerInLoop_eq]
  constructor
  · rintro ⟨_, ⟨free, rfl⟩, arrives⟩
    rw [live] at arrives
    exact ⟨free, (Option.some.inj arrives).symm⟩
  · rintro ⟨free, rfl⟩
    exact ⟨_, ⟨free, rfl⟩, by rw [live]; rfl⟩

inductive Operation (clock : Nat → Int) (before : TimerQueue κ) : TimerEvent κ → TimerQueue κ → Prop where
  | adds (timer : NewTimer κ) (free : before.Free timer.address) :
      Operation clock before (.addTimer timer)
        { before.allocated timer with queued := before.queued ++ [timer.address] }
  | arrives (timer : TimerPtr) (live : Timer κ) (member : timer ∈ before.queued) (found : before.heap timer = some live) :
      Operation clock before (.addTimerInLoop timer)
        ({ before with queued := before.queued.erase timer }.arrived clock ⟨live.expiration_, timer⟩)
  | addsHere (timer : NewTimer κ) {after : TimerQueue κ} (added : before.addTimerHere clock timer = some after) :
      Operation clock before (.addTimerHere timer) after
  | fires (armed : before.timerfd_.it_value.isSome = true) :
      Operation clock before .fire { before with timerfd_ := ⟨none, true⟩ }
  | polls (ready : before.timerfd_.ready = true) : Operation clock before .poll { before with dispatching := true }
  | handles (calls : List (List (NewTimer κ))) {after : TimerQueue κ} (dispatching : before.dispatching = true)
      (handled : { before with dispatching := false }.handleRead clock calls = some after) :
      Operation clock before (.handleRead calls) after

theorem step_cases {event : TimerEvent κ} {before after : TimerQueue κ} (stepped : step clock event before = some after) :
    Operation clock before event after := by
  cases event with
  | addTimer timer =>
    obtain ⟨_, allocates, rfl⟩ := Option.map_eq_some_iff.mp stepped
    obtain ⟨free, rfl⟩ := allocate_eq_some.mp allocates
    exact .adds timer free
  | addTimerInLoop timer =>
    simp only [step, addTimerInLoop_eq] at stepped
    split at stepped
    next member =>
      obtain ⟨live, found, rfl⟩ := Option.map_eq_some_iff.mp stepped
      exact .arrives timer live member found
    · cases stepped
  | addTimerHere timer => exact .addsHere timer stepped
  | fire =>
    simp only [step] at stepped
    split at stepped
    next armed => cases stepped; exact .fires armed
    · cases stepped
  | poll =>
    simp only [step] at stepped
    split at stepped
    next ready => cases stepped; exact .polls ready
    · cases stepped
  | handleRead calls =>
    simp only [step] at stepped
    split at stepped
    next dispatching => exact .handles calls dispatching stepped
    · cases stepped

/-- The timers that the set, the queued functors and a dispatch under way hold. -/
def owned (queue : TimerQueue κ) (out : List Entry) : List TimerPtr :=
  out.map Entry.second ++ queue.timers_.entries.map Entry.second ++ queue.queued

/-- `out` are the entries that a dispatch under way has taken out of the set. -/
structure Keyed (queue : TimerQueue κ) (out : List Entry) : Prop where
  live : ∀ entry ∈ out ++ queue.timers_.entries,
    ∃ timer, queue.heap entry.second = some timer ∧ timer.expiration_ = entry.first
  held : ∀ timer ∈ queue.queued, queue.heap timer ≠ none
  low : ∀ timer, queue.heap timer ≠ none → timer < UINTPTR_MAX
  once : (queue.owned out).Nodup

namespace Keyed
variable {queue after : TimerQueue κ} {out rest : List Entry} {entry : Entry}

theorem congr (keyed : Keyed queue out) (timers : after.timers_ = queue.timers_) (heap : after.heap = queue.heap)
    (queued : after.queued = queue.queued) : Keyed after out := by
  obtain ⟨live, held, low, once⟩ := keyed
  refine ⟨?_, ?_, ?_, ?_⟩
  · rwa [timers, heap]
  · rwa [heap, queued]
  · rwa [heap]
  · rwa [owned, timers, queued]

theorem owned_live (keyed : Keyed queue out) {timer : TimerPtr} (member : timer ∈ queue.owned out) :
    queue.heap timer ≠ none := by
  rcases List.mem_append.mp member with listed | queued
  · rw [← List.map_append] at listed
    obtain ⟨entry, inside, rfl⟩ := List.mem_map.mp listed
    obtain ⟨live, found, _⟩ := keyed.live entry inside
    simp [found]
  · exact keyed.held timer queued

/-- A timer that nobody holds can be made or changed. -/
theorem update (keyed : Keyed queue out) {timer : TimerPtr} {value : Option (Timer κ)}
    (alone : timer ∉ queue.owned out) (low : value ≠ none → timer < UINTPTR_MAX) :
    Keyed { queue with heap := Function.update queue.heap timer value } out := by
  have other : ∀ held ∈ queue.owned out, Function.update queue.heap timer value held = queue.heap held :=
    fun held member => Function.update_of_ne (fun same : held = timer => alone (same ▸ member)) ..
  refine ⟨fun entry member => ?_, fun held member => ?_, fun held present => ?_, keyed.once⟩
  · have inside : entry.second ∈ queue.owned out := by
      simp only [owned, ← List.map_append]
      exact List.mem_append_left _ (List.mem_map_of_mem member)
    simp only [other _ inside]
    exact keyed.live entry member
  · simp only [other held (List.mem_append_right _ member)]
    exact keyed.held held member
  · by_cases same : held = timer
    · subst same
      exact low (by simpa using present)
    · exact keyed.low held (by simpa [Function.update_of_ne same] using present)

theorem fresh (alone : entry.second ∉ queue.owned out) : entry ∉ queue.timers_.entries := by
  intro member
  apply alone
  simp only [owned]
  exact List.mem_append_left _ (List.mem_append_right _ (List.mem_map_of_mem member))

theorem inserted (keyed : Keyed queue out) {live : Timer κ} (found : queue.heap entry.second = some live)
    (key : live.expiration_ = entry.first) (alone : entry.second ∉ queue.owned out) :
    Keyed (queue.inserted entry) out := by
  have entries : (queue.inserted entry).timers_.entries.Perm (entry :: queue.timers_.entries) :=
    OrderedSet.insert_perm (fresh alone)
  refine ⟨fun other member => ?_, keyed.held, keyed.low, ?_⟩
  · rcases List.mem_append.mp member with taken | inside
    · exact keyed.live other (List.mem_append_left _ taken)
    · rcases List.mem_cons.mp (entries.mem_iff.mp inside) with rfl | earlier
      · exact ⟨live, found, key⟩
      · exact keyed.live other (List.mem_append_right _ earlier)
  · have perm : List.Perm ((queue.inserted entry).owned out) (entry.second :: queue.owned out) := by
      have middle : List.Perm (out.map Entry.second ++ (entry :: queue.timers_.entries).map Entry.second)
          (entry.second :: (out.map Entry.second ++ queue.timers_.entries.map Entry.second)) := List.perm_middle
      exact (((entries.map Entry.second).append_left _).trans middle).append_right _
    exact perm.nodup_iff.mpr (List.nodup_cons.mpr ⟨alone, keyed.once⟩)

theorem arrived (keyed : Keyed queue out) {live : Timer κ} (found : queue.heap entry.second = some live)
    (key : live.expiration_ = entry.first) (alone : entry.second ∉ queue.owned out) :
    Keyed (queue.arrived clock entry) out :=
  (keyed.inserted found key alone).congr (arrived_timers _ _) (arrived_heap _ _) (arrived_queued _ _)

theorem drop (keyed : Keyed queue (entry :: rest)) : Keyed queue rest ∧ entry.second ∉ queue.owned rest := by
  obtain ⟨alone, once⟩ := List.nodup_cons.mp (show (entry.second :: queue.owned rest).Nodup from keyed.once)
  exact ⟨⟨fun other member => keyed.live other (List.mem_cons_of_mem _ member), keyed.held, keyed.low, once⟩, alone⟩

end Keyed

structure Adds (before : TimerQueue κ) (timers : List (NewTimer κ)) (called : List (TimerPtr × κ))
    (after : TimerQueue κ) : Prop where
  entries : after.timers_.entries.Perm (timers.map NewTimer.entry ++ before.timers_.entries)
  made : ∀ timer ∈ timers, before.heap timer.address = none ∧ after.heap timer.address = some timer.timer
  same : ∀ address, address ∉ timers.map NewTimer.address → after.heap address = before.heap address
  ran : after.ran = before.ran ++ called
  queued : after.queued = before.queued
  freed : after.freed = before.freed
  readings : before.readings ≤ after.readings
  timerfd : after.timerfd_ = before.timerfd_ ∨ after.timerfd_.ready = false

namespace Adds
variable {before middle after : TimerQueue κ} {first second : List (NewTimer κ)} {earlier later : List (TimerPtr × κ)}

theorem refl (queue : TimerQueue κ) : Adds queue [] [] queue :=
  ⟨.refl _, fun _ member => absurd member List.not_mem_nil, fun _ _ => rfl, (List.append_nil _).symm, rfl, rfl, le_rfl, .inl rfl⟩

theorem live_same (adds : Adds before first earlier after) {address : TimerPtr} (live : before.heap address ≠ none) :
    after.heap address = before.heap address := by
  apply adds.same
  intro member
  obtain ⟨timer, inside, rfl⟩ := List.mem_map.mp member
  exact live (adds.made timer inside).1

theorem trans (adds : Adds before first earlier middle) (more : Adds middle second later after) :
    Adds before (first ++ second) (earlier ++ later) after where
  entries := by
    have swap : List.Perm (second.map NewTimer.entry ++ (first.map NewTimer.entry ++ before.timers_.entries))
        (first.map NewTimer.entry ++ (second.map NewTimer.entry ++ before.timers_.entries)) :=
      List.perm_append_comm_assoc _ _ _
    simpa using (more.entries.trans (adds.entries.append_left _)).trans swap
  made timer member := by
    rcases List.mem_append.mp member with inside | inside
    · obtain ⟨free, made⟩ := adds.made timer inside
      exact ⟨free, by rw [more.live_same (by simp [made]), made]⟩
    · obtain ⟨free, made⟩ := more.made timer inside
      refine ⟨?_, made⟩
      by_contra live
      exact live (adds.live_same live ▸ free)
  same address outside := by
    simp only [List.map_append, List.mem_append, not_or] at outside
    rw [more.same address outside.2, adds.same address outside.1]
  ran := by rw [more.ran, adds.ran, List.append_assoc]
  queued := more.queued.trans adds.queued
  freed := more.freed.trans adds.freed
  readings := adds.readings.trans more.readings
  timerfd := by
    rcases more.timerfd with same | unready
    · rw [same]
      exact adds.timerfd
    · exact .inr unready

end Adds

theorem Free.alone {queue : TimerQueue κ} {out : List Entry} {address : TimerPtr} (free : queue.Free address)
    (keyed : Keyed queue out) : address ∉ queue.owned out :=
  fun member => keyed.owned_live member free.1

theorem addTimerHere_adds {queue after : TimerQueue κ} {out : List Entry} {timer : NewTimer κ}
    (keyed : Keyed queue out) (added : queue.addTimerHere clock timer = some after) :
    Keyed after out ∧ Adds queue [timer] [] after := by
  obtain ⟨free, rfl⟩ := addTimerHere_eq_some.mp added
  have alone : timer.entry.second ∉ queue.owned out := free.alone keyed
  have made : (queue.allocated timer).heap timer.address = some timer.timer := Function.update_self ..
  have allocated : Keyed (queue.allocated timer) out := keyed.update alone fun _ => free.2
  refine ⟨allocated.arrived made rfl alone, ?_, ?_, ?_, ?_, ?_, ?_, ?_, ?_⟩
  · rw [arrived_timers]
    exact OrderedSet.insert_perm (Keyed.fresh alone)
  · intro other member
    cases List.mem_singleton.mp member
    exact ⟨free.1, by simpa using made⟩
  · intro address outside
    rw [arrived_heap]
    exact Function.update_of_ne (by simpa using outside) ..
  · rw [arrived_ran, List.append_nil]
    rfl
  · exact arrived_queued ..
  · exact arrived_freed ..
  · exact arrived_readings (queue.allocated timer) timer.entry
  · exact arrived_timerfd (queue.allocated timer) timer.entry

theorem call_adds {call : List (NewTimer κ)} {queue after : TimerQueue κ} {out : List Entry} (keyed : Keyed queue out)
    (added : call.foldlM (addTimerHere clock) queue = some after) : Keyed after out ∧ Adds queue call [] after := by
  induction call generalizing queue with
  | nil =>
    cases added
    exact ⟨keyed, .refl _⟩
  | cons timer call ih =>
    obtain ⟨next, first, rest⟩ := Option.bind_eq_some_iff.mp (show
      (queue.addTimerHere clock timer).bind (call.foldlM (addTimerHere clock)) = some after from added)
    obtain ⟨nextKeyed, adds⟩ := addTimerHere_adds keyed first
    obtain ⟨afterKeyed, more⟩ := ih nextKeyed rest
    exact ⟨afterKeyed, adds.trans more⟩

end TimerQueue
end Webserver
