import Mathlib.Data.List.Nodup
import Mathlib.Data.List.Perm.Subperm
import Webserver.PollRounds

/-! No ready channel starves: whichever channels the kernel reports, a round that leaves one
out fills `events_`, which then doubles, so that there are few such rounds in a run. -/

namespace Webserver
open Library

universe u
variable {ι : Type u}

namespace RoundEvent
variable [DecidableEq ι]

def readies (i : ι) : RoundEvent ι → Bool
  | .poll ready _ => i ∈ ready.map Prod.fst
  | _ => false

def handles (i : ι) : RoundEvent ι → Bool
  | .handleEvent other _ => other = i
  | _ => false

end RoundEvent

namespace PollRounds
variable {n missed : Nat} {state after : PollRounds ι} {past : List (RoundEvent ι)}

private theorem poll_activeChannels (reported : List (ι × Mask)) (state : PollRounds ι) :
    (state.poll reported).activeChannels_ = state.activeChannels_ ++ reported := by
  unfold poll fillActiveChannels
  split
  · dsimp only
    split <;> rfl
  next empty =>
    rw [List.eq_nil_of_length_eq_zero (Nat.eq_zero_of_not_pos empty), List.append_nil]

private theorem poll_events {reported : List (ι × Mask)} {state : PollRounds ι} (positive : 0 < state.events_) :
    (state.poll reported).events_ = if reported.length = state.events_ then state.events_ * 2 else state.events_ := by
  unfold poll fillActiveChannels
  dsimp only
  split
  · split <;> rfl
  next empty => rw [if_neg (by omega)]

theorem Waits.filled {ready reported : List (ι × Mask)} (waits : state.Waits ready reported) :
    reported.length = ready.length ∨ reported.length = state.events_ ∧ state.events_ < ready.length := by
  have := waits.2.2.2.2
  omega

theorem Waits.whole {ready reported : List (ι × Mask)} (waits : state.Waits ready reported)
    (all : reported.length = ready.length) {i : ι} (member : i ∈ ready.map Prod.fst) : i ∈ reported.map Prod.fst := by
  obtain ⟨_, _, among, once, _⟩ := waits
  have every := ((List.Nodup.of_map _ once).subperm among).perm_of_length_le (Nat.le_of_eq all.symm)
  exact (every.map Prod.fst).mem_iff.mpr member

variable [DecidableEq ι]

/-- `missed` rounds of the past have left a ready channel out. -/
structure Fair (n : Nat) (state : PollRounds ι) (missed : Nat) (past : List (RoundEvent ι)) : Prop where
  grown : kInitEventListSize * Nat.pow 2 missed ≤ state.events_
  room : state.events_ ≤ max kInitEventListSize (2 * n)
  limit : missed = 0 ∨ kInitEventListSize * Nat.pow 2 (missed - 1) < n
  served : ∀ i, past.countP (RoundEvent.readies i) ≤
    past.countP (RoundEvent.handles i) + (state.activeChannels_.map Prod.fst).count i + missed

namespace Fair

theorem positive (fair : Fair n state missed past) : 0 < state.events_ :=
  Nat.lt_of_lt_of_le (Nat.mul_pos (by decide) (Nat.pow_pos (by decide))) fair.grown

theorem complete {ready reported : List (ι × Mask)} (fair : Fair n state missed past) (few : ready.length ≤ n)
    (idle : state.activeChannels_ = []) (waits : state.Waits ready reported) (all : reported.length = ready.length) :
    Fair n (state.poll reported) missed (past ++ [.poll ready reported]) where
  grown := by
    rw [poll_events fair.positive]
    have := fair.grown
    split <;> omega
  room := by
    rw [poll_events fair.positive]
    have := fair.room
    split <;> omega
  limit := fair.limit
  served i := by
    have before := fair.served i
    rw [idle, List.map_nil, List.count_nil] at before
    rw [poll_activeChannels, idle, List.nil_append, List.countP_append, List.countP_append, List.countP_singleton,
      List.countP_singleton]
    simp only [RoundEvent.handles, RoundEvent.readies, decide_eq_true_eq, Bool.false_eq_true, if_false]
    split
    next member =>
      have := List.count_pos_iff.mpr (waits.whole all member)
      omega
    next => omega

/-- A round that leaves one out makes the vector larger. -/
theorem incomplete {ready reported : List (ι × Mask)} (fair : Fair n state missed past) (few : ready.length ≤ n)
    (idle : state.activeChannels_ = []) (full : reported.length = state.events_) (more : state.events_ < ready.length) :
    Fair n (state.poll reported) (missed + 1) (past ++ [.poll ready reported]) where
  grown := by
    have grown := fair.grown
    rw [poll_events fair.positive, if_pos full]
    have double : Nat.pow 2 (missed + 1) = Nat.pow 2 missed * 2 := Nat.pow_succ ..
    rw [double, ← Nat.mul_assoc]
    exact Nat.mul_le_mul_right 2 grown
  room := by
    rw [poll_events fair.positive, if_pos full]
    omega
  limit := by
    have := fair.grown
    rw [Nat.add_sub_cancel]
    omega
  served i := by
    have before := fair.served i
    rw [idle] at before
    rw [List.countP_append, List.countP_append, List.countP_singleton, List.countP_singleton]
    simp only [RoundEvent.handles, List.map_nil, List.count_nil] at before ⊢
    split <;> omega

theorem other {event : RoundEvent ι} (fair : Fair n state missed past) (events_ : after.events_ = state.events_)
    (calm : ∀ i, event.readies i = false) (handled : ∀ i, (state.activeChannels_.map Prod.fst).count i ≤
      [event].countP (RoundEvent.handles i) + (after.activeChannels_.map Prod.fst).count i) :
    Fair n after missed (past ++ [event]) where
  grown := events_ ▸ fair.grown
  room := events_ ▸ fair.room
  limit := fair.limit
  served i := by
    have before := fair.served i
    have now := handled i
    rw [List.countP_append, List.countP_append, List.countP_singleton, calm i]
    simp only [Bool.false_eq_true, if_false]
    omega

theorem step {event : RoundEvent ι} (fair : Fair n state missed past)
    (few : ∀ ready reported, event = .poll ready reported → ready.length ≤ n)
    (stepped : PollRounds.step event state = some after) : ∃ missed, Fair n after missed (past ++ [event]) := by
  cases event with
  | change event =>
    obtain ⟨polled, _, rfl⟩ := Option.map_eq_some_iff.mp stepped
    exact ⟨missed, fair.other rfl (fun _ => rfl) fun i => Nat.le_add_left _ _⟩
  | poll ready reported =>
    obtain ⟨⟨idle, _, waits⟩, stepped⟩ := Option.ite_none_right_eq_some.mp stepped
    cases stepped
    rcases waits.filled with all | ⟨full, more⟩
    · exact ⟨missed, fair.complete (few ready reported rfl) idle waits all⟩
    · exact ⟨missed + 1, fair.incomplete (few ready reported rfl) idle full more⟩
  | interrupt =>
    obtain ⟨_, stepped⟩ := Option.ite_none_right_eq_some.mp stepped
    cases stepped
    exact ⟨missed, fair.other rfl (fun _ => rfl) fun i => Nat.le_add_left _ _⟩
  | handleEvent i revents =>
    cases found : state.activeChannels_ with
    | nil =>
      rw [PollRounds.step, found] at stepped
      cases stepped
    | cons channel rest =>
      rw [PollRounds.step, found] at stepped
      obtain ⟨rfl, popped⟩ := Option.ite_none_right_eq_some.mp stepped
      obtain rfl := Option.some.inj popped
      refine ⟨missed, fair.other rfl (fun _ => rfl) fun j => ?_⟩
      rw [found, List.map_cons, List.count_cons, List.countP_singleton]
      simp only [RoundEvent.handles, beq_iff_eq, decide_eq_true_eq]
      omega

theorem run {events : List (RoundEvent ι)} {final : PollRounds ι} (fair : Fair n state missed past)
    (few : ∀ ready reported, .poll ready reported ∈ events → ready.length ≤ n)
    (reached : machine.run events state = some final) : ∃ missed, Fair n final missed (past ++ events) := by
  induction events generalizing state missed past with
  | nil =>
    cases reached
    exact ⟨missed, by rwa [List.append_nil]⟩
  | cons event events ih =>
    obtain ⟨next, stepped, later⟩ := (machine.run_cons _ _ _ _).mp reached
    obtain ⟨missed, still⟩ := fair.step (fun ready reported same => few ready reported (same ▸ List.mem_cons_self)) stepped
    obtain ⟨missed, whole⟩ := ih still (fun ready reported member => few ready reported (List.mem_cons_of_mem _ member)) later
    exact ⟨missed, by rwa [List.append_assoc] at whole⟩

theorem new (n : Nat) (address fd : ι → Nat) : Fair n (PollRounds.new address fd) 0 [] where
  grown := Nat.le_refl _
  room := Nat.le_max_left _ _
  limit := .inl rfl
  served _ := Nat.zero_le _

end Fair

/-- Where never more than `n` channels are ready, each of them is handled in every round in
which it is ready but for `missed`, whatever the kernel reports first: as many as `events_`
has to be doubled to have room for `n`. -/
theorem ready_handled (address fd : ι → Nat) {n : Nat} {events : List (RoundEvent ι)} {final : PollRounds ι}
    (few : ∀ ready reported, .poll ready reported ∈ events → ready.length ≤ n)
    (reached : machine.run events (new address fd) = some final) (handled : final.activeChannels_ = []) :
    ∃ missed, (missed = 0 ∨ kInitEventListSize * Nat.pow 2 (missed - 1) < n) ∧
      final.events_ ≤ max kInitEventListSize (2 * n) ∧
      ∀ i, events.countP (RoundEvent.readies i) ≤ events.countP (RoundEvent.handles i) + missed := by
  obtain ⟨missed, fair⟩ := (Fair.new n address fd).run few reached
  refine ⟨missed, fair.limit, fair.room, fun i => ?_⟩
  have served := fair.served i
  rw [handled] at served
  exact served

/-- Seventeen channels are ready in two rounds. The first has no room for the last of them,
which the second handles. -/
theorem ready_handled_seventeen :
    ∃ (ready : List (Nat × Mask)) (events : List (RoundEvent Nat)) (final : PollRounds Nat),
      ready = (List.range 17).map (fun i => (i, EPOLLIN)) ∧
      events = (List.range 17).map (fun i => .change (.enableReading i)) ++
        (.poll ready (ready.take 16) :: (ready.take 16).map fun event => .handleEvent event.1 event.2) ++
        (.poll ready ready :: ready.map fun event => .handleEvent event.1 event.2) ∧
      machine.run events (new id id) = some final ∧
      events.countP (RoundEvent.readies 16) = 2 ∧ events.countP (RoundEvent.handles 16) = 1 ∧
      ∃ missed, (missed = 0 ∨ kInitEventListSize * Nat.pow 2 (missed - 1) < 17) ∧
        final.events_ ≤ max kInitEventListSize 34 ∧
        ∀ i, events.countP (RoundEvent.readies i) ≤ events.countP (RoundEvent.handles i) + missed := by
  let ready : List (Nat × Mask) := (List.range 17).map fun i => (i, EPOLLIN)
  let events : List (RoundEvent Nat) := (List.range 17).map (fun i => .change (.enableReading i)) ++
    (.poll ready (ready.take 16) :: (ready.take 16).map fun event => .handleEvent event.1 event.2) ++
    (.poll ready ready :: ready.map fun event => .handleEvent event.1 event.2)
  obtain ⟨final, reached, handled⟩ := Option.map_eq_some_iff.mp
    (show (machine.run events (new id id)).map PollRounds.activeChannels_ = some [] by decide +kernel)
  refine ⟨ready, events, final, rfl, rfl, reached, by decide +kernel, by decide +kernel, ready_handled id id ?_ reached handled⟩
  intro first reported member
  have polled : first = ready := by
    simp only [events, List.mem_append, List.mem_cons, List.mem_map, reduceCtorEq, and_false, exists_false, false_or, or_false,
      RoundEvent.poll.injEq] at member
    rcases member with same | same <;> exact same.1
  rw [polled]
  exact Nat.le_refl 17

end PollRounds
end Webserver
