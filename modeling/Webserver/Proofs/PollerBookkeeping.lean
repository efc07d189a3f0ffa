import Webserver.PolledChannels
import Webserver.Proofs.ConnectionEffects

/-! The three records of a channel's registration: its own `index_`, the poller's
map and the kernel's interest list. -/

namespace Webserver
open Library

universe u

namespace EPollPoller

private theorem epoll_ctl_elsewhere {registered after : Nat → Option Mask} {operation : EpollOperation} {fd : Nat}
    {events : Mask} (accepted : epoll_ctl registered operation fd events = some after) {other : Nat} (apart : other ≠ fd) :
    after other = registered other := by
  cases operation <;> cases present : registered fd <;> simp only [epoll_ctl, present] at accepted
  all_goals first | (cases accepted; exact Function.update_of_ne apart _ _) | cases accepted

private theorem update_elsewhere (poller : EPollPoller) (operation : EpollOperation) (channel : Channel) {other : Nat}
    (apart : other ≠ channel.fd_) : (poller.update operation channel).epollfd_ other = poller.epollfd_ other := by
  unfold update
  split
  next registered accepted => exact epoll_ctl_elsewhere accepted apart
  next refused => split <;> rfl

@[simp]
theorem update_channels (poller : EPollPoller) (operation : EpollOperation) (channel : Channel) :
    (poller.update operation channel).channels_ = poller.channels_ := by
  unfold update
  split
  next => rfl
  next => split <;> rfl

theorem update_fatal {poller : EPollPoller} {operation : EpollOperation} {channel : Channel}
    (accepted : (epoll_ctl poller.epollfd_ operation channel.fd_ channel.events_).isSome) :
    (poller.update operation channel).fatal = poller.fatal := by
  obtain ⟨registered, same⟩ := Option.isSome_iff_exists.mp accepted
  simp [update, same]

/-- `updateChannel` enters a new channel in the map, then makes its request. -/
theorem updateChannel_poller (poller : EPollPoller) (channel : Channel) :
    (poller.updateChannel channel).1 =
      { poller with
        channels_ := if channel.index_ = Index.kNew then Function.update poller.channels_ channel.fd_ (some channel.address)
          else poller.channels_ }.update (updateRequest channel) channel := by
  cases index : channel.index_ with
  | kNew | kDeleted => simp [updateChannel, updateRequest, index, update]
  | kAdded =>
    simp only [updateChannel, updateRequest, index]
    split <;> rfl

/-- `removeChannel` erases the channel from the map, then makes its request if it has one. -/
private theorem removeChannel_poller (poller : EPollPoller) (channel : Channel) :
    (poller.removeChannel channel).1 =
      let erased := { poller with channels_ := Function.update poller.channels_ channel.fd_ none }
      ((removeRequest channel).map fun operation => erased.update operation channel).getD erased := by
  unfold removeChannel removeRequest
  split <;> rfl

structure Elsewhere (before after : EPollPoller) (fd : Nat) : Prop where
  registered : after.epollfd_ fd = before.epollfd_ fd
  mapped : after.channels_ fd = before.channels_ fd

theorem updateChannel_elsewhere (poller : EPollPoller) (channel : Channel) {other : Nat} (apart : other ≠ channel.fd_) :
    Elsewhere poller (poller.updateChannel channel).1 other := by
  rw [updateChannel_poller]
  constructor
  · rw [update_elsewhere _ _ _ apart]
  · rw [update_channels]
    split
    · exact Function.update_of_ne apart _ _
    · rfl

theorem removeChannel_elsewhere (poller : EPollPoller) (channel : Channel) {other : Nat} (apart : other ≠ channel.fd_) :
    Elsewhere poller (poller.removeChannel channel).1 other := by
  have erased : Function.update poller.channels_ channel.fd_ none other = poller.channels_ other :=
    Function.update_of_ne apart _ _
  rw [removeChannel_poller]
  cases removeRequest channel with
  | none => exact ⟨rfl, erased⟩
  | some operation => exact ⟨update_elsewhere _ _ _ apart, by simpa using erased⟩

/-- The map points to the channel from the first update to the removal. -/
def Maps (poller : EPollPoller) (channel : Channel) : Prop :=
  poller.channels_ channel.fd_ = if channel.index_ = .kNew then none else some channel.address

theorem updateChannel_address (poller : EPollPoller) (channel : Channel) :
    (poller.updateChannel channel).2.address = channel.address := by
  unfold updateChannel
  split <;> (try split) <;> rfl

theorem updateChannel_fd (poller : EPollPoller) (channel : Channel) :
    (poller.updateChannel channel).2.fd_ = channel.fd_ := by
  unfold updateChannel
  split <;> (try split) <;> rfl

private theorem updateChannel_index (poller : EPollPoller) (channel : Channel) :
    (poller.updateChannel channel).2.index_ ≠ .kNew := by
  unfold updateChannel
  split
  · simp
  · simp
  · split <;> simp_all

theorem updateChannel_added (poller : EPollPoller) (channel : Channel) :
    (poller.updateChannel channel).2.index_ = .kAdded ↔ ¬(channel.index_ = .kAdded ∧ channel.events_ = 0) := by
  cases index : channel.index_ with
  | kNew | kDeleted => simp [updateChannel, index]
  | kAdded =>
    simp only [updateChannel, index, Channel.isNoneEvent, Channel.kNoneEvent, beq_iff_eq]
    split
    next none => simp [none]
    next some => simpa [index] using some

theorem Maps.updateChannel {poller : EPollPoller} {channel : Channel} (maps : poller.Maps channel) (events : Mask) :
    (poller.updateChannel { channel with events_ := events }).1.Maps
      (poller.updateChannel { channel with events_ := events }).2 := by
  rw [Maps, updateChannel_poller, update_channels, updateChannel_fd, updateChannel_address,
    if_neg (updateChannel_index _ _)]
  split
  next => simp
  next known =>
    rw [Maps, if_neg known] at maps
    exact maps

theorem removeChannel_fatal (poller : EPollPoller) (channel : Channel) :
    (poller.removeChannel channel).1.fatal = poller.fatal := by
  cases index : channel.index_ with
  | kNew | kDeleted => simp [removeChannel, index]
  | kAdded =>
    simp only [removeChannel, index, ↓reduceIte, update]
    split <;> rfl

theorem removeChannel_maps (poller : EPollPoller) (channel : Channel) :
    (poller.removeChannel channel).1.Maps (poller.removeChannel channel).2 := by
  unfold Maps removeChannel
  split <;> simp

theorem Tracks.registered_iff {poller : EPollPoller} {channel : Channel} (tracks : poller.Tracks channel) :
    (poller.epollfd_ channel.fd_).isSome ↔ channel.index_ = .kAdded := by
  rw [Tracks] at tracks
  rw [tracks]
  split <;> simpa

/-- Where the kernel agrees with `index_`, it accepts what `updateChannel` asks. -/
theorem Tracks.update_legal {poller : EPollPoller} {channel : Channel} (tracks : poller.Tracks channel) (events : Mask) :
    (epoll_ctl poller.epollfd_ (updateRequest { channel with events_ := events }) channel.fd_ events).isSome := by
  rw [Tracks] at tracks
  cases index : channel.index_ with
  | kNew | kDeleted => simp [updateRequest, index, epoll_ctl, tracks]
  | kAdded =>
    simp only [updateRequest]
    split <;> simp [index, epoll_ctl, tracks]

theorem Tracks.remove_legal {poller : EPollPoller} {channel : Channel} (tracks : poller.Tracks channel)
    {operation : EpollOperation} (asked : removeRequest channel = some operation) :
    (epoll_ctl poller.epollfd_ operation channel.fd_ channel.events_).isSome := by
  unfold removeRequest at asked
  split at asked
  next added =>
    cases asked
    rw [Tracks, if_pos added] at tracks
    simp [epoll_ctl, tracks]
  next => cases asked

end EPollPoller

namespace PolledChannels
variable {ι : Type u}

/-- The bookkeeping of all channels, whose descriptors are those of `fd`. -/
structure Booked (address fd : ι → Nat) (state : PolledChannels ι) : Prop where
  address : ∀ i, (state.channels i).address = address i
  fd : ∀ i, (state.channels i).fd_ = fd i
  tracks : ∀ i, state.poller_.Tracks (state.channels i)
  maps : ∀ i, state.poller_.Maps (state.channels i)
  sound : state.poller_.fatal = false

theorem new_booked (address fd : ι → Nat) : Booked address fd (new address fd) := by
  constructor <;> simp [new, Channel.new, EPollPoller.new, EPollPoller.Tracks, EPollPoller.Maps]

theorem ChannelEvent.updated_spec {state : PolledChannels ι} {event : ChannelEvent ι} {i : ι} {channel : Channel}
    (changed : event.updated state = some (i, channel)) :
    channel = { state.channels i with events_ := channel.events_ } := by
  cases event <;> cases changed <;> rfl

theorem ChannelEvent.request_updated {state : PolledChannels ι} {event : ChannelEvent ι} {i : ι} {channel : Channel}
    (changed : event.updated state = some (i, channel)) :
    event.request state = some (EPollPoller.updateRequest channel, channel) := by
  cases event <;> cases changed <;> rfl

private theorem Booked.apart {address fd : ι → Nat} {state : PolledChannels ι} (booked : Booked address fd state)
    (distinct : Function.Injective fd) {i j : ι} (other : j ≠ i) : (state.channels j).fd_ ≠ (state.channels i).fd_ := by
  rw [booked.fd, booked.fd]
  exact distinct.ne other

theorem Booked.legal {address fd : ι → Nat} {state : PolledChannels ι} (booked : Booked address fd state)
    (event : ChannelEvent ι) : event.Legal state := by
  intro operation channel asked
  cases changed : event.updated state with
  | some change =>
    obtain ⟨i, updated⟩ := change
    rw [event.request_updated changed] at asked
    cases asked
    rw [event.updated_spec changed]
    exact (booked.tracks i).update_legal _
  | none =>
    cases event with
    | remove i =>
      obtain ⟨_, removal, same⟩ := Option.map_eq_some_iff.mp asked
      cases same
      exact (booked.tracks i).remove_legal removal
    | _ => cases changed

/-- No channel is watched without interest. -/
def Interested (state : PolledChannels ι) : Prop := ∀ i, state.Registered i → (state.channels i).events_ ≠ 0

theorem Booked.interested_iff {address fd : ι → Nat} {state : PolledChannels ι} (booked : Booked address fd state) :
    Interested state ↔ ∀ i, (state.channels i).index_ = .kAdded → (state.channels i).events_ ≠ 0 :=
  forall_congr' fun i => imp_congr_left (booked.tracks i).registered_iff

section Step
variable [DecidableEq ι]

inductive Turn (event : ChannelEvent ι) (before : PolledChannels ι) : PolledChannels ι → Prop where
  | updated (i : ι) (channel : Channel) (changed : event.updated before = some (i, channel)) :
      Turn event before (before.update i channel)
  | removed (i : ι) (same : event = .remove i) : Turn event before (before.remove i)

theorem step_cases {event : ChannelEvent ι} {before after : PolledChannels ι}
    (stepped : machine.step event before = some after) : Turn event before after := by
  cases event <;> cases stepped
  case remove i => exact .removed i rfl
  all_goals exact .updated _ _ rfl

variable {address fd : ι → Nat}

/-- A property of each channel and the poller that the poller's change for one
channel establishes there and leaves alone elsewhere. -/
private theorem lift {good : EPollPoller → Channel → Prop} {state : PolledChannels ι} {poller : EPollPoller}
    {i : ι} {channel : Channel} (here : good poller channel)
    (elsewhere : ∀ j, j ≠ i → good state.poller_ (state.channels j) → good poller (state.channels j))
    (all : ∀ j, good state.poller_ (state.channels j)) (j : ι) :
    good poller (Function.update state.channels i channel j) := by
  by_cases same : j = i
  · subst same
    rwa [Function.update_self]
  · rw [Function.update_of_ne same]
    exact elsewhere j same (all j)

private theorem Booked.change {state : PolledChannels ι} (booked : Booked address fd state) {poller : EPollPoller} {i : ι}
    {channel : Channel} (sameAddress : channel.address = address i) (sameFd : channel.fd_ = fd i)
    (tracks : poller.Tracks channel) (maps : poller.Maps channel) (sound : poller.fatal = false)
    (elsewhere : ∀ j, j ≠ i → EPollPoller.Elsewhere state.poller_ poller (state.channels j).fd_) :
    Booked address fd ⟨poller, Function.update state.channels i channel⟩ where
  address j := by
    by_cases same : j = i
    · subst same; simpa
    · simpa [same] using booked.address j
  fd j := by
    by_cases same : j = i
    · subst same; simpa
    · simpa [same] using booked.fd j
  tracks := lift tracks (fun j other kept => (elsewhere j other).registered.trans kept) booked.tracks
  maps := lift maps (fun j other kept => (elsewhere j other).mapped.trans kept) booked.maps
  sound := sound

theorem Booked.update {state : PolledChannels ι} (booked : Booked address fd state) (distinct : Function.Injective fd)
    (i : ι) (events : Mask) :
    Booked address fd (state.update i { state.channels i with events_ := events }) := by
  have sound : (state.poller_.updateChannel { state.channels i with events_ := events }).1.fatal = false := by
    rw [EPollPoller.updateChannel_poller, EPollPoller.update_fatal ((booked.tracks i).update_legal events)]
    exact booked.sound
  exact booked.change ((EPollPoller.updateChannel_address _ _).trans (booked.address i))
    ((EPollPoller.updateChannel_fd _ _).trans (booked.fd i)) ((booked.tracks i).updateChannel events)
    ((booked.maps i).updateChannel events) sound
    (fun _ other => EPollPoller.updateChannel_elsewhere _ _ (booked.apart distinct other))

theorem Booked.remove {state : PolledChannels ι} (booked : Booked address fd state) (distinct : Function.Injective fd)
    (i : ι) : Booked address fd (state.remove i) :=
  booked.change (booked.address i) (booked.fd i) (booked.tracks i).removeChannel (EPollPoller.removeChannel_maps _ _)
    ((EPollPoller.removeChannel_fatal _ _).trans booked.sound)
    (fun _ other => EPollPoller.removeChannel_elsewhere _ _ (booked.apart distinct other))

theorem Booked.step {event : ChannelEvent ι} {before after : PolledChannels ι} (distinct : Function.Injective fd)
    (booked : Booked address fd before) (stepped : machine.step event before = some after) :
    Booked address fd after := by
  cases step_cases stepped with
  | updated i channel changed =>
    rw [event.updated_spec changed]
    exact booked.update distinct i _
  | removed i => exact booked.remove distinct i

theorem run_booked (distinct : Function.Injective fd) {events : List (ChannelEvent ι)} {final : PolledChannels ι}
    (reached : machine.run events (new address fd) = some final) : Booked address fd final :=
  Machine.run_preserves (fun _ _ _ booked stepped => booked.step distinct stepped) reached (new_booked address fd)

/-- After any operations on channels with descriptors of their own the three
records agree, and the kernel has accepted every request. -/
theorem bookkeeping_agrees (address fd : ι → Nat) (distinct : Function.Injective fd) (events : List (ChannelEvent ι))
    (final : PolledChannels ι) (reached : machine.run events (new address fd) = some final) :
    machine.Along ChannelEvent.Legal events (new address fd) ∧ final.poller_.fatal = false ∧
      ∀ i, ((final.channels i).index_ = .kAdded ↔ (final.poller_.epollfd_ (fd i)).isSome) ∧
        (∀ mask, final.poller_.epollfd_ (fd i) = some mask → mask = (final.channels i).events_) ∧
        (final.poller_.channels_ (fd i) = some (address i) ↔ (final.channels i).index_ ≠ .kNew) ∧
        (final.poller_.channels_ (fd i) = none ↔ (final.channels i).index_ = .kNew) := by
  have booked := run_booked distinct reached
  refine ⟨?_, booked.sound, fun i => ?_⟩
  · exact Machine.along_of_invariant (fun event _ kept => Booked.legal kept event)
      (fun _ _ _ kept stepped => Booked.step distinct kept stepped) events (new_booked address fd)
  · have tracks := booked.tracks i
    have maps := booked.maps i
    rw [EPollPoller.Tracks, booked.fd] at tracks
    rw [EPollPoller.Maps, booked.fd, booked.address] at maps
    rw [tracks, maps]
    cases (final.channels i).index_ <;> simp [eq_comm]

/-- A channel that is disabled, removed while it is added, and added again. -/
theorem bookkeeping_agrees_two : ∃ final : PolledChannels Nat,
    machine.run [.enableReading 3, .enableReading 5, .disableReading 3, .enableWriting 3, .remove 3, .disableAll 5,
      .enableWriting 3] (new id id) = some final ∧ final.poller_.fatal = false := by
  obtain ⟨final, reached⟩ : ∃ final : PolledChannels Nat,
      machine.run [.enableReading 3, .enableReading 5, .disableReading 3, .enableWriting 3, .remove 3, .disableAll 5,
        .enableWriting 3] (new id id) = some final := ⟨_, rfl⟩
  exact ⟨final, reached, (bookkeeping_agrees id id Function.injective_id _ final reached).2.1⟩

/-- After each operation a descriptor is watched only while there is interest in it. -/
def ChannelEvent.LeavesInterest (event : ChannelEvent ι) (before : PolledChannels ι) : Prop :=
  ∀ after, machine.step event before = some after → ∀ i, after.Registered i → (after.channels i).events_ ≠ 0

/-- An update that leaves no interest finds the channel added. -/
def ChannelEvent.ClearsAdded (event : ChannelEvent ι) (before : PolledChannels ι) : Prop :=
  ∀ i channel, event.updated before = some (i, channel) → channel.events_ = 0 → (before.channels i).index_ = .kAdded

private theorem update_channel_self (state : PolledChannels ι) (i : ι) (channel : Channel) :
    (state.update i channel).channels i = (state.poller_.updateChannel channel).2 := Function.update_self _ _ _

private theorem update_channel_other (state : PolledChannels ι) {i j : ι} (other : j ≠ i) (channel : Channel) :
    (state.update i channel).channels j = state.channels j := Function.update_of_ne other _ _

private theorem remove_channel_self (state : PolledChannels ι) (i : ι) :
    (state.remove i).channels i = (state.poller_.removeChannel (state.channels i)).2 := Function.update_self _ _ _

private theorem remove_channel_other (state : PolledChannels ι) {i j : ι} (other : j ≠ i) :
    (state.remove i).channels j = state.channels j := Function.update_of_ne other _ _

theorem Booked.update_interested {state : PolledChannels ι} (booked : Booked address fd state)
    (distinct : Function.Injective fd) (interested : Interested state) (i : ι) (events : Mask) :
    Interested (state.update i { state.channels i with events_ := events }) ↔
      (events = 0 → (state.channels i).index_ = .kAdded) := by
  rw [(booked.update distinct i events).interested_iff]
  rw [booked.interested_iff] at interested
  constructor
  · intro kept none
    by_contra absent
    apply kept i
    · rw [update_channel_self, EPollPoller.updateChannel_added]
      exact fun both => absent both.1
    · rw [update_channel_self, EPollPoller.updateChannel_events]
      exact none
  · intro condition j added
    by_cases same : j = i
    · subst same
      rw [update_channel_self, EPollPoller.updateChannel_added] at added
      rw [update_channel_self, EPollPoller.updateChannel_events]
      exact fun none => added ⟨condition none, none⟩
    · rw [update_channel_other _ same] at added ⊢
      exact interested j added

theorem Booked.remove_interested {state : PolledChannels ι} (booked : Booked address fd state)
    (distinct : Function.Injective fd) (interested : Interested state) (i : ι) : Interested (state.remove i) := by
  rw [(booked.remove distinct i).interested_iff]
  rw [booked.interested_iff] at interested
  intro j added
  by_cases same : j = i
  · subst same
    rw [remove_channel_self] at added
    cases added
  · rw [remove_channel_other _ same] at added ⊢
    exact interested j added

/-- `disableAll` is never idempotent: each call registers the channel or takes it away in turn. -/
theorem Booked.disableAll_flips {state : PolledChannels ι} (booked : Booked address fd state)
    (distinct : Function.Injective fd) (i : ι) :
    (state.update i (state.channels i).disableAll).Registered i ↔ ¬state.Registered i := by
  have after : (state.update i (state.channels i).disableAll).Registered i ↔
      ((state.update i (state.channels i).disableAll).channels i).index_ = .kAdded :=
    ((booked.update distinct i Channel.kNoneEvent).tracks i).registered_iff
  have before : state.Registered i ↔ (state.channels i).index_ = .kAdded := (booked.tracks i).registered_iff
  rw [after, before, update_channel_self, EPollPoller.updateChannel_added]
  exact not_congr (and_iff_left rfl)

/-- In a run no channel is ever registered without interest if and only if each update
that leaves no interest finds its channel added. -/
theorem interest_kept_iff (address fd : ι → Nat) (distinct : Function.Injective fd) (events : List (ChannelEvent ι))
    (final : PolledChannels ι) (reached : machine.run events (new address fd) = some final) :
    machine.Along ChannelEvent.LeavesInterest events (new address fd) ↔
      machine.Along ChannelEvent.ClearsAdded events (new address fd) := by
  have agree : ∀ event (before after : PolledChannels ι), Booked address fd before ∧ Interested before →
      machine.step event before = some after → (event.LeavesInterest before ↔ event.ClearsAdded before) := by
    intro event before after ⟨booked, interested⟩ stepped
    have leaves : event.LeavesInterest before ↔ Interested after := Machine.forall_next stepped
    rw [leaves]
    cases step_cases stepped with
    | updated i channel changed =>
      rw [event.updated_spec changed, booked.update_interested distinct interested]
      simp [ChannelEvent.ClearsAdded, changed]
    | removed i same =>
      subst same
      simp [ChannelEvent.ClearsAdded, ChannelEvent.updated, booked.remove_interested distinct interested i]
  have preserved : ∀ event (before after : PolledChannels ι), event.LeavesInterest before →
      Booked address fd before ∧ Interested before → machine.step event before = some after →
      Booked address fd after ∧ Interested after :=
    fun event before after leaves kept stepped => ⟨kept.1.step distinct stepped, leaves after stepped⟩
  have initial : Booked address fd (new address fd) ∧ Interested (new address fd) :=
    ⟨new_booked address fd, fun i registered => by cases registered⟩
  exact Machine.along_iff agree preserved reached initial

theorem interest_kept_cleared : machine.Along ChannelEvent.LeavesInterest
    [.enableReading 3, .enableWriting 5, .disableAll 3, .remove 3] (new id id) := by
  have computed : machine.run [.enableReading 3, .enableWriting 5, .disableAll 3, .remove 3] (new id id) = some _ := rfl
  apply (interest_kept_iff id id Function.injective_id _ _ computed).mpr
  simp +decide [Machine.Along, machine, step, ChannelEvent.ClearsAdded, ChannelEvent.updated]

/-- A second `disableAll`, as when a close is handled twice, registers the channel with an empty mask. -/
theorem disabled_twice_registered : ∃ final : PolledChannels Nat,
    machine.run [.enableReading 3, .disableAll 3, .disableAll 3] (new id id) = some final ∧
    final.Registered 3 ∧ (final.channels 3).events_ = 0 :=
  ⟨_, rfl, rfl, rfl⟩

end Step
end PolledChannels
end Webserver
