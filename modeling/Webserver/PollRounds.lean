import Webserver.PolledChannels

/-! The rounds of `EventLoop::loop` with `EPollPoller::poll`. The kernel chooses which of
the ready channels it reports, and handlers and functors change the channels as they like. -/

namespace Webserver
open Library

universe u

/-- `events_` is the size of the vector that `epoll_wait` fills, and `activeChannels_` are
the channels still to be handled in this round, with their `revents_`. -/
structure PollRounds (ι : Type u) where
  polled : PolledChannels ι
  events_ : Nat
  activeChannels_ : List (ι × Mask)

/-- In `poll` all that is `ready` for the kernel, and what `epoll_wait` returns of it;
`interrupt` is a `poll` whose `epoll_wait` fails. -/
inductive RoundEvent (ι : Type u) where
  | change (event : PolledChannels.ChannelEvent ι)
  | poll (ready reported : List (ι × Mask))
  | interrupt
  | handleEvent (i : ι) (revents : Mask)

namespace PollRounds
variable {ι : Type u}

def kInitEventListSize : Nat := 16

def INT_MAX : Nat := 2147483647

def new (address fd : ι → Nat) : PollRounds ι := ⟨.new address fd, kInitEventListSize, []⟩

/-- One event for each ready channel, and as many of them as there are and as have room. -/
def Waits (state : PollRounds ι) (ready reported : List (ι × Mask)) : Prop :=
  (∀ event ∈ ready, state.polled.Registered event.1) ∧ (ready.map Prod.fst).Nodup ∧
    reported ⊆ ready ∧ (reported.map Prod.fst).Nodup ∧ reported.length = min ready.length state.events_

instance [DecidableEq ι] (state : PollRounds ι) (ready reported : List (ι × Mask)) : Decidable (state.Waits ready reported) :=
  inferInstanceAs (Decidable (_ ∧ _ ∧ (∀ event ∈ reported, event ∈ ready) ∧ _ ∧ _))

def fillActiveChannels (reported : List (ι × Mask)) (state : PollRounds ι) : PollRounds ι :=
  { state with activeChannels_ := state.activeChannels_ ++ reported }

/-- `poll` after `epoll_wait` has returned the reported events. -/
def poll (reported : List (ι × Mask)) (state : PollRounds ι) : PollRounds ι :=
  if 0 < reported.length then
    let filled := state.fillActiveChannels reported
    if reported.length = filled.events_ then { filled with events_ := filled.events_ * 2 } else filled
  else state

/-- `epoll_wait` takes the size as an `int`, and refuses one that is not positive. -/
def step [DecidableEq ι] (event : RoundEvent ι) (state : PollRounds ι) : Option (PollRounds ι) :=
  match event with
  | .change event => (PolledChannels.step event state.polled).map fun polled => { state with polled := polled }
  | .poll ready reported =>
    if state.activeChannels_ = [] ∧ state.events_ ≤ INT_MAX ∧ state.Waits ready reported then some (state.poll reported)
    else none
  | .interrupt => if state.activeChannels_ = [] then some state else none
  | .handleEvent i revents =>
    match state.activeChannels_ with
    | [] => none
    | channel :: rest => if channel = (i, revents) then some { state with activeChannels_ := rest } else none

def machine [DecidableEq ι] : Machine (PollRounds ι) (RoundEvent ι) := ⟨step⟩

end PollRounds
end Webserver
