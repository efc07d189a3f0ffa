import Webserver.EPollPoller
import Webserver.Library.Machine

/-! Any number of channels on one poller, with the operations of `Channel.h` on
them in any order. -/

namespace Webserver
open Library

universe u

namespace Channel

/-- The changes of `events_`; the poller hears of each through `update`. -/
def enableReading (channel : Channel) : Channel := { channel with events_ := channel.events_ ||| kReadEvent }
def disableReading (channel : Channel) : Channel := { channel with events_ := channel.events_ &&& ~~~kReadEvent }
def enableWriting (channel : Channel) : Channel := { channel with events_ := channel.events_ ||| kWriteEvent }
def disableWriting (channel : Channel) : Channel := { channel with events_ := channel.events_ &&& ~~~kWriteEvent }
def disableAll (channel : Channel) : Channel := { channel with events_ := kNoneEvent }

end Channel

namespace EPollPoller

/-- What `updateChannel` asks of the kernel. -/
def updateRequest (channel : Channel) : EpollOperation :=
  match channel.index_ with
  | .kNew | .kDeleted => .EPOLL_CTL_ADD
  | .kAdded => if channel.isNoneEvent then .EPOLL_CTL_DEL else .EPOLL_CTL_MOD

/-- What `removeChannel` asks of the kernel. -/
def removeRequest (channel : Channel) : Option EpollOperation :=
  if channel.index_ = .kAdded then some .EPOLL_CTL_DEL else none

end EPollPoller

structure PolledChannels (ι : Type u) where
  poller_ : EPollPoller
  channels : ι → Channel

namespace PolledChannels
variable {ι : Type u}

def new (address fd : ι → Nat) : PolledChannels ι := ⟨.new, fun i => .new (address i) (fd i)⟩

/-- The kernel watches the channel's descriptor: it reports `EPOLLHUP` and
`EPOLLERR` on it whatever the mask. -/
def Registered (state : PolledChannels ι) (i : ι) : Prop := (state.poller_.epollfd_ (state.channels i).fd_).isSome

instance (state : PolledChannels ι) (i : ι) : Decidable (state.Registered i) :=
  inferInstanceAs (Decidable (_ = true))

inductive ChannelEvent (ι : Type u) where
  | enableReading (i : ι)
  | disableReading (i : ι)
  | enableWriting (i : ι)
  | disableWriting (i : ι)
  | disableAll (i : ι)
  | remove (i : ι)

namespace ChannelEvent

/-- The channel as the poller will see it, unless it is removed. -/
def updated (state : PolledChannels ι) : ChannelEvent ι → Option (ι × Channel)
  | .enableReading i => some (i, (state.channels i).enableReading)
  | .disableReading i => some (i, (state.channels i).disableReading)
  | .enableWriting i => some (i, (state.channels i).enableWriting)
  | .disableWriting i => some (i, (state.channels i).disableWriting)
  | .disableAll i => some (i, (state.channels i).disableAll)
  | .remove _ => none

/-- The `epoll_ctl` that the operation issues, and for which channel. -/
def request (state : PolledChannels ι) : ChannelEvent ι → Option (EpollOperation × Channel)
  | .remove i => (EPollPoller.removeRequest (state.channels i)).map fun operation => (operation, state.channels i)
  | event => (event.updated state).map fun changed => (EPollPoller.updateRequest changed.2, changed.2)

/-- The kernel accepts what the operation asks of it. -/
def Legal (event : ChannelEvent ι) (state : PolledChannels ι) : Prop :=
  ∀ operation channel, event.request state = some (operation, channel) →
    (EPollPoller.epoll_ctl state.poller_.epollfd_ operation channel.fd_ channel.events_).isSome

end ChannelEvent

section Step
variable [DecidableEq ι]

/-- `Channel::update`. -/
def update (state : PolledChannels ι) (i : ι) (channel : Channel) : PolledChannels ι :=
  let (poller, channel) := state.poller_.updateChannel channel
  ⟨poller, Function.update state.channels i channel⟩

/-- `Channel::remove`. -/
def remove (state : PolledChannels ι) (i : ι) : PolledChannels ι :=
  let (poller, channel) := state.poller_.removeChannel (state.channels i)
  ⟨poller, Function.update state.channels i channel⟩

def step (event : ChannelEvent ι) (state : PolledChannels ι) : Option (PolledChannels ι) :=
  match event with
  | .enableReading i => some (state.update i (state.channels i).enableReading)
  | .disableReading i => some (state.update i (state.channels i).disableReading)
  | .enableWriting i => some (state.update i (state.channels i).enableWriting)
  | .disableWriting i => some (state.update i (state.channels i).disableWriting)
  | .disableAll i => some (state.update i (state.channels i).disableAll)
  | .remove i => some (state.remove i)

def machine : Machine (PolledChannels ι) (ChannelEvent ι) := ⟨step⟩

end Step

end PolledChannels
end Webserver
