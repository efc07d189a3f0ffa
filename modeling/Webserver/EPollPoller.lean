import Mathlib.Logic.Function.Basic

/-! Channels and their registration with epoll, from `Channel.h`, `Channel.cc`
and `EPollPoller.cc`. The kernel's interest list is part of the poller. -/

namespace Webserver

/-- An epoll event mask: the code keeps it in an `int`. -/
abbrev Mask := BitVec 32

def EPOLLIN : Mask := 0x001
def EPOLLPRI : Mask := 0x002
def EPOLLOUT : Mask := 0x004
def EPOLLHUP : Mask := 0x010

/-- `kNew`, `kAdded` and `kDeleted`, the values of `index_`. -/
inductive Index where
  | kNew
  | kAdded
  | kDeleted
  deriving DecidableEq

/-- `address` is the identity of the object, which the poller's map stores. -/
structure Channel where
  address : Nat
  fd_ : Nat
  events_ : Mask
  index_ : Index
  tied_ : Bool
  deriving DecidableEq

namespace Channel

def kNoneEvent : Mask := 0
def kReadEvent : Mask := EPOLLIN ||| EPOLLPRI
def kWriteEvent : Mask := EPOLLOUT

def new (address fd : Nat) : Channel := ⟨address, fd, kNoneEvent, .kNew, false⟩

def isNoneEvent (channel : Channel) : Bool := channel.events_ == kNoneEvent
def isWriting (channel : Channel) : Bool := channel.events_ &&& kWriteEvent != 0
def isReading (channel : Channel) : Bool := channel.events_ &&& kReadEvent != 0

/-- The branches of `handleEventWithGuard`, in their order, but for the one of
`EPOLLERR`: its callback only logs. -/
def closes (revents : Mask) : Bool := revents &&& EPOLLHUP != 0 && revents &&& EPOLLIN == 0
def reads (revents : Mask) : Bool := revents &&& (EPOLLIN ||| EPOLLPRI) != 0
def writes (revents : Mask) : Bool := revents &&& EPOLLOUT != 0

end Channel

inductive EpollOperation where
  | EPOLL_CTL_ADD
  | EPOLL_CTL_MOD
  | EPOLL_CTL_DEL
  deriving DecidableEq

/-- `channels_` maps a descriptor to its channel. `epollfd_` is the kernel's
side: the mask of each registered descriptor. `fatal` says that `update` has
logged its fatal error. -/
structure EPollPoller where
  channels_ : Nat → Option Nat
  epollfd_ : Nat → Option Mask
  fatal : Bool

namespace EPollPoller

def new : EPollPoller := ⟨fun _ => none, fun _ => none, false⟩

/-- The kernel refuses to add a present descriptor and to change an absent one. -/
def epoll_ctl (registered : Nat → Option Mask) (operation : EpollOperation) (fd : Nat) (events : Mask) :
    Option (Nat → Option Mask) :=
  match operation, registered fd with
  | .EPOLL_CTL_ADD, none => some (Function.update registered fd (some events))
  | .EPOLL_CTL_MOD, some _ => some (Function.update registered fd (some events))
  | .EPOLL_CTL_DEL, some _ => some (Function.update registered fd none)
  | _, _ => none

def update (poller : EPollPoller) (operation : EpollOperation) (channel : Channel) : EPollPoller :=
  match epoll_ctl poller.epollfd_ operation channel.fd_ channel.events_ with
  | some registered => { poller with epollfd_ := registered }
  | none => if operation = .EPOLL_CTL_DEL then poller else { poller with fatal := true }

def updateChannel (poller : EPollPoller) (channel : Channel) : EPollPoller × Channel :=
  match channel.index_ with
  | .kNew =>
    let added := { channel with index_ := .kAdded }
    let channels := Function.update poller.channels_ channel.fd_ (some channel.address)
    ({ poller with channels_ := channels }.update .EPOLL_CTL_ADD added, added)
  | .kDeleted =>
    let added := { channel with index_ := .kAdded }
    (poller.update .EPOLL_CTL_ADD added, added)
  | .kAdded =>
    if channel.isNoneEvent then (poller.update .EPOLL_CTL_DEL channel, { channel with index_ := .kDeleted })
    else (poller.update .EPOLL_CTL_MOD channel, channel)

def removeChannel (poller : EPollPoller) (channel : Channel) : EPollPoller × Channel :=
  let erased := { poller with channels_ := Function.update poller.channels_ channel.fd_ none }
  (if channel.index_ = .kAdded then erased.update .EPOLL_CTL_DEL channel else erased,
    { channel with index_ := .kNew })

end EPollPoller
end Webserver
