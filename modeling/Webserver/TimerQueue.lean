import Mathlib.Data.Prod.Lex
import Mathlib.Logic.Function.Basic
import Webserver.Library.Machine
import Webserver.Library.OrderedSet

/-! `Timer` and `TimerQueue` on the thread of their loop. Times are microseconds; every
reading of `Timestamp::now` is the next of an arbitrary sequence. -/

namespace Webserver
open Library

universe u

/-- A `double` of seconds as the code reads it: its test against zero, and its whole microseconds. -/
structure Interval where
  positive : Bool
  microSeconds : Int
  deriving DecidableEq

def addTime (timestamp : Int) (seconds : Interval) : Int := timestamp + seconds.microSeconds

structure Timer (κ : Type u) where
  callback_ : κ
  expiration_ : Int
  interval_ : Interval
  repeat_ : Bool

namespace Timer
variable {κ : Type u}

def new (cb : κ) (when : Int) (interval : Interval) : Timer κ := ⟨cb, when, interval, interval.positive⟩

def restart (timer : Timer κ) (now : Int) : Timer κ :=
  if timer.repeat_ then { timer with expiration_ := addTime now timer.interval_ } else { timer with expiration_ := 0 }

end Timer

abbrev TimerPtr := Nat

def UINTPTR_MAX : TimerPtr := 0xffffffffffffffff

/-- `std::pair<Timestamp, Timer*>`. -/
@[ext]
structure TimerQueue.Entry where
  first : Int
  second : TimerPtr
  deriving DecidableEq

namespace TimerQueue.Entry

def pair (entry : Entry) : Int ×ₗ TimerPtr := toLex (entry.first, entry.second)

theorem pair_injective : Function.Injective pair := fun one other same => by
  have parts : (one.first, one.second) = (other.first, other.second) := same
  simp only [Prod.mk.injEq] at parts
  exact Entry.ext parts.1 parts.2

instance : LinearOrder Entry := LinearOrder.lift' pair pair_injective

theorem lt_iff {one other : Entry} :
    one < other ↔ one.first < other.first ∨ one.first = other.first ∧ one.second < other.second :=
  Prod.Lex.toLex_lt_toLex

theorem first_le {one other : Entry} (ordered : one ≤ other) : one.first ≤ other.first :=
  Prod.Lex.monotone_fst one.pair other.pair ordered

end TimerQueue.Entry

structure Timespec where
  tv_sec : Int
  tv_nsec : Int
  deriving DecidableEq

/-- The one-shot timer of the kernel: `it_value` is what it is armed with, and `ready` tells
that it has fired and was not read since. -/
structure Timerfd where
  it_value : Option Timespec
  ready : Bool
  deriving DecidableEq

/-- `timerfd_settime` refuses a value out of range, and disarms with a zero one. -/
def Timerfd.settime (timerfd : Timerfd) (value : Timespec) : Timerfd :=
  if value.tv_sec < 0 ∨ value.tv_nsec < 0 ∨ 1000000000 ≤ value.tv_nsec then timerfd
  else if value = ⟨0, 0⟩ then ⟨none, false⟩ else ⟨some value, false⟩

/-- The arguments of `addTimer`, and the address that `new` returns there. -/
structure NewTimer (κ : Type u) where
  address : TimerPtr
  cb : κ
  when : Int
  interval : Interval

/-- `heap` holds the live timers. `queued` are those bound in functors of the loop, `readings`
counts the readings of the clock, and `armedAt` is that of the last arming. `dispatching` tells
that epoll has reported the timerfd; `ran` and `freed` are what happened so far. -/
structure TimerQueue (κ : Type u) where
  timers_ : OrderedSet TimerQueue.Entry
  timerfd_ : Timerfd
  heap : TimerPtr → Option (Timer κ)
  queued : List TimerPtr
  dispatching : Bool
  readings : Nat
  armedAt : Int
  ran : List (TimerPtr × κ)
  freed : List TimerPtr

/-- `addTimer` on another thread, a queued `addTimerInLoop`, and `addTimer` on the loop's own
thread; `calls` are the calls of `addTimer` that each callback makes, in turn. -/
inductive TimerEvent (κ : Type u) where
  | addTimer (timer : NewTimer κ)
  | addTimerInLoop (timer : TimerPtr)
  | addTimerHere (timer : NewTimer κ)
  | fire
  | poll
  | handleRead (calls : List (List (NewTimer κ)))

namespace TimerQueue
variable {κ : Type u}

def kMicroSecondsPerSecond : Int := 1000 * 1000

def new : TimerQueue κ := ⟨.empty, ⟨none, false⟩, fun _ => none, [], false, 0, 0, [], []⟩

def resetTimerfd (clock : Nat → Int) (queue : TimerQueue κ) (expiration : Int) : TimerQueue κ :=
  let now := clock queue.readings
  let microSecondDif := if expiration - now < 100 then 100 else expiration - now
  { queue with
    readings := queue.readings + 1
    armedAt := now
    timerfd_ := queue.timerfd_.settime
      ⟨microSecondDif.tdiv kMicroSecondsPerSecond, microSecondDif.tmod kMicroSecondsPerSecond * 1000⟩ }

/-- Using a timer that is not live is undefined, here and below. -/
def insert (queue : TimerQueue κ) (timer : TimerPtr) : Option (Bool × TimerQueue κ) :=
  (queue.heap timer).map fun live =>
    (match queue.timers_.entries.head? with
      | none => true
      | some first => live.expiration_ < first.first,
     { queue with timers_ := queue.timers_.insert ⟨live.expiration_, timer⟩ })

def addTimerInLoop (clock : Nat → Int) (queue : TimerQueue κ) (timer : TimerPtr) : Option (TimerQueue κ) :=
  (queue.insert timer).bind fun (eraliestChanged, inserted) =>
    if eraliestChanged then
      (inserted.heap timer).map fun live => inserted.resetTimerfd clock live.expiration_
    else some inserted

/-- `new Timer`, at an address that is not in use. -/
def allocate (queue : TimerQueue κ) (timer : NewTimer κ) : Option (TimerQueue κ) :=
  if (queue.heap timer.address).isNone ∧ timer.address < UINTPTR_MAX then
    some { queue with
      heap := Function.update queue.heap timer.address (some (.new timer.cb timer.when timer.interval)) }
  else none

/-- `runInLoop` calls `addTimerInLoop` at once on the loop's own thread. -/
def addTimerHere (clock : Nat → Int) (queue : TimerQueue κ) (timer : NewTimer κ) : Option (TimerQueue κ) :=
  (queue.allocate timer).bind fun allocated => allocated.addTimerInLoop clock timer.address

def addTimer (queue : TimerQueue κ) (timer : NewTimer κ) : Option (TimerQueue κ) :=
  (queue.allocate timer).map fun allocated => { allocated with queued := allocated.queued ++ [timer.address] }

def run (queue : TimerQueue κ) (timer : TimerPtr) : Option (TimerQueue κ) :=
  (queue.heap timer).map fun live => { queue with ran := queue.ran ++ [(timer, live.callback_)] }

/-- The entries before the sentry go to `expired`. -/
def getExpired (queue : TimerQueue κ) (now : Int) : List Entry × TimerQueue κ :=
  (queue.timers_.below ⟨now, UINTPTR_MAX⟩, { queue with timers_ := queue.timers_.eraseBelow ⟨now, UINTPTR_MAX⟩ })

/-- The callbacks of the expired timers, with the timers that each of them adds. -/
def runExpired (clock : Nat → Int) : List Entry → List (List (NewTimer κ)) → TimerQueue κ → Option (TimerQueue κ)
  | [], [], queue => some queue
  | entry :: expired, call :: calls, queue =>
    (queue.run entry.second).bind fun called =>
      (call.foldlM (addTimerHere clock) called).bind (runExpired clock expired calls)
  | _, _, _ => none

/-- A repeating timer is restarted and inserted again, and a one-shot timer deleted. -/
def renew (clock : Nat → Int) (queue : TimerQueue κ) (timer : TimerPtr) : Option (TimerQueue κ) :=
  (queue.heap timer).bind fun live =>
    if live.repeat_ then
      let restarted := some (live.restart (clock queue.readings))
      ({ queue with readings := queue.readings + 1, heap := Function.update queue.heap timer restarted }.insert
        timer).map Prod.snd
    else some { queue with heap := Function.update queue.heap timer none, freed := queue.freed ++ [timer] }

/-- The end of each round of the loop in `reset`. -/
def rearm (clock : Nat → Int) (queue : TimerQueue κ) : Option (TimerQueue κ) :=
  match queue.timers_.entries.head? with
  | none => some queue
  | some first => (queue.heap first.second).map fun live => queue.resetTimerfd clock live.expiration_

def reset (clock : Nat → Int) (expired : List Entry) (queue : TimerQueue κ) : Option (TimerQueue κ) :=
  expired.foldlM (fun queue entry => (queue.renew clock entry.second).bind (rearm clock)) queue

/-- `ReadTimerFd` leaves an armed timerfd that has not fired as it is. -/
def readTimerFd (queue : TimerQueue κ) : TimerQueue κ :=
  { queue with timerfd_ := { queue.timerfd_ with ready := false } }

def handleRead (clock : Nat → Int) (queue : TimerQueue κ) (calls : List (List (NewTimer κ))) : Option (TimerQueue κ) :=
  let now := clock queue.readings
  let (expired, rest) := ({ queue with readings := queue.readings + 1 }.readTimerFd).getExpired now
  (runExpired clock expired calls rest).bind (reset clock expired)

/-- Deleting a timer that is not live is undefined. -/
def release (queue : TimerQueue κ) (timer : TimerPtr) : Option (TimerQueue κ) :=
  (queue.heap timer).map fun _ =>
    { queue with heap := Function.update queue.heap timer none, freed := queue.freed ++ [timer] }

/-- The loop of the destructor, which deletes what the set has. -/
def destroy (queue : TimerQueue κ) : Option (TimerQueue κ) :=
  queue.timers_.entries.foldlM (fun queue entry => queue.release entry.second) queue

def step (clock : Nat → Int) (event : TimerEvent κ) (queue : TimerQueue κ) : Option (TimerQueue κ) :=
  match event with
  | .addTimer timer => queue.addTimer timer
  | .addTimerInLoop timer =>
    if timer ∈ queue.queued then { queue with queued := queue.queued.erase timer }.addTimerInLoop clock timer else none
  | .addTimerHere timer => queue.addTimerHere clock timer
  | .fire =>
    if queue.timerfd_.it_value.isSome then some { queue with timerfd_ := ⟨none, true⟩ } else none
  | .poll => if queue.timerfd_.ready then some { queue with dispatching := true } else none
  | .handleRead calls =>
    if queue.dispatching then { queue with dispatching := false }.handleRead clock calls else none

def machine (clock : Nat → Int) : Machine (TimerQueue κ) (TimerEvent κ) := ⟨step clock⟩

end TimerQueue
end Webserver
