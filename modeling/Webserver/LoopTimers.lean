import Webserver.LoopRun
import Webserver.TimerQueue

/-! The timer calls of `EventLoop`, which go through its member `timerQueue_`. -/

namespace Webserver
open Library

universe u

inductive LoopFunctor (κ : Type u) where
  | user (cb : κ)
  | addTimerInLoop (timer : TimerPtr)

/-- `timerQueue_` is a null pointer at `none`. -/
structure LoopTimers (κ : Type u) where
  run : LoopRun (LoopFunctor κ)
  timerQueue_ : Option (TimerQueue κ)

inductive TimerCall (κ : Type u) where
  | runAt (timestamp : Int) (cb : κ)
  | runAfter (waitTime : Interval) (cb : κ)
  | runEvery (interval : Interval) (cb : κ)

/-- The loop's steps, those of the timerfd, and a timer call of another thread or of the
loop's own, with its reading of the clock and the address that `new` returns in it. -/
inductive LoopTimersEvent (κ : Type u) where
  | loop (event : LoopEvent (LoopFunctor κ))
  | fire
  | poll
  | handleRead (calls : List (List (NewTimer κ)))
  | request (thread : Option Nat) (now : Int) (address : TimerPtr) (call : TimerCall κ)

namespace LoopTimers
variable {κ : Type u}

/-- The initialisers of `EventLoop::EventLoop` leave `timerQueue_` out, and nothing sets it later. -/
def new : LoopTimers κ := ⟨.new, none⟩

/-- The arguments with which each call goes on to `addTimer`. -/
def newTimer (now : Int) (address : TimerPtr) : TimerCall κ → NewTimer κ
  | .runAt timestamp cb => ⟨address, cb, timestamp, ⟨false, 0⟩⟩
  | .runAfter waitTime cb => ⟨address, cb, addTime now waitTime, ⟨false, 0⟩⟩
  | .runEvery interval cb => ⟨address, cb, addTime now interval, interval⟩

/-- A step of the queue, through a pointer that must not be null. -/
def onQueue (clock : Nat → Int) (loop : LoopTimers κ) (event : TimerEvent κ) : Option (LoopTimers κ) :=
  loop.timerQueue_.bind fun queue => (queue.step clock event).map fun after => { loop with timerQueue_ := some after }

/-- `runInLoop` calls `addTimerInLoop` at once on the loop's own thread, and queues it on another. -/
def request (clock : Nat → Int) (loop : LoopTimers κ) (thread : Option Nat) (now : Int) (address : TimerPtr)
    (call : TimerCall κ) : Option (LoopTimers κ) :=
  match thread with
  | none => loop.onQueue clock (.addTimerHere (newTimer now address call))
  | some thread =>
    (loop.onQueue clock (.addTimer (newTimer now address call))).bind fun added =>
      (LoopRun.step (.push thread (.addTimerInLoop address)) added.run).map fun run => { added with run }

def step (clock : Nat → Int) (event : LoopTimersEvent κ) (loop : LoopTimers κ) : Option (LoopTimers κ) :=
  match event with
  | .loop event =>
    (LoopRun.step event loop.run).bind fun run =>
      match event, loop.run.loop.functors with
      | .call, .addTimerInLoop timer :: _ => { loop with run }.onQueue clock (.addTimerInLoop timer)
      | _, _ => some { loop with run }
  | .fire => loop.onQueue clock .fire
  | .poll => loop.onQueue clock .poll
  | .handleRead calls => loop.onQueue clock (.handleRead calls)
  | .request thread now address call => loop.request clock thread now address call

def machine (clock : Nat → Int) : Machine (LoopTimers κ) (LoopTimersEvent κ) := ⟨step clock⟩

end LoopTimers
end Webserver
