import Webserver.LoopRun

/-! `EventLoopThread`: `threadFunc` on its own thread publishes the loop and then enters
`loop`, beside the threads that got it from `startLoop`. -/

namespace Webserver
open Library

universe u

/-- Where `threadFunc` is. The loop is built on the way into `callback`. -/
inductive EventLoopThread.Position where
  | unstarted
  | callback
  | published
  | looping
  | left
  | returned
  deriving DecidableEq

/-- `loop_` tells whether the pointer is set, and `obtained` whether `startLoop` has returned it. -/
structure EventLoopThread (φ : Type u) where
  loop_ : Bool
  obtained : Bool
  threadFunc : EventLoopThread.Position
  run : LoopRun φ

/-- `start` and `startLoop` are the two ends of `startLoop`; `publish` and `clear` are the
stores to `loop_`. The destructor of `EventLoopThread` quits as any other holder of the loop. -/
inductive ThreadEvent (φ : Type u) where
  | start
  | publish
  | startLoop
  | clear
  | loop (event : LoopEvent φ)
  deriving DecidableEq

namespace EventLoopThread
variable {φ : Type u}

def new : EventLoopThread φ := ⟨false, false, .unstarted, .new⟩

/-- Other threads need the pointer. On its own thread the loop is used by `callback_` and by
what runs in `loop`, which `threadFunc` enters once. -/
def allows (thread : EventLoopThread φ) : LoopEvent φ → Bool
  | .push .. => thread.obtained
  | .quit _ => thread.obtained
  | .wakeup _ => thread.obtained
  | .enter => thread.threadFunc = .published
  | .queue _ => thread.threadFunc = .callback || thread.threadFunc = .looping
  | .quitHere => thread.threadFunc = .callback || thread.threadFunc = .looping
  | _ => thread.threadFunc = .looping

/-- `threadFunc` goes into `loop`, and comes out of it at a test of `quit_`. -/
def position (thread : EventLoopThread φ) (event : LoopEvent φ) (run : LoopRun φ) : Position :=
  match event with
  | .enter => .looping
  | .test => if run.phase = .outside then .left else .looping
  | _ => thread.threadFunc

def step (event : ThreadEvent φ) (thread : EventLoopThread φ) : Option (EventLoopThread φ) :=
  match event with
  | .start => if thread.threadFunc = .unstarted then some { thread with threadFunc := .callback } else none
  | .publish =>
    if thread.threadFunc = .callback then some { thread with loop_ := true, threadFunc := .published } else none
  | .startLoop => if thread.loop_ then some { thread with obtained := true } else none
  | .clear => if thread.threadFunc = .left then some { thread with loop_ := false, threadFunc := .returned } else none
  | .loop event =>
    if thread.allows event then
      (LoopRun.step event thread.run).map fun run => { thread with run, threadFunc := thread.position event run }
    else none

def machine : Machine (EventLoopThread φ) (ThreadEvent φ) := ⟨step⟩

end EventLoopThread
end Webserver
