import Mathlib.Logic.Function.Basic
import Webserver.EventLoop
import Webserver.Library.Machine

/-! `EventLoop::loop` on its own thread, beside any number of other threads that
queue functors or quit. A push and the write to the eventfd are two steps. -/

namespace Webserver
open Library

universe u

/-- Where the loop's thread is. The handlers of a round run in `handling`, with `woken` while
that of the eventfd is still to come; the functors of its batch run in `running`. -/
inductive LoopRun.Phase where
  | outside
  | entered
  | testing
  | polling
  | handling (woken : Bool)
  | running
  deriving DecidableEq

/-- Another thread, in `queueInLoop` after the push or in `quit` after the store. -/
inductive LoopRun.OtherThread where
  | idle
  | pushed
  | quitting
  deriving DecidableEq

/-- `waking` holds while the loop's own thread is between its push and its write. -/
structure LoopRun (φ : Type u) where
  loop : EventLoop φ
  looping_ : Bool
  quit_ : Bool
  phase : LoopRun.Phase
  waking : Bool
  others : Nat → LoopRun.OtherThread

/-- The calls of other threads, then the steps of the loop's thread. `queue` and `quitHere`
are calls that code on the loop's thread makes. -/
inductive LoopEvent (φ : Type u) where
  | push (thread : Nat) (cb : φ)
  | quit (thread : Nat)
  | wakeup (thread : Nat)
  | enter
  | reset
  | test
  | poll (reported : Bool)
  | handleRead
  | queue (cb : φ)
  | write
  | quitHere
  | swap
  | call
  | finish
  deriving DecidableEq

namespace LoopRun
variable {φ : Type u}

def new : LoopRun φ := ⟨.new, false, false, .outside, false, fun _ => .idle⟩

def move (run : LoopRun φ) (phase : Phase) : LoopRun φ := { run with phase := phase }

def setOther (run : LoopRun φ) (thread : Nat) (position : OtherThread) : LoopRun φ :=
  { run with others := Function.update run.others thread position }

/-- `queueInLoop` on the loop's own thread, up to its write. -/
def queueHere (run : LoopRun φ) (cb : φ) : LoopRun φ :=
  { run with loop := run.loop.pushFunctor cb, waking := run.loop.callingPendingFunctors_ }

/-- User code runs on the loop's thread before and after `loop`, in handlers and in functors. -/
def userCode (run : LoopRun φ) : Bool :=
  match run.phase with
  | .outside => true
  | .handling _ => true
  | .running => true
  | _ => false

/-- One step of the loop's own thread, which has no write outstanding. `poll` may return at any
time, and reports the eventfd only when its counter is not zero. -/
def loopStep (event : LoopEvent φ) (run : LoopRun φ) : Option (LoopRun φ) :=
  match event, run.phase with
  | .enter, .outside => some { run with looping_ := true, phase := .entered }
  | .reset, .entered => some { run with quit_ := false, phase := .testing }
  | .test, .testing =>
    some (if run.quit_ then { run with looping_ := false, phase := .outside } else run.move .polling)
  | .poll reported, .polling =>
    if reported ∧ run.loop.wakeupFd_ = 0 then none else some (run.move (.handling reported))
  | .handleRead, .handling true =>
    some { run with loop := { run.loop with wakeupFd_ := 0 }, phase := .handling false }
  | .queue cb, _ => if run.userCode then some (run.queueHere cb) else none
  | .quitHere, _ => if run.userCode then some { run with quit_ := true } else none
  | .swap, .handling false => some { run with loop := run.loop.swapFunctors, phase := .running }
  | .call, .running =>
    match run.loop.functors with
    | [] => none
    | _ :: rest => some { run with loop := { run.loop with functors := rest } }
  | .finish, .running =>
    if run.loop.functors.isEmpty then some { run with loop := run.loop.endFunctors, phase := .testing } else none
  | _, _ => none

def step (event : LoopEvent φ) (run : LoopRun φ) : Option (LoopRun φ) :=
  match event with
  | .push thread cb =>
    if run.others thread = .idle then
      some ({ run with loop := run.loop.pushFunctor cb }.setOther thread .pushed)
    else none
  | .quit thread =>
    if run.others thread = .idle then some ({ run with quit_ := true }.setOther thread .quitting) else none
  | .wakeup thread =>
    if run.others thread = .idle then none
    else some ({ run with loop := run.loop.wakeup }.setOther thread .idle)
  | .write => if run.waking then some { run with loop := run.loop.wakeup, waking := false } else none
  | event => if run.waking then none else run.loopStep event

def machine : Machine (LoopRun φ) (LoopEvent φ) := ⟨step⟩

end LoopRun
end Webserver
