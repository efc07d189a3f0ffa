import Webserver.EPollPoller

/-! The functor queue of `EventLoop.cc`, for any type of functors. A round of
`doPendingFunctors` takes the whole queue and runs it one functor at a time; what
these functors queue waits for the next round. -/

namespace Webserver

universe u

/-- `functors` is the unexecuted rest of the batch local to `doPendingFunctors`,
and `wakeupFd_` the counter of the eventfd. -/
structure EventLoop (φ : Type u) where
  poller_ : EPollPoller
  wakeupFd_ : Nat
  callingPendingFunctors_ : Bool
  pendingFunctors_ : List φ
  functors : List φ

namespace EventLoop
variable {φ : Type u}

def new : EventLoop φ := ⟨.new, 0, false, [], []⟩

/-- The largest value an eventfd counter takes; a write beyond it fails. -/
def eventfdMax : Nat := 0xfffffffffffffffe

def wakeup (loop : EventLoop φ) : EventLoop φ :=
  if loop.wakeupFd_ < eventfdMax then { loop with wakeupFd_ := loop.wakeupFd_ + 1 } else loop

def pushFunctor (loop : EventLoop φ) (cb : φ) : EventLoop φ :=
  { loop with pendingFunctors_ := loop.pendingFunctors_ ++ [cb] }

def queueInLoop (loop : EventLoop φ) (isInLoopThread : Bool) (cb : φ) : EventLoop φ :=
  if !isInLoopThread || loop.callingPendingFunctors_ then (loop.pushFunctor cb).wakeup else loop.pushFunctor cb

/-- The start of `doPendingFunctors`, up to its loop. -/
def swapFunctors (loop : EventLoop φ) : EventLoop φ :=
  { loop with callingPendingFunctors_ := true, functors := loop.pendingFunctors_, pendingFunctors_ := [] }

def endFunctors (loop : EventLoop φ) : EventLoop φ := { loop with callingPendingFunctors_ := false }

/-- All functors still to be run, in the order in which they will be. -/
def waiting (loop : EventLoop φ) : List φ := loop.functors ++ loop.pendingFunctors_

/-- Whether it wakes the loop or not, only the queue and the eventfd change. -/
theorem queueInLoop_changes (loop : EventLoop φ) (isInLoopThread : Bool) (cb : φ) :
    loop.queueInLoop isInLoopThread cb =
      { loop.pushFunctor cb with wakeupFd_ := (loop.queueInLoop isInLoopThread cb).wakeupFd_ } := by
  unfold queueInLoop wakeup
  split
  · split <;> rfl
  · rfl

@[simp]
theorem queueInLoop_pending (loop : EventLoop φ) (isInLoopThread : Bool) (cb : φ) :
    (loop.queueInLoop isInLoopThread cb).pendingFunctors_ = loop.pendingFunctors_ ++ [cb] := by
  rw [queueInLoop_changes]
  rfl

@[simp]
theorem queueInLoop_functors (loop : EventLoop φ) (isInLoopThread : Bool) (cb : φ) :
    (loop.queueInLoop isInLoopThread cb).functors = loop.functors := by
  rw [queueInLoop_changes]
  rfl

@[simp]
theorem queueInLoop_calling (loop : EventLoop φ) (isInLoopThread : Bool) (cb : φ) :
    (loop.queueInLoop isInLoopThread cb).callingPendingFunctors_ = loop.callingPendingFunctors_ := by
  rw [queueInLoop_changes]
  rfl

@[simp]
theorem queueInLoop_poller (loop : EventLoop φ) (isInLoopThread : Bool) (cb : φ) :
    (loop.queueInLoop isInLoopThread cb).poller_ = loop.poller_ := by
  rw [queueInLoop_changes]
  rfl

@[simp]
theorem queueInLoop_waiting (loop : EventLoop φ) (isInLoopThread : Bool) (cb : φ) :
    (loop.queueInLoop isInLoopThread cb).waiting = loop.waiting ++ [cb] := by
  simp [waiting]

end EventLoop
end Webserver
