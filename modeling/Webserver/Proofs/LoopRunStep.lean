import Webserver.LoopRun

/-! What one step of a running loop does, said once. -/

namespace Webserver.LoopRun
open Library

universe u
variable {φ : Type u}

inductive Move (before : LoopRun φ) : LoopEvent φ → LoopRun φ → Prop where
  | pushes (thread : Nat) (cb : φ) (idle : before.others thread = .idle) :
      Move before (.push thread cb) ({ before with loop := before.loop.pushFunctor cb }.setOther thread .pushed)
  | quits (thread : Nat) (idle : before.others thread = .idle) :
      Move before (.quit thread) ({ before with quit_ := true }.setOther thread .quitting)
  | wakes (thread : Nat) (busy : before.others thread ≠ .idle) :
      Move before (.wakeup thread) ({ before with loop := before.loop.wakeup }.setOther thread .idle)
  | writes (waking : before.waking = true) :
      Move before .write { before with loop := before.loop.wakeup, waking := false }
  | enters (settled : before.waking = false) (phase : before.phase = .outside) :
      Move before .enter { before with looping_ := true, phase := .entered }
  | resets (settled : before.waking = false) (phase : before.phase = .entered) :
      Move before .reset { before with quit_ := false, phase := .testing }
  | leaves (settled : before.waking = false) (phase : before.phase = .testing) (quit : before.quit_ = true) :
      Move before .test { before with looping_ := false, phase := .outside }
  | stays (settled : before.waking = false) (phase : before.phase = .testing) (quit : before.quit_ = false) :
      Move before .test (before.move .polling)
  | polls (reported : Bool) (settled : before.waking = false) (phase : before.phase = .polling)
      (ready : reported = true → before.loop.wakeupFd_ ≠ 0) :
      Move before (.poll reported) (before.move (.handling reported))
  | reads (settled : before.waking = false) (phase : before.phase = .handling true) :
      Move before .handleRead
        { before with loop := { before.loop with wakeupFd_ := 0 }, phase := .handling false }
  | queues (cb : φ) (settled : before.waking = false) (code : before.userCode = true) :
      Move before (.queue cb) (before.queueHere cb)
  | quitsHere (settled : before.waking = false) (code : before.userCode = true) :
      Move before .quitHere { before with quit_ := true }
  | swaps (settled : before.waking = false) (phase : before.phase = .handling false) :
      Move before .swap { before with loop := before.loop.swapFunctors, phase := .running }
  | calls (functor : φ) (rest : List φ) (settled : before.waking = false) (phase : before.phase = .running)
      (batch : before.loop.functors = functor :: rest) :
      Move before .call { before with loop := { before.loop with functors := rest } }
  | finishes (settled : before.waking = false) (phase : before.phase = .running) (done : before.loop.functors = []) :
      Move before .finish { before with loop := before.loop.endFunctors, phase := .testing }

theorem loopStep_cases {event : LoopEvent φ} {before after : LoopRun φ} (settled : before.waking = false)
    (stepped : before.loopStep event = some after) : Move before event after := by
  unfold loopStep at stepped
  split at stepped
  next phase => cases stepped; exact .enters settled phase
  next phase => cases stepped; exact .resets settled phase
  next phase =>
    cases stepped
    split
    next quit => exact .leaves settled phase quit
    next quit => exact .stays settled phase (by simpa using quit)
  next reported phase =>
    split at stepped
    · cases stepped
    next ready =>
      cases stepped
      exact .polls reported settled phase fun report zero => ready ⟨report, zero⟩
  next phase => cases stepped; exact .reads settled phase
  next cb =>
    split at stepped
    next code => cases stepped; exact .queues cb settled code
    · cases stepped
  next =>
    split at stepped
    next code => cases stepped; exact .quitsHere settled code
    · cases stepped
  next phase => cases stepped; exact .swaps settled phase
  next phase =>
    split at stepped
    · cases stepped
    next functor rest batch => cases stepped; exact .calls functor rest settled phase batch
  next phase =>
    split at stepped
    next done => cases stepped; exact .finishes settled phase (by simpa using done)
    · cases stepped
  · cases stepped

theorem step_cases {event : LoopEvent φ} {before after : LoopRun φ} (stepped : step event before = some after) :
    Move before event after := by
  have own : (if before.waking then none else before.loopStep event) = some after → Move before event after := by
    intro moved
    split at moved
    · cases moved
    next settled => exact loopStep_cases (by simpa using settled) moved
  cases event with
  | push thread cb =>
    simp only [step] at stepped
    split at stepped
    next idle => cases stepped; exact .pushes thread cb idle
    · cases stepped
  | quit thread =>
    simp only [step] at stepped
    split at stepped
    next idle => cases stepped; exact .quits thread idle
    · cases stepped
  | wakeup thread =>
    simp only [step] at stepped
    split at stepped
    · cases stepped
    next busy => cases stepped; exact .wakes thread busy
  | write =>
    simp only [step] at stepped
    split at stepped
    next waking => cases stepped; exact .writes waking
    · cases stepped
  | enter => exact own stepped
  | reset => exact own stepped
  | test => exact own stepped
  | poll reported => exact own stepped
  | handleRead => exact own stepped
  | queue cb => exact own stepped
  | quitHere => exact own stepped
  | swap => exact own stepped
  | call => exact own stepped
  | finish => exact own stepped

/-- With no step of others between its two, another thread's call is `queueInLoop`. -/
theorem push_wakeup {run : LoopRun φ} {thread : Nat} (idle : run.others thread = .idle) (cb : φ) :
    machine.run [.push thread cb, .wakeup thread] run = some { run with loop := run.loop.queueInLoop false cb } := by
  have restored : Function.update run.others thread .idle = run.others := by
    rw [← idle]
    exact Function.update_eq_self thread run.others
  simp [Machine.run, machine, step, idle, setOther, restored, EventLoop.queueInLoop]

/-- So is a call on the loop's own thread, which wakes only while functors run. -/
theorem queue_write {run : LoopRun φ} (settled : run.waking = false) (code : run.userCode = true) (cb : φ) :
    machine.run (if run.loop.callingPendingFunctors_ then [.queue cb, .write] else [.queue cb]) run =
      some { run with loop := run.loop.queueInLoop true cb } := by
  cases calling : run.loop.callingPendingFunctors_ with
  | true => simp [Machine.run, machine, step, loopStep, settled, code, queueHere, calling, EventLoop.queueInLoop]
  | false => simp [Machine.run, machine, step, loopStep, settled, code, queueHere, calling, EventLoop.queueInLoop]

@[simp]
private theorem wakeup_calling (loop : EventLoop φ) :
    loop.wakeup.callingPendingFunctors_ = loop.callingPendingFunctors_ := by
  unfold EventLoop.wakeup
  split <;> rfl

/-- The flag holds while functors run, and only they leave a write for the loop's own thread. -/
structure Settled (run : LoopRun φ) : Prop where
  calling : run.loop.callingPendingFunctors_ = true ↔ run.phase = .running
  waking : run.waking = true → run.phase = .running

theorem new_settled : Settled (new : LoopRun φ) :=
  ⟨⟨fun calling => (by cases calling), fun running => (by cases running)⟩, fun waking => (by cases waking)⟩

theorem step_settled {event : LoopEvent φ} {before after : LoopRun φ} (settled : Settled before)
    (stepped : step event before = some after) : Settled after := by
  obtain ⟨calling, waking⟩ := settled
  cases step_cases stepped with
  | pushes => exact ⟨calling, waking⟩
  | quits => exact ⟨calling, waking⟩
  | wakes => exact ⟨by simpa [setOther] using calling, waking⟩
  | writes => exact ⟨by simpa using calling, fun waking => by cases waking⟩
  | enters still phase => exact ⟨by simp [calling, phase], fun waking => by simp [still] at waking⟩
  | resets still phase => exact ⟨by simp [calling, phase], fun waking => by simp [still] at waking⟩
  | leaves still phase => exact ⟨by simp [calling, phase], fun waking => by simp [still] at waking⟩
  | stays still phase => exact ⟨by simp [move, calling, phase], fun waking => by simp [move, still] at waking⟩
  | polls reported still phase =>
    exact ⟨by simp [move, calling, phase], fun waking => by simp [move, still] at waking⟩
  | reads still phase => exact ⟨by simp [calling, phase], fun waking => by simp [still] at waking⟩
  | queues cb => exact ⟨calling, fun waking => calling.mp waking⟩
  | quitsHere => exact ⟨calling, waking⟩
  | swaps => exact ⟨⟨fun _ => rfl, fun _ => rfl⟩, fun _ => rfl⟩
  | calls => exact ⟨calling, waking⟩
  | finishes still phase => exact ⟨by simp [EventLoop.endFunctors], fun waking => by simp [still] at waking⟩

end Webserver.LoopRun
