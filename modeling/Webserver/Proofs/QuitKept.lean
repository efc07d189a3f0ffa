import Webserver.EventLoopThread
import Webserver.Proofs.LoopRunStep

/-! A `quit` from another thread is kept when the loop has already reset `quit_`, and can
be lost when it comes between the publication of the loop and that reset. -/

namespace Webserver
open Library

universe u
variable {φ : Type u}

namespace LoopRun

theorem Move.keeps_quit {event : LoopEvent φ} {before after : LoopRun φ} (moved : Move before event after)
    (entered : before.phase ≠ .entered) (quit : before.quit_ = true) : after.quit_ = true := by
  cases moved with
  | resets _ phase => exact absurd phase entered
  | quits => rfl
  | quitsHere => rfl
  | _ => exact quit

theorem Move.entered_only {event : LoopEvent φ} {before after : LoopRun φ} (moved : Move before event after)
    (entered : after.phase = .entered) : before.phase = .entered ∨ event = .enter := by
  cases moved with
  | enters => exact .inr rfl
  | resets => cases entered
  | leaves => cases entered
  | stays => cases entered
  | polls => cases entered
  | reads => cases entered
  | swaps => cases entered
  | finishes => cases entered
  | _ => exact .inl entered

/-- A new round is started only with `quit_` false. -/
theorem Move.polling_only {event : LoopEvent φ} {before after : LoopRun φ} (moved : Move before event after)
    (polling : after.phase = .polling) : before.phase = .polling ∨ before.quit_ = false := by
  cases moved with
  | stays _ _ quit => exact .inr quit
  | enters => cases polling
  | resets => cases polling
  | leaves => cases polling
  | polls => cases polling
  | reads => cases polling
  | swaps => cases polling
  | finishes => cases polling
  | _ => exact .inl polling

theorem Move.outside_iff {event : LoopEvent φ} {before after : LoopRun φ} (moved : Move before event after)
    (other : event ≠ .enter) (inside : event ≠ .test) : after.phase = .outside ↔ before.phase = .outside := by
  cases moved with
  | enters => exact absurd rfl other
  | leaves => exact absurd rfl inside
  | stays => exact absurd rfl inside
  | resets _ phase => simp [phase]
  | polls _ _ phase => simp [move, phase]
  | reads _ phase => simp [phase]
  | swaps _ phase => simp [phase]
  | finishes _ phase => simp [phase]
  | _ => exact Iff.rfl

end LoopRun

namespace EventLoopThread

inductive Turn (before : EventLoopThread φ) : ThreadEvent φ → EventLoopThread φ → Prop where
  | starts (unstarted : before.threadFunc = .unstarted) : Turn before .start { before with threadFunc := .callback }
  | publishes (callback : before.threadFunc = .callback) :
      Turn before .publish { before with loop_ := true, threadFunc := .published }
  | obtains (published : before.loop_ = true) : Turn before .startLoop { before with obtained := true }
  | clears (left : before.threadFunc = .left) :
      Turn before .clear { before with loop_ := false, threadFunc := .returned }
  | loops (event : LoopEvent φ) (run : LoopRun φ) (allowed : before.allows event = true)
      (stepped : LoopRun.step event before.run = some run) :
      Turn before (.loop event) { before with run, threadFunc := before.position event run }

theorem step_cases {event : ThreadEvent φ} {before after : EventLoopThread φ} (stepped : step event before = some after) :
    Turn before event after := by
  cases event with
  | start =>
    simp only [step] at stepped
    split at stepped
    next unstarted => cases stepped; exact .starts unstarted
    · cases stepped
  | publish =>
    simp only [step] at stepped
    split at stepped
    next callback => cases stepped; exact .publishes callback
    · cases stepped
  | startLoop =>
    simp only [step] at stepped
    split at stepped
    next published => cases stepped; exact .obtains published
    · cases stepped
  | clear =>
    simp only [step] at stepped
    split at stepped
    next left => cases stepped; exact .clears left
    · cases stepped
  | loop event =>
    simp only [step] at stepped
    split at stepped
    next allowed =>
      obtain ⟨run, moved, rfl⟩ := Option.map_eq_some_iff.mp stepped
      exact .loops event run allowed moved
    · cases stepped

/-- The position in `threadFunc` agrees with that in `loop`. -/
structure Placed (thread : EventLoopThread φ) : Prop where
  published : thread.loop_ = true ∨ thread.obtained = true →
    thread.threadFunc ≠ .unstarted ∧ thread.threadFunc ≠ .callback
  outside : thread.run.phase = .outside ↔ thread.threadFunc ≠ .looping
  settled : thread.run.Settled

theorem new_placed : Placed (new : EventLoopThread φ) :=
  ⟨fun known => by simp [new] at known, ⟨fun _ => by simp [new], fun _ => rfl⟩, LoopRun.new_settled⟩

private theorem loop_placed {event : LoopEvent φ} {before : EventLoopThread φ} {run : LoopRun φ} (placed : Placed before)
    (moved : LoopRun.step event before.run = some run) :
    Placed { before with run, threadFunc := before.position event run } := by
  have settled := LoopRun.step_settled placed.settled moved
  by_cases enters : event = .enter
  · subst enters
    refine ⟨fun _ => ?_, ?_, settled⟩
    · simp [position]
    · cases LoopRun.step_cases moved with
      | enters => simp [position]
  · by_cases tests : event = .test
    · subst tests
      refine ⟨fun _ => ?_, ?_, settled⟩
      · simp only [position]
        split <;> simp
      · simp only [position]
        split
        next out => simp [out]
        next within => simp [within]
    · have same : before.position event run = before.threadFunc := by
        unfold position
        split
        · exact absurd rfl enters
        · exact absurd rfl tests
        · rfl
      refine ⟨?_, ?_, settled⟩
      · rw [same]
        exact placed.published
      · rw [same]
        exact ((LoopRun.step_cases moved).outside_iff enters tests).trans placed.outside

theorem step_placed {event : ThreadEvent φ} {before after : EventLoopThread φ} (placed : Placed before)
    (stepped : step event before = some after) : Placed after := by
  cases step_cases stepped with
  | starts unstarted =>
    refine ⟨fun known => absurd unstarted (placed.published known).1, ?_, placed.settled⟩
    simp [placed.outside, unstarted]
  | publishes callback =>
    refine ⟨fun _ => by simp, ?_, placed.settled⟩
    simp [placed.outside, callback]
  | obtains published => exact ⟨fun _ => placed.published (.inl published), placed.outside, placed.settled⟩
  | clears left =>
    refine ⟨fun _ => by simp, ?_, placed.settled⟩
    simp [placed.outside, left]
  | loops event run _ moved => exact loop_placed placed moved

def Position.called : Position → Bool
  | .unstarted | .callback | .published => false
  | .looping | .left | .returned => true

/-- The loop's thread is past `quit_ = false` in `loop`. -/
structure Begun (thread : EventLoopThread φ) : Prop where
  called : thread.threadFunc.called = true
  reset : thread.run.phase ≠ .entered

private theorem position_called {event : LoopEvent φ} {thread : EventLoopThread φ} {run : LoopRun φ}
    (called : thread.threadFunc.called = true) : (thread.position event run).called = true := by
  unfold position
  split
  · rfl
  · split <;> rfl
  · exact called

theorem step_begun {event : ThreadEvent φ} {before after : EventLoopThread φ} (begun : Begun before)
    (stepped : step event before = some after) : Begun after := by
  obtain ⟨called, reset⟩ := begun
  cases step_cases stepped with
  | starts unstarted => simp [unstarted, Position.called] at called
  | publishes callback => simp [callback, Position.called] at called
  | obtains => exact ⟨called, reset⟩
  | clears => exact ⟨rfl, reset⟩
  | loops event run allowed moved =>
    refine ⟨position_called called, fun entered => ?_⟩
    rcases (LoopRun.step_cases moved).entered_only entered with earlier | rfl
    · exact reset earlier
    · have published : before.threadFunc = .published := by simpa [allows] using allowed
      simp [published, Position.called] at called

theorem step_quit {event : ThreadEvent φ} {before after : EventLoopThread φ} (begun : Begun before)
    (quit : before.run.quit_ = true) (stepped : step event before = some after) : after.run.quit_ = true := by
  cases step_cases stepped with
  | loops event run _ moved => exact (LoopRun.step_cases moved).keeps_quit begun.reset quit
  | _ => exact quit

theorem run_quit {events : List (ThreadEvent φ)} {start final : EventLoopThread φ}
    (reached : machine.run events start = some final) (begun : Begun start) (quit : start.run.quit_ = true) :
    Begun final ∧ final.run.quit_ = true := by
  have preserved : ∀ event (before after : EventLoopThread φ), Begun before ∧ before.run.quit_ = true →
      machine.step event before = some after → Begun after ∧ after.run.quit_ = true :=
    fun _ _ _ held stepped => ⟨step_begun held.1 stepped, step_quit held.1 held.2 stepped⟩
  exact Machine.run_preserves preserved reached ⟨begun, quit⟩

theorem step_polling {event : ThreadEvent φ} {before after : EventLoopThread φ}
    (stepped : step event before = some after) (polling : after.run.phase = .polling) :
    before.run.phase = .polling ∨ before.run.quit_ = false := by
  cases step_cases stepped with
  | loops event run _ moved => exact (LoopRun.step_cases moved).polling_only polling
  | _ => exact .inl polling

/-- From here on `quit_` stays set, and no step starts a `poll`. -/
def Quits (thread : EventLoopThread φ) : Prop :=
  ∀ later final, machine.run later thread = some final → final.run.quit_ = true ∧
    ∀ event next, machine.step event final = some next → next.run.phase = .polling → final.run.phase = .polling

private theorem quits_of_begun {thread : EventLoopThread φ} (begun : Begun thread) (quit : thread.run.quit_ = true) :
    Quits thread := by
  intro later final reached
  obtain ⟨_, kept⟩ := run_quit reached begun quit
  refine ⟨kept, fun event next stepped polling => ?_⟩
  rcases step_polling stepped polling with earlier | lost
  · exact earlier
  · rw [lost] at kept
    cases kept

/-- The reset of `quit_` comes after the store of `quit`, and before its return. -/
private theorem reset_loses {thread : Nat} {entered : EventLoopThread φ} (obtained : entered.obtained = true)
    (looping : entered.threadFunc = .looping) (phase : entered.run.phase = .entered) (still : entered.run.waking = false)
    (quitting : entered.run.others thread = .quitting) :
    ∃ returned, machine.run [.loop .reset, .loop (.wakeup thread)] entered = some returned ∧
      returned.run.others thread ≠ .quitting ∧ returned.run.quit_ = false := by
  simp [Machine.run, machine, step, allows, LoopRun.step, LoopRun.loopStep, LoopRun.setOther, obtained, looping, phase,
    still, quitting]

private theorem quit_lost {thread : Nat} {stored : EventLoopThread φ} (placed : Placed stored)
    (obtained : stored.obtained = true) (early : ¬ Begun stored) (quitting : stored.run.others thread = .quitting) :
    ∃ middle returned, machine.run middle stored = some returned ∧ returned.run.others thread ≠ .quitting ∧
      returned.run.quit_ = false := by
  obtain ⟨started, initialised⟩ := placed.published (.inr obtained)
  have still : stored.run.phase ≠ .running → stored.run.waking = false := fun other =>
    Bool.eq_false_iff.mpr fun waking => other (placed.settled.waking waking)
  by_cases published : stored.threadFunc = .published
  · have outside : stored.run.phase = .outside := placed.outside.mpr (by simp [published])
    have enters : machine.step (.loop .enter) stored =
        some { stored with run := { stored.run with looping_ := true, phase := .entered }, threadFunc := .looping } := by
      simp [machine, step, allows, LoopRun.step, LoopRun.loopStep, position, published, outside, still]
    obtain ⟨returned, lost, property⟩ := @reset_loses φ thread
      { stored with run := { stored.run with looping_ := true, phase := .entered }, threadFunc := .looping }
      obtained rfl rfl (still (by simp [outside])) quitting
    exact ⟨_, returned, (Machine.run_cons _ _ _ _ _).mpr ⟨_, enters, lost⟩, property⟩
  · have called : stored.threadFunc.called = true := by
      cases position : stored.threadFunc <;> simp_all [Position.called]
    have entered : stored.run.phase = .entered := by
      by_contra other
      exact early ⟨called, other⟩
    have looping : stored.threadFunc = .looping := by
      by_contra other
      rw [placed.outside.mpr other] at entered
      cases entered
    obtain ⟨returned, lost, property⟩ := reset_loses obtained looping entered (still (by simp [entered])) quitting
    exact ⟨_, returned, lost, property⟩

private theorem quit_stored {thread : Nat} {before stored : EventLoopThread φ}
    (stepped : step (.loop (.quit thread)) before = some stored) :
    stored.obtained = true ∧ (Begun stored ↔ Begun before) ∧ stored.run.others thread = .quitting ∧
      stored.run.quit_ = true := by
  cases step_cases stepped with
  | loops _ run allowed moved =>
    cases LoopRun.step_cases moved with
    | quits =>
      refine ⟨by simpa [allows] using allowed, ?_, by simp [LoopRun.setOther], rfl⟩
      exact ⟨fun begun => ⟨begun.called, begun.reset⟩, fun begun => ⟨begun.called, begun.reset⟩⟩

/-- A `quit` by a thread that got the loop from `startLoop` is kept, however it returns, exactly
when its store comes after the reset of `quit_` in `loop`. -/
theorem quit_kept {earlier : List (ThreadEvent φ)} {thread : Nat} {before stored : EventLoopThread φ}
    (reached : machine.run earlier new = some before)
    (quit : machine.step (.loop (.quit thread)) before = some stored) :
    (∀ middle returned, machine.run middle stored = some returned → returned.run.others thread ≠ .quitting →
      Quits returned) ↔ Begun before := by
  have placed := Machine.run_preserves (fun _ _ _ => step_placed) reached new_placed
  have stepped : step (.loop (.quit thread)) before = some stored := quit
  obtain ⟨obtained, shape, quitting, set⟩ := quit_stored stepped
  constructor
  · intro kept
    by_contra early
    obtain ⟨middle, returned, lost, idle, cleared⟩ :=
      quit_lost (step_placed placed stepped) obtained (fun begun => early (shape.mp begun)) quitting
    have set := (kept middle returned lost idle [] returned rfl).1
    rw [cleared] at set
    cases set
  · intro begun middle returned middleRun _
    obtain ⟨later, kept⟩ := run_quit middleRun (shape.mpr begun) set
    exact quits_of_begun later kept

/-- The store comes while a handler runs, and the loop leaves after its round. -/
theorem quit_kept_handling : ∃ before stored returned final : EventLoopThread Nat,
    machine.run [.start, .publish, .startLoop, .loop .enter, .loop .reset, .loop .test, .loop (.poll false)] new =
      some before ∧
    machine.step (.loop (.quit 0)) before = some stored ∧
    machine.run [.loop (.wakeup 0)] stored = some returned ∧ Quits returned ∧
    machine.run [.loop .swap, .loop .finish, .loop .test] returned = some final ∧ final.threadFunc = .left := by
  have computed : ((machine.run [.start, .publish, .startLoop, .loop .enter, .loop .reset, .loop .test,
      .loop (.poll false)] (new : EventLoopThread Nat)).bind fun before =>
      (machine.step (.loop (.quit 0)) before).bind fun stored =>
      (machine.run [.loop (.wakeup 0)] stored).bind fun returned =>
      (machine.run [.loop .swap, .loop .finish, .loop .test] returned).map fun final =>
        ((before.threadFunc.called, before.run.phase), returned.run.others 0, final.threadFunc)) =
      some ((true, .handling false), .idle, .left) := by decide +kernel
  obtain ⟨before, reached, computed⟩ := Option.bind_eq_some_iff.mp computed
  obtain ⟨stored, quit, computed⟩ := Option.bind_eq_some_iff.mp computed
  obtain ⟨returned, returns, computed⟩ := Option.bind_eq_some_iff.mp computed
  obtain ⟨final, leaves, seen⟩ := Option.map_eq_some_iff.mp computed
  simp only [Prod.mk.injEq] at seen
  obtain ⟨⟨called, phase⟩, idle, left⟩ := seen
  have kept := (quit_kept reached quit).mpr ⟨called, by simp [phase]⟩
  exact ⟨before, stored, returned, final, reached, quit, returns, kept _ _ returns (by simp [idle]), leaves, left⟩

/-- `quit` returns before `loop` is entered, and the loop goes on to `poll`. -/
theorem quit_forgotten : ∃ returned final : EventLoopThread Nat,
    machine.run [.start, .publish, .startLoop, .loop (.quit 0), .loop (.wakeup 0)] new = some returned ∧
    returned.run.others 0 = .idle ∧
    machine.run [.loop .enter, .loop .reset, .loop .test] returned = some final ∧
    final.run.quit_ = false ∧ final.run.phase = .polling ∧ ¬ Quits returned := by
  have computed : ((machine.run [.start, .publish, .startLoop, .loop (.quit 0), .loop (.wakeup 0)]
      (new : EventLoopThread Nat)).bind fun returned =>
      (machine.run [.loop .enter, .loop .reset, .loop .test] returned).map fun final =>
        (returned.run.others 0, final.run.quit_, final.run.phase)) = some (.idle, false, .polling) := by decide +kernel
  obtain ⟨returned, reached, computed⟩ := Option.bind_eq_some_iff.mp computed
  obtain ⟨final, later, seen⟩ := Option.map_eq_some_iff.mp computed
  simp only [Prod.mk.injEq] at seen
  obtain ⟨idle, cleared, polling⟩ := seen
  refine ⟨returned, final, reached, idle, later, cleared, polling, fun kept => ?_⟩
  have set := (kept _ _ later).1
  rw [cleared] at set
  cases set

end EventLoopThread
end Webserver
