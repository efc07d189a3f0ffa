import Webserver.Library.Tally
import Webserver.Proofs.LogRolling

/-! How often a rolling log checks its period. The counter of the appends is not
initialised: from a negative value it takes longer than `checkEveryN_` appends. -/

namespace Webserver
open Library

universe u
variable {α : Type u}

namespace LogFile
variable (strftime : Int → String)

/-- Whether the call takes the branch of `appendInlock` that compares the periods. -/
def checks (call : Append α) (log : LogFile α) : Bool :=
  match log.write call.data with
  | some (file, written) => !decide (file.writtenBytes_ > written.rollsize_) && decide (written.count_ ≥ written.checkEveryN_)
  | none => false

def volume (calls : List (Append α)) : Int := tally calls fun call => call.data.length

/-- As long as less than the limit is written, `checkEveryN_` appends contain one that
checks, and a roll when all their clocks are past the period and the last roll. -/
def Unstarved (start : LogFile α) : Prop :=
  ∀ earlier window log final, (machine strftime).run earlier start = some log → (machine strftime).run window log = some final →
    volume (earlier ++ window) < start.rollsize_ → window ≠ [] → start.checkEveryN_ ≤ window.length →
    ¬(machine strftime).Along (fun call log => log.checks call = false) window log ∧
    ((∀ call ∈ window, periodOf call.now ≠ log.startOfPeriod_ ∧ log.lastRoll_ < call.later) →
      log.closed.length < final.closed.length)

/-- A log with an open file that can take `budget` more bytes without a roll by size. -/
structure Roomy (budget : Int) (log : LogFile α) : Prop where
  opened : ∃ file, log.file_ = some file ∧ 0 ≤ file.writtenBytes_ ∧ file.writtenBytes_ + budget < log.rollsize_

structure Tick (call : Append α) (before after : LogFile α) : Prop where
  checkEveryN_ : after.checkEveryN_ = before.checkEveryN_
  rollsize_ : after.rollsize_ = before.rollsize_
  grows : before.closed.length ≤ after.closed.length
  checked : before.checks call = true → after.count_ = 0 ∧
    (periodOf call.now ≠ before.startOfPeriod_ → before.lastRoll_ < call.later → before.closed.length < after.closed.length)
  unchecked : before.checks call = false → increment before.count_ < before.checkEveryN_ ∧
    after.count_ = increment before.count_ ∧ after.startOfPeriod_ = before.startOfPeriod_ ∧ after.lastRoll_ = before.lastRoll_

private theorem checks_eq {call : Append α} {log : LogFile α} {budget : Int} (left : 0 ≤ budget)
    (roomy : Roomy (call.data.length + budget) log) : log.checks call = decide (increment log.count_ ≥ log.checkEveryN_) := by
  obtain ⟨file, opened, positive, room⟩ := roomy.opened
  have size : (file.append call.data).writtenBytes_ = file.writtenBytes_ + call.data.length := rfl
  have small : ¬(file.append call.data).writtenBytes_ > log.rollsize_ := by omega
  simp only [checks, write, opened, Option.map_some, small, decide_false, Bool.not_false, Bool.true_and]

private theorem checkFlush_tick {call : Append α} {before log : LogFile α} {budget now : Int} (tick : Tick call before log)
    (roomy : Roomy budget log) : Tick call before (log.checkFlush now) ∧ Roomy budget (log.checkFlush now) := by
  obtain ⟨file, opened, positive, room⟩ := roomy.opened
  unfold checkFlush
  split
  · exact ⟨⟨tick.checkEveryN_, tick.rollsize_, tick.grows, tick.checked, tick.unchecked⟩,
      ⟨file.flush, by rw [opened]; rfl, positive, room⟩⟩
  · exact ⟨tick, roomy⟩

private theorem checkRoll_tick {call : Append α} {before : LogFile α} {file : FileUtil α} {budget : Int} (left : 0 ≤ budget)
    (opened : before.file_ = some file) (positive : 0 ≤ file.writtenBytes_)
    (room : file.writtenBytes_ + (call.data.length + budget) < before.rollsize_) :
    Tick call before (checkRoll strftime call.now call.later (file.append call.data)
      { before with file_ := some (file.append call.data), count_ := increment before.count_ }) ∧
    Roomy budget (checkRoll strftime call.now call.later (file.append call.data)
      { before with file_ := some (file.append call.data), count_ := increment before.count_ }) := by
  have size : (file.append call.data).writtenBytes_ = file.writtenBytes_ + call.data.length := rfl
  have small : ¬(file.append call.data).writtenBytes_ > before.rollsize_ := by omega
  have checks := checks_eq left (⟨⟨file, opened, positive, room⟩⟩ : Roomy (call.data.length + budget) before)
  have stays : ∃ next, some (file.append call.data) = some next ∧ 0 ≤ next.writtenBytes_ ∧
      next.writtenBytes_ + budget < before.rollsize_ := ⟨_, rfl, by omega, by omega⟩
  rw [checkRoll]
  simp only [rolls, if_neg small]
  by_cases due : increment before.count_ ≥ before.checkEveryN_
  · have checked : before.checks call = true := by rw [checks, decide_eq_true due]
    have no : before.checks call ≠ false := by rw [checked]; decide
    simp only [if_pos due, rollFile]
    split
    next moved =>
      split
      next later =>
        have longer : before.closed.length < before.closed.length + 1 := Nat.lt_succ_self _
        refine ⟨⟨rfl, rfl, by simp [files], fun _ => ⟨rfl, fun _ _ => by simp [files]⟩, fun off => absurd off no⟩, ?_⟩
        exact ⟨_, rfl, Int.le_refl 0, by simp only [FileUtil.new]; omega⟩
      next refused =>
        exact ⟨⟨rfl, rfl, Nat.le_refl _, fun _ => ⟨rfl, fun _ later => absurd later refused⟩, fun off => absurd off no⟩, ⟨stays⟩⟩
    next current =>
      have same : periodOf call.now = before.startOfPeriod_ := by simpa using current
      exact ⟨⟨rfl, rfl, Nat.le_refl _, fun _ => ⟨rfl, fun moved => absurd same moved⟩, fun off => absurd off no⟩, ⟨stays⟩⟩
  · have unchecked : before.checks call ≠ true := by rw [checks, decide_eq_false due]; decide
    simp only [if_neg due, Bool.false_eq_true, if_false]
    exact ⟨⟨rfl, rfl, Nat.le_refl _, fun on => absurd on unchecked, fun _ => ⟨Int.not_le.mp due, rfl, rfl, rfl⟩⟩, ⟨stays⟩⟩

theorem step_tick {call : Append α} {before after : LogFile α} {budget : Int} (left : 0 ≤ budget)
    (roomy : Roomy (call.data.length + budget) before) (stepped : (machine strftime).step call before = some after) :
    Tick call before after ∧ Roomy budget after := by
  obtain ⟨file, opened, positive, room⟩ := roomy.opened
  simp only [machine, appendInlock, write, opened, Option.map_some] at stepped
  cases stepped
  obtain ⟨tick, roomy⟩ := checkRoll_tick strftime left opened positive room
  exact checkFlush_tick tick roomy

private theorem volume_cons (call : Append α) (calls : List (Append α)) :
    volume (call :: calls) = call.data.length + volume calls :=
  tally_cons _ _ _

private theorem volume_nonneg (calls : List (Append α)) : 0 ≤ volume calls := by
  have above : ∀ call ∈ calls, (0 : Int) ≤ call.data.length := fun _ _ => Int.natCast_nonneg _
  simpa [volume] using length_le_tally above

def Counting (log : LogFile α) : Prop := min 1 log.checkEveryN_ ≤ increment log.count_

theorem Tick.counting {call : Append α} {before after : LogFile α} (tick : Tick call before after)
    (int : before.checkEveryN_ ≤ 2147483647) (counting : Counting before) : Counting after := by
  unfold Counting at *
  rw [tick.checkEveryN_]
  cases checked : before.checks call with
  | true =>
    have one : increment 0 = 1 := rfl
    rw [(tick.checked checked).1, one]
    exact Int.min_le_left _ _
  | false =>
    obtain ⟨below, count, _⟩ := tick.unchecked checked
    rw [count, increment.eq_def (increment before.count_), if_neg (by omega)]
    omega

theorem run_tick {call : Append α} {calls : List (Append α)} {log final : LogFile α} (roomy : Roomy (volume (call :: calls)) log)
    (reached : (machine strftime).run (call :: calls) log = some final) :
    ∃ next, (machine strftime).step call log = some next ∧ (machine strftime).run calls next = some final ∧
      Tick call log next ∧ Roomy (volume calls) next := by
  obtain ⟨next, stepped, later⟩ := (Machine.run_cons _ _ _ _ _).mp reached
  rw [volume_cons] at roomy
  obtain ⟨tick, rest⟩ := step_tick strftime (volume_nonneg calls) roomy stepped
  exact ⟨next, stepped, later, tick, rest⟩

private theorem unchecked_short {window : List (Append α)} {log final : LogFile α} {base : Int}
    (int : log.checkEveryN_ ≤ 2147483647) (counted : base ≤ increment log.count_) (roomy : Roomy (volume window) log)
    (reached : (machine strftime).run window log = some final)
    (along : (machine strftime).Along (fun call log => log.checks call = false) window log) :
    base + window.length ≤ max log.checkEveryN_ base := by
  induction window generalizing log base with
  | nil => simp
  | cons call window ih =>
    obtain ⟨next, stepped, later, tick, rest⟩ := run_tick strftime roomy reached
    obtain ⟨below, count, _⟩ := tick.unchecked along.1
    have advanced : increment next.count_ = increment log.count_ + 1 := by
      rw [count, increment.eq_def (increment log.count_), if_neg (by omega)]
    have bound := ih (tick.checkEveryN_.symm ▸ int) (show base + 1 ≤ increment next.count_ by omega) rest later
      (along.2 next stepped)
    rw [tick.checkEveryN_] at bound
    rw [List.length_cons, Int.natCast_add, Int.natCast_one]
    omega

/-- While the counter stays below `checkEveryN_` nothing is checked. -/
private theorem unchecked_along {window : List (Append α)} {log : LogFile α} (int : log.checkEveryN_ ≤ 2147483647)
    (below : increment log.count_ + window.length ≤ log.checkEveryN_) (roomy : Roomy (volume window) log) :
    (machine strftime).Along (fun call log => log.checks call = false) window log := by
  induction window generalizing log with
  | nil => trivial
  | cons call window ih =>
    rw [volume_cons] at roomy
    rw [List.length_cons, Int.natCast_add, Int.natCast_one] at below
    have checked := checks_eq (volume_nonneg window) roomy
    have unchecked : log.checks call = false := by
      rw [checked]
      exact decide_eq_false (by omega)
    refine ⟨unchecked, fun next stepped => ?_⟩
    obtain ⟨tick, rest⟩ := step_tick strftime (volume_nonneg window) roomy stepped
    obtain ⟨_, count, _⟩ := tick.unchecked unchecked
    apply ih (tick.checkEveryN_.symm ▸ int) _ rest
    rw [count, increment.eq_def (increment log.count_), if_neg (by omega), tick.checkEveryN_]
    omega

private theorem closed_grows {window : List (Append α)} {log final : LogFile α} (roomy : Roomy (volume window) log)
    (reached : (machine strftime).run window log = some final) : log.closed.length ≤ final.closed.length := by
  induction window generalizing log with
  | nil =>
    cases reached
    exact Nat.le_refl _
  | cons call window ih =>
    obtain ⟨next, stepped, later, tick, rest⟩ := run_tick strftime roomy reached
    exact Nat.le_trans tick.grows (ih rest later)

/-- The first append that checks rolls, when the clocks have moved. -/
private theorem checked_rolls {window : List (Append α)} {log final : LogFile α} (roomy : Roomy (volume window) log)
    (reached : (machine strftime).run window log = some final)
    (checked : ¬(machine strftime).Along (fun call log => log.checks call = false) window log)
    (moved : ∀ call ∈ window, periodOf call.now ≠ log.startOfPeriod_ ∧ log.lastRoll_ < call.later) :
    log.closed.length < final.closed.length := by
  induction window generalizing log with
  | nil => exact absurd trivial checked
  | cons call window ih =>
    obtain ⟨next, stepped, later, tick, rest⟩ := run_tick strftime roomy reached
    cases due : log.checks call with
    | true =>
      obtain ⟨period, past⟩ := moved call (by simp)
      exact Nat.lt_of_lt_of_le ((tick.checked due).2 period past) (closed_grows strftime rest later)
    | false =>
      obtain ⟨_, _, period, past⟩ := tick.unchecked due
      refine Nat.lt_of_le_of_lt tick.grows (ih rest later (fun along => checked ⟨due, ?_⟩) ?_)
      · intro other same
        cases stepped.symm.trans same
        exact along
      · intro other member
        rw [period, past]
        exact moved other (by simp [member])

theorem run_counting {earlier rest : List (Append α)} {start log : LogFile α} (int : start.checkEveryN_ ≤ 2147483647)
    (counting : Counting start) (roomy : Roomy (volume (earlier ++ rest)) start)
    (reached : (machine strftime).run earlier start = some log) :
    log.checkEveryN_ = start.checkEveryN_ ∧ Counting log ∧ Roomy (volume rest) log := by
  induction earlier generalizing start with
  | nil =>
    cases reached
    exact ⟨rfl, counting, roomy⟩
  | cons call earlier ih =>
    obtain ⟨next, stepped, later⟩ := (Machine.run_cons _ _ _ _ _).mp reached
    rw [List.cons_append, volume_cons] at roomy
    obtain ⟨tick, left⟩ := step_tick strftime (volume_nonneg _) roomy stepped
    obtain ⟨same, kept⟩ := ih (tick.checkEveryN_.symm ▸ int) (tick.counting int counting) left later
    exact ⟨same.trans tick.checkEveryN_, kept⟩

theorem run_enabled {calls : List (Append α)} {log : LogFile α} (roomy : Roomy (volume calls) log) :
    ∃ final, (machine strftime).run calls log = some final := by
  induction calls generalizing log with
  | nil => exact ⟨log, rfl⟩
  | cons call calls ih =>
    rw [volume_cons] at roomy
    obtain ⟨file, opened, _⟩ := roomy.opened
    obtain ⟨next, stepped⟩ : ∃ next, (machine strftime).step call log = some next := by
      simp [machine, appendInlock, write, opened]
    obtain ⟨final, reached⟩ := ih (step_tick strftime (volume_nonneg calls) roomy stepped).2
    exact ⟨final, (Machine.run_cons _ _ _ _ _).mpr ⟨next, stepped, reached⟩⟩

theorem run_closed {calls : List (Append α)} {log final : LogFile α} (closed : log.file_ = none)
    (reached : (machine strftime).run calls log = some final) : calls = [] := by
  cases calls with
  | nil => rfl
  | cons call calls =>
    obtain ⟨next, stepped, _⟩ := (Machine.run_cons _ _ _ _ _).mp reached
    simp [machine, appendInlock, write, closed] at stepped

private theorem unstarved_of_counting {start : LogFile α} (int : start.checkEveryN_ ≤ 2147483647) (counting : Counting start)
    (roomy : ∀ calls : List (Append α), volume calls < start.rollsize_ → Roomy (volume calls) start) :
    Unstarved strftime start := by
  intro earlier window log final before reached small some long
  obtain ⟨same, kept, room⟩ := run_counting strftime int counting (roomy _ small) before
  have checked : ¬(machine strftime).Along (fun call log => log.checks call = false) window log := by
    intro along
    have short := unchecked_short strftime (same ▸ int) kept room reached along
    have positive := List.length_pos_iff.mpr some
    rw [same] at short
    omega
  exact ⟨checked, checked_rolls strftime room reached checked⟩

/-- From a lower value the first appends never get to the check. -/
private theorem counting_of_unstarved {start : LogFile α} (int : start.checkEveryN_ ≤ 2147483647)
    (roomy : ∀ calls : List (Append α), volume calls < start.rollsize_ → Roomy (volume calls) start) (limit : 0 < start.rollsize_)
    (unstarved : Unstarved strftime start) : Counting start := by
  by_contra starving
  unfold Counting at starving
  obtain ⟨extra, length⟩ : ∃ extra : Nat, (extra : Int) + 1 = max 1 start.checkEveryN_ :=
    ⟨(max 1 start.checkEveryN_ - 1).toNat, by omega⟩
  have silent : volume (List.replicate (extra + 1) (⟨[], 0, 0⟩ : Append α)) = 0 := by
    simp [volume, tally]
  have room := roomy (List.replicate (extra + 1) ⟨[], 0, 0⟩) (by rw [silent]; exact limit)
  obtain ⟨final, reached⟩ := run_enabled strftime room
  have checked := (unstarved [] _ start final rfl reached (by rw [List.nil_append, silent]; exact limit)
    (by simp) (by rw [List.length_replicate]; omega)).1
  apply checked
  apply unchecked_along strftime int _ room
  rw [List.length_replicate]
  omega

theorem new_roomy (basename : String) (rollsize flushInterval checkEveryN count : Int) {first : Int} (positive : 0 < first)
    (calls : List (Append α)) (small : volume calls < rollsize) :
    Roomy (volume calls) (new strftime basename rollsize flushInterval checkEveryN count first : LogFile α) := by
  rw [new, rollFile, if_pos positive]
  exact ⟨_, rfl, Int.le_refl 0, by simpa [FileUtil.new] using small⟩

/-- For all values that `count_` may hold before the first append, the checks are not
starved if and only if the first append counts from zero or has to check at once. -/
theorem checks_unstarved_iff (basename : String) (rollsize flushInterval first : Int) (checkEveryN count : Int32) :
    Unstarved strftime
      (new strftime basename rollsize flushInterval checkEveryN.toInt count.toInt first : LogFile α) ↔
    (0 < rollsize → 0 < first → min 1 checkEveryN.toInt ≤ increment count.toInt) := by
  have int : checkEveryN.toInt ≤ 2147483647 := checkEveryN.toInt_le
  by_cases positive : 0 < first
  · have roomy := @new_roomy α strftime basename rollsize flushInterval checkEveryN.toInt count.toInt first positive
    have config : ∀ log : LogFile α, new strftime basename rollsize flushInterval checkEveryN.toInt count.toInt first = log →
        log.rollsize_ = rollsize ∧ log.checkEveryN_ = checkEveryN.toInt ∧ log.count_ = count.toInt := by
      rintro _ rfl
      rw [new, rollFile, if_pos positive]
      exact ⟨rfl, rfl, rfl⟩
    generalize (new strftime basename rollsize flushInterval checkEveryN.toInt count.toInt first : LogFile α) = start at *
    obtain ⟨rfl, every, counter⟩ := config start rfl
    rw [← every] at int
    rw [← every, ← counter]
    by_cases limit : 0 < start.rollsize_
    · constructor
      · intro unstarved _ _
        exact counting_of_unstarved strftime int roomy limit unstarved
      · intro counting
        exact unstarved_of_counting strftime int (counting limit positive) roomy
    · refine iff_of_true ?_ (fun some => absurd some limit)
      intro earlier window _ _ _ _ small
      have nonneg := volume_nonneg (earlier ++ window)
      omega
  · refine iff_of_true ?_ (fun _ some => absurd some positive)
    intro earlier window log final before reached _ some
    have closed :
        (new strftime basename rollsize flushInterval checkEveryN.toInt count.toInt first : LogFile α).file_ = none := by
      rw [new, rollFile, if_neg positive]
    obtain rfl := run_closed strftime closed before
    cases before
    exact absurd (run_closed strftime closed reached) some

/-- Two appends on the next day neither check nor roll, when `count_` starts at -2. -/
theorem negative_count_starves : ¬Unstarved (fun _ => "")
    (new (fun _ => "") "log" 1000 3 2 (-2) 5 : LogFile Nat) := by
  intro unstarved
  have window := unstarved [] [⟨[1], 100000, 100000⟩, ⟨[2], 100001, 100001⟩] _ _ rfl rfl (by decide) (by simp) (by decide)
  have rolled := window.2 (by decide)
  revert rolled
  decide

end LogFile
end Webserver
