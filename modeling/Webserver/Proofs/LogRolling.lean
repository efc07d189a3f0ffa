import Webserver.LogFile

/-! The files of a rolling log: together they hold what was appended, their times of
creation increase, and one grows over the limit only when a roll was refused. -/

namespace Webserver
open Library

universe u
variable {α : Type u}

namespace LogFile
variable (strftime : Int → String)

/-- The reading of the clock at the roll that the call attempts. -/
def attempt (call : Append α) (log : LogFile α) : Option Int :=
  (log.write call.data).bind fun (file, written) => if (written.rolls call.now file).1 then some call.later else none

/-- What was appended so far, and the attempt of the last call. -/
structure Trail (α : Type u) where
  chunks : List (List α)
  previous : Option Int

def watched : Machine (LogFile α × Trail α) (Append α) :=
  (machine strftime).watch fun call log trail => ⟨trail.chunks ++ [call.data], attempt call log⟩

inductive Turn (call : Append α) (before after : LogFile α) : Prop where
  | stays (file : FileUtil α) (flushed : Nat) (opened : before.file_ = some file)
      (same : after.file_ = some { file.append call.data with flushed := flushed }) (closed : after.closed = before.closed)
      (lastRoll_ : after.lastRoll_ = before.lastRoll_)
      (refused : (file.append call.data).writtenBytes_ > before.rollsize_ →
        attempt call before = some call.later ∧ call.later ≤ before.lastRoll_)
  | rolled (file : FileUtil α) (flushed : Nat) (opened : before.file_ = some file)
      (fresh : after.file_ = some { (FileUtil.new (getLogFileName strftime before.basename_ call.later) call.later :
        FileUtil α) with flushed := flushed })
      (closed : after.closed = before.closed ++ [file.append call.data])
      (lastRoll_ : after.lastRoll_ = call.later) (later : before.lastRoll_ < call.later)

structure SameConfig (before after : LogFile α) : Prop where
  basename_ : after.basename_ = before.basename_
  rollsize_ : after.rollsize_ = before.rollsize_

/-- A flush touches neither the contents of the files nor the time of the last roll. -/
theorem checkFlush_spec (now : Int) {log : LogFile α} {file : FileUtil α} (opened : log.file_ = some file) :
    SameConfig log (log.checkFlush now) ∧ (log.checkFlush now).closed = log.closed ∧
    (log.checkFlush now).lastRoll_ = log.lastRoll_ ∧
    ∃ flushed, (log.checkFlush now).file_ = some { file with flushed := flushed } := by
  unfold checkFlush
  split
  · exact ⟨⟨rfl, rfl⟩, rfl, rfl, file.contents.length, by rw [opened]; rfl⟩
  · exact ⟨⟨rfl, rfl⟩, rfl, rfl, file.flushed, opened⟩

/-- A roll is made when it is attempted later than the last one. -/
theorem checkRoll_cases (now later : Int) (file : FileUtil α) (log : LogFile α) :
    (∃ count, log.checkRoll strftime now later file = { log with count_ := count }) ∧
        ((log.rolls now file).1 = true → later ≤ log.lastRoll_) ∨
      log.lastRoll_ < later ∧ ∃ count, log.checkRoll strftime now later file =
        { log with
          count_ := count
          lastFlush_ := later
          lastRoll_ := later
          startOfPeriod_ := periodOf later
          file_ := some (.new (getLogFileName strftime log.basename_ later) later)
          closed := log.files } := by
  unfold checkRoll
  obtain ⟨roll, count⟩ := log.rolls now file
  cases roll with
  | false => exact .inl ⟨⟨count, rfl⟩, fun none => by cases none⟩
  | true =>
    simp only [rollFile, if_true]
    split
    next made => exact .inr ⟨made, count, rfl⟩
    next refused => exact .inl ⟨⟨count, rfl⟩, fun _ => Int.not_lt.mp refused⟩

/-- A file that is over the limit is always rolled, or its roll is refused. -/
private theorem rolls_over (now : Int) {file : FileUtil α} {log : LogFile α} (large : file.writtenBytes_ > log.rollsize_) :
    (log.rolls now file).1 = true := by
  rw [rolls, if_pos large]

theorem step_cases {call : Append α} {before after : LogFile α} (stepped : (machine strftime).step call before = some after) :
    SameConfig before after ∧ Turn strftime call before after := by
  obtain ⟨⟨_, written⟩, wrote, rest⟩ := Option.bind_eq_some_iff.mp stepped
  obtain ⟨file, opened, same⟩ := Option.map_eq_some_iff.mp wrote
  cases same
  cases rest
  generalize holds : ({ before with file_ := some (file.append call.data), count_ := increment before.count_ } : LogFile α) =
    written at wrote ⊢
  have config : SameConfig before written := by subst holds; exact ⟨rfl, rfl⟩
  have isOpen : written.file_ = some (file.append call.data) := by subst holds; rfl
  have closed : written.closed = before.closed := by subst holds; rfl
  have last : written.lastRoll_ = before.lastRoll_ := by subst holds; rfl
  have tried : attempt call before =
      if (written.rolls call.now (file.append call.data)).1 then some call.later else none := by
    rw [attempt, wrote]
    rfl
  rcases written.checkRoll_cases strftime call.now call.later (file.append call.data) with
    ⟨⟨count, same⟩, refused⟩ | ⟨later, count, same⟩ <;> rw [same]
  · obtain ⟨settled, shut, again, flushed, result⟩ := checkFlush_spec call.now
      (show LogFile.file_ { written with count_ := count } = some (file.append call.data) from isOpen)
    refine ⟨⟨settled.basename_.trans config.basename_, settled.rollsize_.trans config.rollsize_⟩,
      .stays file flushed opened result (shut.trans closed) (again.trans last) fun large => ?_⟩
    have rolls := rolls_over call.now (config.rollsize_.symm ▸ large)
    rw [tried, if_pos rolls, ← last]
    exact ⟨rfl, refused rolls⟩
  · obtain ⟨settled, shut, again, flushed, result⟩ := checkFlush_spec call.now
      (show LogFile.file_ { written with
        count_ := count
        lastFlush_ := call.later
        lastRoll_ := call.later
        startOfPeriod_ := periodOf call.later
        file_ := some (FileUtil.new (getLogFileName strftime written.basename_ call.later) call.later : FileUtil α)
        closed := written.files } = some _ from rfl)
    refine ⟨⟨settled.basename_.trans config.basename_, settled.rollsize_.trans config.rollsize_⟩,
      .rolled file flushed opened ?_ ?_ again (last ▸ later)⟩
    · rw [result, config.basename_]
    · rw [shut]
      simp [files, closed, isOpen]

/-- The files of a log that was opened with a limit that is not negative, beside the
trail of the calls. Each chunk is whole in one of them. -/
structure Kept (basename : String) (rollsize : Int) (state : LogFile α × Trail α) : Prop where
  basename_ : state.1.basename_ = basename
  rollsize_ : state.1.rollsize_ = rollsize
  opened : ∃ file, state.1.file_ = some file ∧ file.created = state.1.lastRoll_
  sized : ∀ file ∈ state.1.files, file.writtenBytes_ = file.contents.length
  named : ∀ file ∈ state.1.files, file.filename = getLogFileName strftime basename file.created
  ordered : (state.1.files.map FileUtil.created).Pairwise (· < ·)
  whole : ∃ parts : List (List (List α)), parts.flatten = state.2.chunks ∧
    state.1.files.map FileUtil.contents = parts.map List.flatten
  refused : ∀ file, state.1.file_ = some file → file.writtenBytes_ > rollsize →
    ∃ reading, state.2.previous = some reading ∧ reading ≤ state.1.lastRoll_

theorem files_of_open {log : LogFile α} {file : FileUtil α} (opened : log.file_ = some file) :
    log.files = log.closed ++ [file] := by
  rw [files, opened]
  rfl

private theorem whole_append {before : LogFile α} {file : FileUtil α} {chunks : List (List α)}
    (opened : before.file_ = some file) (whole : ∃ parts : List (List (List α)), parts.flatten = chunks ∧
      before.files.map FileUtil.contents = parts.map List.flatten) (data : List α) :
    ∃ parts : List (List (List α)), parts.flatten = chunks ++ [data] ∧
      before.closed.map FileUtil.contents ++ [file.contents ++ data] = parts.map List.flatten := by
  obtain ⟨parts, all, contents⟩ := whole
  rw [files_of_open opened, List.map_append] at contents
  obtain ⟨early, last, rfl, earlier, rest⟩ := List.map_eq_append_iff.mp contents.symm
  obtain ⟨part, rfl, final⟩ := List.map_eq_singleton_iff.mp rest
  refine ⟨early ++ [part ++ [data]], ?_, ?_⟩
  · rw [← all]
    simp
  · simp [earlier, final]

namespace Turn
variable {strftime} {call : Append α} {before after : LogFile α} {current : FileUtil α}

theorem forall_files {good : FileUtil α → Prop} (turn : Turn strftime call before after) (old : ∀ file ∈ before.files, good file)
    (grown : ∀ file flushed, good file → good { file.append call.data with flushed := flushed })
    (fresh : ∀ flushed, good { (FileUtil.new (getLogFileName strftime before.basename_ call.later) call.later :
      FileUtil α) with flushed := flushed }) : ∀ file ∈ after.files, good file := by
  cases turn with
  | stays file flushed opened same closed =>
    rw [files_of_open opened, List.forall_mem_append, List.forall_mem_singleton] at old
    rw [files_of_open same, closed, List.forall_mem_append, List.forall_mem_singleton]
    exact ⟨old.1, grown file flushed old.2⟩
  | rolled file flushed opened new closed =>
    rw [files_of_open opened, List.forall_mem_append, List.forall_mem_singleton] at old
    rw [files_of_open new, closed, List.forall_mem_append, List.forall_mem_append, List.forall_mem_singleton,
      List.forall_mem_singleton]
    exact ⟨⟨old.1, grown file (file.append call.data).flushed old.2⟩, fresh flushed⟩

theorem ordered (turn : Turn strftime call before after) (isOpen : before.file_ = some current)
    (born : current.created = before.lastRoll_) (sorted : (before.files.map FileUtil.created).Pairwise (· < ·)) :
    (after.files.map FileUtil.created).Pairwise (· < ·) := by
  cases turn with
  | stays file flushed opened same closed =>
    rw [files_of_open opened] at sorted
    rw [files_of_open same, closed]
    simpa [FileUtil.append] using sorted
  | rolled file flushed opened fresh closed lastRoll_ later =>
    cases isOpen.symm.trans opened
    rw [files_of_open opened] at sorted
    have below : ∀ time ∈ (before.closed ++ [current]).map FileUtil.created, time < call.later := by
      intro time member
      rw [List.map_append, List.mem_append] at member
      rcases member with inside | last
      · have earlier := (List.pairwise_append.mp (List.map_append ▸ sorted)).2.2 time inside current.created (by simp)
        omega
      · have same : time = current.created := by simpa using last
        omega
    rw [files_of_open fresh, closed, List.map_append, List.pairwise_append]
    refine ⟨by simpa [FileUtil.append] using sorted, by simp, fun time member other last => ?_⟩
    have created : other = call.later := by simpa [FileUtil.new] using last
    rw [created]
    exact below time (by simpa [FileUtil.append] using member)

theorem whole (turn : Turn strftime call before after) {chunks : List (List α)}
    (parted : ∃ parts : List (List (List α)), parts.flatten = chunks ∧
      before.files.map FileUtil.contents = parts.map List.flatten) :
    ∃ parts : List (List (List α)), parts.flatten = chunks ++ [call.data] ∧
      after.files.map FileUtil.contents = parts.map List.flatten := by
  cases turn with
  | stays file flushed opened same closed =>
    have appended := whole_append opened parted call.data
    rw [files_of_open same, closed]
    simpa [FileUtil.append] using appended
  | rolled file flushed opened fresh closed =>
    obtain ⟨parts, all, contents⟩ := whole_append opened parted call.data
    have followed : (parts ++ [[]]).map List.flatten = parts.map List.flatten ++ [[]] := by simp
    refine ⟨parts ++ [[]], by simpa using all, ?_⟩
    rw [files_of_open fresh, closed, followed, ← contents]
    simp [FileUtil.append, FileUtil.new]

theorem opened (turn : Turn strftime call before after) (isOpen : before.file_ = some current)
    (born : current.created = before.lastRoll_) : ∃ file, after.file_ = some file ∧ file.created = after.lastRoll_ := by
  cases turn with
  | stays file flushed opened same closed lastRoll_ =>
    cases isOpen.symm.trans opened
    exact ⟨_, same, lastRoll_ ▸ born⟩
  | rolled file flushed opened fresh closed lastRoll_ => exact ⟨_, fresh, lastRoll_.symm⟩

/-- A file that the call leaves over the limit has been refused its roll. -/
theorem refused (turn : Turn strftime call before after) (limit : 0 ≤ before.rollsize_) {file : FileUtil α}
    (holds : after.file_ = some file) (large : file.writtenBytes_ > before.rollsize_) :
    ∃ reading, attempt call before = some reading ∧ reading ≤ after.lastRoll_ := by
  cases turn with
  | stays old flushed opened same closed lastRoll_ refused =>
    cases same.symm.trans holds
    obtain ⟨tried, late⟩ := refused large
    exact ⟨call.later, tried, lastRoll_ ▸ late⟩
  | rolled old flushed opened fresh =>
    cases fresh.symm.trans holds
    exact absurd large (Int.not_lt.mpr limit)

end Turn

theorem step_kept {basename : String} {rollsize : Int} (limit : 0 ≤ rollsize) {call : Append α}
    {before after : LogFile α × Trail α} (kept : Kept strftime basename rollsize before)
    (stepped : (watched strftime).step call before = some after) : Kept strftime basename rollsize after := by
  obtain ⟨log, trail⟩ := after
  obtain ⟨moved, rfl⟩ := Machine.watch_step.mp stepped
  obtain ⟨config, turn⟩ := step_cases strftime moved
  obtain ⟨current, isOpen, born⟩ := kept.opened
  refine ⟨config.basename_.trans kept.basename_, config.rollsize_.trans kept.rollsize_, turn.opened isOpen born, ?_, ?_,
    turn.ordered isOpen born kept.ordered, turn.whole kept.whole, ?_⟩
  · apply turn.forall_files kept.sized
    · intro file flushed sized
      simp [FileUtil.append, sized]
    · exact fun _ => rfl
  · apply turn.forall_files kept.named
    · exact fun _ _ named => named
    · exact fun _ => congrArg (fun base => getLogFileName strftime base call.later) kept.basename_
  · intro file holds large
    rw [← kept.rollsize_] at limit large
    exact turn.refused limit holds large

theorem new_kept (basename : String) {rollsize : Int} (limit : 0 ≤ rollsize) (flushInterval checkEveryN count : Int)
    {now : Int} (positive : 0 < now) :
    Kept strftime basename rollsize
      ((new strftime basename rollsize flushInterval checkEveryN count now : LogFile α), ⟨[], none⟩) := by
  rw [new, rollFile, if_pos positive]
  refine ⟨rfl, rfl, ⟨_, rfl, rfl⟩, ?_, ?_, ?_, ⟨[[]], rfl, rfl⟩, ?_⟩
  · simp [files, FileUtil.new]
  · simp [files, FileUtil.new]
  · simp [files]
  · intro file holds large
    cases holds
    exact absurd large (Int.not_lt.mpr limit)

private theorem getLogFileName_injective (named : Function.Injective strftime) (basename : String) :
    Function.Injective (getLogFileName strftime basename) := by
  intro first second same
  have lists := congrArg String.toList same
  simp only [getLogFileName, String.toList_append, List.append_cancel_left_eq, List.append_cancel_right_eq] at lists
  exact named (String.toList_inj.mp lists)

private theorem chunks_recorded {start : LogFile α} {calls : List (Append α)} {final : LogFile α × Trail α}
    (reached : (watched strftime).run calls (start, ⟨[], none⟩) = some final) :
    final.2.chunks = calls.map Append.data := by
  have refines : ∀ call (before after : LogFile α × Trail α) (chunks : List (List α)), before.2.chunks = chunks →
      (watched strftime).step call before = some after → after.2.chunks = chunks ++ [call.data] := by
    intro call before after chunks same stepped
    rw [(Machine.watch_step.mp stepped).2, same]
  have folded := @Machine.run_refines _ _ _ _ (fun chunks (call : Append α) => chunks ++ [call.data])
    (fun state chunks => state.2.chunks = chunks) refines _ _ _ [] reached rfl
  rw [folded, List.foldl_append_eq_append, List.nil_append, ← List.flatMap_def, ← List.map_eq_flatMap]

/-- A file that is over the limit is written to only after its roll was refused: the
reading of the preceding append's attempt was not later than the last roll. -/
def OverLimit (rollsize : Int) (_ : Append α) (before : LogFile α × Trail α) : Prop :=
  ∀ file, before.1.file_ = some file → (file.contents.length : Int) > rollsize →
    ∃ reading, before.2.previous = some reading ∧ reading ≤ before.1.lastRoll_

/-- What is appended goes whole and in order to the files, whose times of creation and
so whose names increase; a file over the limit is written to only after a refused roll. -/
theorem rolling_conserves (named : Function.Injective strftime) (basename : String) (rollsize : Int) (limit : 0 ≤ rollsize)
    (flushInterval checkEveryN count first : Int) (positive : 0 < first) (calls : List (Append α))
    (final : LogFile α × Trail α)
    (reached : (watched strftime).run calls
      (new strftime basename rollsize flushInterval checkEveryN count first, ⟨[], none⟩) = some final) :
    final.2.chunks = calls.map Append.data ∧
    (∃ parts : List (List (List α)), parts.flatten = final.2.chunks ∧
      final.1.files.map FileUtil.contents = parts.map List.flatten) ∧
    final.1.files.flatMap FileUtil.contents = final.2.chunks.flatten ∧
    (final.1.files.map FileUtil.created).Pairwise (· < ·) ∧
    final.1.files.map FileUtil.filename = final.1.files.map (fun file => getLogFileName strftime basename file.created) ∧
    (final.1.files.map FileUtil.filename).Nodup ∧
    (watched strftime).Along (OverLimit rollsize) calls
      (new strftime basename rollsize flushInterval checkEveryN count first, ⟨[], none⟩) ∧
    ∀ call, ((machine strftime).step call final.1).isSome := by
  have start := @new_kept α strftime basename rollsize limit flushInterval checkEveryN count first positive
  have preserved : ∀ call (before after : LogFile α × Trail α), Kept strftime basename rollsize before →
      (watched strftime).step call before = some after → Kept strftime basename rollsize after :=
    fun _ _ _ kept stepped => step_kept strftime limit kept stepped
  have kept := Machine.run_preserves preserved reached start
  obtain ⟨parts, all, contents⟩ := kept.whole
  refine ⟨chunks_recorded strftime reached, ⟨parts, all, contents⟩, ?_, kept.ordered, ?_, ?_, ?_, ?_⟩
  · rw [List.flatMap_def, contents, ← all, List.flatten_flatten]
  · exact List.map_congr_left kept.named
  · rw [List.map_congr_left kept.named]
    have increasing := kept.ordered
    rw [List.pairwise_map] at increasing
    refine List.pairwise_map.mpr (increasing.imp fun less same => ?_)
    exact Int.ne_of_lt less (getLogFileName_injective strftime named basename same)
  · refine Machine.along_of_invariant (fun call before held file opened large => ?_) preserved calls start
    have sized := held.sized file (by simp [files_of_open opened])
    exact held.refused file opened (sized ▸ large)
  · intro call
    obtain ⟨file, opened, _⟩ := kept.opened
    simp [machine, appendInlock, write, opened]

def digits (time : Int) : String := String.ofList ((if time < 0 then '-' else '+') :: Nat.toDigits 10 time.natAbs)

private theorem digits_injective : Function.Injective digits := by
  intro first second same
  have lists := congrArg String.toList same
  simp only [digits, String.toList_ofList, List.cons.injEq] at lists
  have sizes := congrArg (fun digits => Nat.ofDigitChars 10 digits 0) lists.2
  simp only [Nat.ofDigitChars_ten_toDigits] at sizes
  have signs : first < 0 ↔ second < 0 := by
    by_cases negative : first < 0
    · by_cases other : second < 0
      · exact iff_of_true negative other
      · simp [negative, other] at lists
    · by_cases other : second < 0
      · simp [negative, other] at lists
      · exact iff_of_false negative other
  omega

/-- A roll that is refused, one by size and one by the day. -/
theorem rolling_conserves_three : ∃ final : LogFile Nat × Trail Nat,
    (watched digits).run [⟨[1, 2], 5, 5⟩, ⟨[3], 5, 6⟩, ⟨[4], 100000, 100001⟩]
      (new digits "log" 1 3 1 0 5, ⟨[], none⟩) = some final ∧
    final.1.files.map FileUtil.contents = [[1, 2, 3], [4], []] ∧ (final.1.files.map FileUtil.filename).Nodup := by
  have computed : ((watched digits).run [⟨[1, 2], 5, 5⟩, ⟨[3], 5, 6⟩, ⟨[4], 100000, 100001⟩]
      (new digits "log" 1 3 1 0 5, (⟨[], none⟩ : Trail Nat))).map (fun final => final.1.files.map FileUtil.contents) =
        some [[1, 2, 3], [4], []] := by
    decide +kernel
  obtain ⟨final, reached, seen⟩ := Option.map_eq_some_iff.mp computed
  obtain ⟨_, _, _, _, _, distinct, _⟩ :=
    rolling_conserves digits digits_injective "log" 1 (by decide) 3 1 0 5 (by decide) _ final reached
  exact ⟨final, reached, seen, distinct⟩

end LogFile
end Webserver
