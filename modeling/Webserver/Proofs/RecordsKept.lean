import Webserver.Library.Packing
import Webserver.LogPipeline
import Webserver.Proofs.LogConservation
import Webserver.Proofs.LogRolling
import Webserver.Proofs.RecordEnd

/-! From `append` to the files: every line is whole in one buffer and then whole in one
file, in the order of the appends, and what an iteration wrote is flushed at its end. -/

namespace Webserver
open Library

universe u
variable {α : Type u} {bufferSize : Nat}

namespace AsyncLogging

def boxes (log : AsyncLogging α bufferSize) : List (List α) :=
  log.output ++ (log.unwritten ++ log.buffers_ ++ [log.currentBuffer_]).map BufferPtr.contents

private theorem boxes_last (log : AsyncLogging α bufferSize) :
    log.boxes = log.output ++ (log.unwritten ++ log.buffers_).map BufferPtr.contents ++ [log.currentBuffer_.contents] := by
  simp [boxes]

private theorem append_packed [OfNat α 0] {logline : List α} {before after : AsyncLogging α bufferSize} {lines : List (List α)}
    (owned : Owned before) (packed : Packed lines before.boxes) (short : logline.length < bufferSize)
    (appended : before.append logline = some after) : Packed (lines ++ [logline]) after.boxes := by
  obtain ⟨current, held⟩ := owned.current
  simp only [append, held] at appended
  split at appended
  next room =>
    cases appended
    rw [boxes_last, held] at packed
    have grown := packed.extend logline
    rw [BufferPtr.contents, ← FixedBuffer.contents_append _ _ room] at grown
    exact boxes_last _ ▸ grown
  next full =>
    have filled := packed.add logline
    split at appended <;> cases appended
    next next spare =>
      have empty : next.buffer.size_ = 0 := by
        rcases owned.next with ⟨buffer, same, empty⟩ | ⟨none, _⟩
        · cases spare.symm.trans same
          exact empty
        · cases spare.symm.trans none
      have room : logline.length < next.buffer.avail := by simpa [FixedBuffer.avail, empty] using short
      have start : next.buffer.contents = [] := FixedBuffer.contents_nil empty
      simpa [boxes, unwritten, held, BufferPtr.contents, FixedBuffer.contents_append _ _ room, start] using filled
    next spare =>
      have room : logline.length < (FixedBuffer.new : FixedBuffer α bufferSize).avail := short
      have start : (FixedBuffer.new : FixedBuffer α bufferSize).contents = [] := FixedBuffer.contents_nil rfl
      simpa [boxes, unwritten, held, BufferPtr.contents, FixedBuffer.contents_append _ _ room, start] using filled

private theorem swap_boxes {log : AsyncLogging α bufferSize} (owned : Owned log)
    (position : log.backend = .locking ∨ log.backend = .waiting) : log.swap.boxes = log.boxes ++ [[]] := by
  obtain ⟨empty, first, idle⟩ : log.buffersToWrite = [] ∧ Fresh log.newbuffer1 ∧ log.unwritten = [] := by
    have spares := owned.spares
    rcases position with locking | waiting
    · simp only [Spares, locking] at spares
      exact ⟨spares.1, spares.2.1, by simp only [unwritten, locking, spares.1]⟩
    · simp only [Spares, waiting] at spares
      exact ⟨spares.1, spares.2.1, by simp only [unwritten, waiting, spares.1]⟩
  rw [boxes, boxes, idle]
  simp [unwritten, swap, empty, fresh_contents first]

private theorem write_boxes {log : AsyncLogging α bufferSize} {next : Nat} {buffer : LargeBuffer α bufferSize}
    (position : log.backend = .writing next) (found : log.buffersToWrite[next]? = some (some buffer)) :
    boxes { log with output := log.output ++ [buffer.buffer.contents], backend := .writing (next + 1) } = log.boxes := by
  obtain ⟨inside, held⟩ := List.getElem?_eq_some_iff.mp found
  simp [boxes, unwritten, position, List.drop_eq_getElem_cons inside, held, BufferPtr.contents]

/-- No step takes a line apart. -/
theorem step_packed [OfNat α 0] {event : LogEvent α} {before after : AsyncLogging α bufferSize} {lines : List (List α)}
    (short : ∀ logline, event = .append logline → logline.length < bufferSize) (owned : Owned before)
    (packed : Packed lines before.boxes) (stepped : step event before = some after) :
    Packed (record event before lines) after.boxes := by
  have spares := owned.spares
  cases step_cases stepped with
  | append logline appended => exact append_packed owned packed (short logline rfl) appended
  | start position =>
    simp only [Spares, position] at spares
    simpa [record, boxes, unwritten, start, position, spares] using packed
  | stop => exact packed
  | test position =>
    have same : boxes { before with backend := if before.running_ then .locking else .returned } = before.boxes := by
      cases running : before.running_ <;> simp [boxes, unwritten, position]
    exact same ▸ packed
  | wait position => simpa [record, boxes, unwritten, position] using packed
  | swap position => exact swap_boxes owned (.inl position) ▸ packed.addEmpty
  | wake position => exact swap_boxes owned (.inr position) ▸ packed.addEmpty
  | write next buffer position found => exact write_boxes position found ▸ packed
  | recycle position recycled =>
    obtain ⟨first, second, _, _, enabled⟩ := recycle_enabled owned position
    cases enabled.symm.trans recycled
    simpa [record, boxes, unwritten, position] using packed

end AsyncLogging

namespace LogFile

private theorem durable_prefix (log : LogFile α) : log.durable <+: log.files.flatMap FileUtil.contents := by
  rw [durable, files, List.flatMap_append]
  apply List.prefix_append_right_inj _ |>.mpr
  cases log.file_ with
  | none => exact List.prefix_rfl
  | some file => simpa using List.take_prefix file.flushed file.contents

private theorem durable_flushed {log : LogFile α}
    (flushed : ∀ file, log.file_ = some file → file.flushed = file.contents.length) :
    log.durable = log.files.flatMap FileUtil.contents := by
  rw [durable, files, List.flatMap_append]
  cases opened : log.file_ with
  | none => rfl
  | some file => simp [flushed file opened]

private theorem flush_files {log after : LogFile α} (flushed : log.flush = some after) :
    after.files.map FileUtil.contents = log.files.map FileUtil.contents ∧
      ∃ file, after.file_ = some file ∧ file.flushed = file.contents.length := by
  obtain ⟨file, opened, rfl⟩ := Option.map_eq_some_iff.mp flushed
  exact ⟨by simp [files, opened, FileUtil.flush], _, rfl, rfl⟩

private theorem destroy_files (log : LogFile α) : log.destroy.files = log.files := by
  simp [destroy, files]

end LogFile

namespace LogPipeline
open AsyncLogging (Owned unwritten boxes)
open LogFile (files_of_open)

/-- What `threadFunc` knows of its `LogFile`: it is open until the end, holds what was
written, and is flushed between two iterations. -/
structure Filed (log : AsyncLogging α bufferSize) (file : LogFile α) : Prop where
  opened : log.backend ≠ .returned → ∃ current, file.file_ = some current
  closed : log.backend = .returned → file.file_ = none
  packed : Packed log.output (file.files.map FileUtil.contents)
  flushed : (∀ next, log.backend ≠ .writing next) → ∀ current, file.file_ = some current →
    current.flushed = current.contents.length

structure Piped (state : LogPipeline α bufferSize × List (List α)) : Prop where
  owned : Owned state.1.log
  packed : Packed state.2 state.1.log.boxes
  unstarted : state.1.log.backend = .idle → state.1.output = none ∧ state.1.log.output = []
  started : state.1.log.backend ≠ .idle → ∃ file, state.1.output = some file ∧ Filed state.1.log file

variable (strftime : Int → String)

theorem step_cases [OfNat α 0] {event : PipelineEvent α} {before after : LogPipeline α bufferSize}
    (stepped : step strftime event before = some after) : ∃ log output, AsyncLogging.step event.log before.log = some log ∧
      before.written strftime event = some output ∧ after = { before with log := log, output := output } := by
  obtain ⟨log, moved, rest⟩ := Option.bind_eq_some_iff.mp stepped
  obtain ⟨output, wrote, same⟩ := Option.map_eq_some_iff.mp rest
  exact ⟨log, output, moved, wrote, same.symm⟩

variable {strftime}

theorem new_filed {basename : String} {rollSize count now : Int} {log : AsyncLogging α bufferSize} (positive : 0 < now)
    (nothing : log.output = []) (running : log.backend ≠ .returned) :
    Filed log (.new strftime basename rollSize kFlushInterval kCheckEveryN count now : LogFile α) := by
  rw [LogFile.new, LogFile.rollFile, if_pos positive]
  refine ⟨fun _ => ⟨_, rfl⟩, fun ended => absurd ended running, ?_, ?_⟩
  · rw [nothing]
    exact Packed.empty
  · intro _ current same
    cases same
    rfl

theorem Filed.append {before after : AsyncLogging α bufferSize} {file next : LogFile α} (filed : Filed before file)
    {data : List α} {now later : Int} (writing : ∃ position, after.backend = .writing position)
    (output : after.output = before.output ++ [data]) (wrote : file.appendInlock strftime data now later = some next) :
    Filed after next := by
  obtain ⟨position, writing⟩ := writing
  obtain ⟨_, turn⟩ := LogFile.step_cases strftime
    (show (LogFile.machine strftime).step ⟨data, now, later⟩ file = some next from wrote)
  refine ⟨fun _ => ?_, fun ended => ?_, ?_, fun others => absurd writing (others position)⟩
  · cases turn with
    | stays _ _ _ same => exact ⟨_, same⟩
    | rolled _ _ _ fresh => exact ⟨_, fresh⟩
  · cases writing.symm.trans ended
  · rw [output]
    exact turn.whole filed.packed

theorem Filed.flush {before after : AsyncLogging α bufferSize} {file next : LogFile α} (filed : Filed before file)
    (output : after.output = before.output) (running : after.backend ≠ .returned) (flushed : file.flush = some next) :
    Filed after next := by
  obtain ⟨same, current, opened, whole⟩ := LogFile.flush_files flushed
  refine ⟨fun _ => ⟨current, opened⟩, fun ended => absurd ended running, ?_, ?_⟩
  · rw [output, same]
    exact filed.packed
  · intro _ other isOpen
    cases opened.symm.trans isOpen
    exact whole

theorem Filed.destroy {before after : AsyncLogging α bufferSize} {file : LogFile α} (filed : Filed before file)
    (output : after.output = before.output) (returned : after.backend = .returned) : Filed after file.destroy := by
  refine ⟨fun running => absurd returned running, fun _ => rfl, ?_, fun _ current opened => ?_⟩
  · rw [output, LogFile.destroy_files]
    exact filed.packed
  · cases opened

theorem Filed.keep {before after : AsyncLogging α bufferSize} {file : LogFile α} (filed : Filed before file)
    (output : after.output = before.output) (returned : before.backend = .returned ↔ after.backend = .returned)
    (writing : (∀ next, after.backend ≠ .writing next) → ∀ next, before.backend ≠ .writing next) : Filed after file := by
  refine ⟨fun running => filed.opened (fun ended => running (returned.mp ended)),
    fun ended => filed.closed (returned.mpr ended), output ▸ filed.packed, ?_⟩
  intro others
  exact filed.flushed (writing others)

private theorem start_piped [OfNat α 0] {count now : Int} {before after : LogPipeline α bufferSize} (positive : 0 < now)
    (unstarted : before.log.backend = .idle → before.output = none ∧ before.log.output = [])
    (stepped : step strftime (.start count now) before = some after) :
    after.log.backend ≠ .idle ∧ ∃ file, after.output = some file ∧ Filed after.log file := by
  obtain ⟨log, output, moved, wrote, rfl⟩ := step_cases strftime stepped
  cases AsyncLogging.step_cases moved with
  | start position =>
    refine ⟨by simp [AsyncLogging.start], _, (Option.some.inj wrote).symm, new_filed positive ?_ (by simp [AsyncLogging.start])⟩
    exact (unstarted position).2

theorem step_filed [OfNat α 0] {event : PipelineEvent α} {before after : LogPipeline α bufferSize} {file : LogFile α}
    (owned : Owned before.log) (held : before.output = some file) (filed : Filed before.log file)
    (started : before.log.backend ≠ .idle) (stepped : step strftime event before = some after) :
    after.log.backend ≠ .idle ∧ ∃ file, after.output = some file ∧ Filed after.log file := by
  obtain ⟨log, output, moved, wrote, rfl⟩ := step_cases strftime stepped
  cases event with
  | append logline =>
    cases AsyncLogging.step_cases moved with
    | append _ appended =>
      obtain ⟨_, enabled, change⟩ := AsyncLogging.append_appended logline owned
      cases enabled.symm.trans appended
      cases wrote
      exact ⟨change.backend ▸ started, file, held, filed.keep change.output (by rw [change.backend]) (by simp [change.backend])⟩
  | start count now =>
    cases AsyncLogging.step_cases moved with
    | start position => exact absurd position started
  | stop =>
    cases AsyncLogging.step_cases moved with
    | stop =>
      cases wrote
      exact ⟨started, file, held, filed.keep rfl Iff.rfl id⟩
  | test =>
    cases AsyncLogging.step_cases moved with
    | test position =>
      simp only [written, held, Option.bind_some] at wrote
      cases running : before.log.running_ with
      | true =>
        simp only [running, if_true, Option.some_inj] at wrote
        exact ⟨by simp, file, wrote.symm, filed.keep rfl (by simp [position]) (by simp [position])⟩
      | false =>
        simp only [running, Bool.false_eq_true, if_false, Option.map_eq_some_iff] at wrote
        obtain ⟨flushed, same, destroyed⟩ := wrote
        have between := filed.flush rfl (by simp [position]) same
        exact ⟨by simp, _, destroyed.symm, between.destroy rfl rfl⟩
  | lock =>
    cases AsyncLogging.step_cases moved with
    | wait position =>
      cases wrote
      exact ⟨by simp, file, held, filed.keep rfl (by simp [position]) (by simp [position])⟩
    | swap position =>
      cases wrote
      exact ⟨by simp [AsyncLogging.swap], file, held,
        filed.keep rfl (by simp [position, AsyncLogging.swap]) (by simp [AsyncLogging.swap])⟩
  | wake =>
    cases AsyncLogging.step_cases moved with
    | wake position =>
      cases wrote
      exact ⟨by simp [AsyncLogging.swap], file, held,
        filed.keep rfl (by simp [position, AsyncLogging.swap]) (by simp [AsyncLogging.swap])⟩
  | write now later =>
    cases AsyncLogging.step_cases moved with
    | write next buffer position found =>
      simp only [written, AsyncLogging.chunk, position, found, held, Option.bind_some, Option.map_eq_some_iff] at wrote
      obtain ⟨wider, appended, same⟩ := wrote
      exact ⟨by simp, wider, same.symm, filed.append ⟨_, rfl⟩ rfl appended⟩
  | recycle =>
    cases AsyncLogging.step_cases moved with
    | recycle position recycled =>
      obtain ⟨_, _, _, _, enabled⟩ := AsyncLogging.recycle_enabled owned position
      cases enabled.symm.trans recycled
      simp only [written, held, Option.bind_some, Option.map_eq_some_iff] at wrote
      obtain ⟨flushed, same, rest⟩ := wrote
      exact ⟨by simp, flushed, rest.symm, filed.flush rfl (by simp) same⟩

theorem step_idle [OfNat α 0] {event : PipelineEvent α} {before after : LogPipeline α bufferSize}
    (owned : Owned before.log) (idle : before.log.backend = .idle) (stepped : step strftime event before = some after) :
    (∃ count now, event = .start count now) ∨
      after.log.backend = .idle ∧ after.output = before.output ∧ after.log.output = before.log.output := by
  obtain ⟨log, output, moved, wrote, rfl⟩ := step_cases strftime stepped
  cases event with
  | append logline =>
    cases AsyncLogging.step_cases moved with
    | append _ appended =>
      obtain ⟨_, enabled, change⟩ := AsyncLogging.append_appended logline owned
      cases enabled.symm.trans appended
      cases wrote
      exact .inr ⟨change.backend.trans idle, rfl, change.output⟩
  | start count now => exact .inl ⟨count, now, rfl⟩
  | stop =>
    cases AsyncLogging.step_cases moved with
    | stop =>
      cases wrote
      exact .inr ⟨idle, rfl, rfl⟩
  | test | lock | wake | write | recycle => simp [PipelineEvent.log, AsyncLogging.step, idle] at moved

/-- A line fits an empty buffer, and the clock is past its epoch when the first file is made. -/
structure Regular (bufferSize : Nat) (event : PipelineEvent α) : Prop where
  short : ∀ logline, event = .append logline → logline.length < bufferSize
  positive : ∀ count now, event = .start count now → 0 < now

theorem step_piped [OfNat α 0] {event : PipelineEvent α} {before after : LogPipeline α bufferSize × List (List α)}
    (regular : Regular bufferSize event) (piped : Piped before) (stepped : (recorded strftime).step event before = some after) :
    Piped after := by
  obtain ⟨moved, recorded⟩ := Machine.watch_step.mp stepped
  have packed : Packed after.2 after.1.log.boxes := by
    obtain ⟨_, _, logged, _, same⟩ := step_cases strftime moved
    rw [recorded, same]
    refine AsyncLogging.step_packed (fun logline called => ?_) piped.owned piped.packed logged
    cases event <;> cases called
    exact regular.short _ rfl
  have owned : Owned after.1.log := by
    obtain ⟨_, _, logged, _, same⟩ := step_cases strftime moved
    rw [same]
    exact (AsyncLogging.step_change piped.owned logged).owned
  by_cases idle : before.1.log.backend = .idle
  · rcases step_idle piped.owned idle moved with ⟨count, now, rfl⟩ | ⟨still, output, kept⟩
    · obtain ⟨started, filed⟩ := start_piped (regular.positive count now rfl) piped.unstarted moved
      exact ⟨owned, packed, fun none => absurd none started, fun _ => filed⟩
    · obtain ⟨none, empty⟩ := piped.unstarted idle
      exact ⟨owned, packed, fun _ => ⟨output.trans none, kept.trans empty⟩, fun started => absurd still started⟩
  · obtain ⟨file, held, filed⟩ := piped.started idle
    obtain ⟨started, next⟩ := step_filed piped.owned held filed idle moved
    exact ⟨owned, packed, fun none => absurd none started, fun _ => next⟩

theorem new_piped [OfNat α 0] (basename : String) (rollSize : Int) :
    Piped ((new basename rollSize : LogPipeline α bufferSize), []) := by
  have empty : (FixedBuffer.new.bzero : FixedBuffer α bufferSize).contents = [] := FixedBuffer.contents_nil rfl
  refine ⟨AsyncLogging.new_owned, ?_, fun _ => ⟨rfl, rfl⟩, fun started => absurd rfl started⟩
  have boxes : AsyncLogging.boxes (AsyncLogging.new : AsyncLogging α bufferSize) = [[]] := by
    simp [AsyncLogging.boxes, unwritten, AsyncLogging.new, BufferPtr.contents, empty]
  exact boxes ▸ Packed.empty

theorem run_piped [OfNat α 0] {basename : String} {rollSize : Int} {events : List (PipelineEvent α)}
    {final : LogPipeline α bufferSize × List (List α)} (regular : ∀ event ∈ events, Regular bufferSize event)
    (reached : (recorded strftime).run events (new basename rollSize, []) = some final) : Piped final :=
  Machine.run_invariant (fun _ _ _ allowed held stepped => step_piped allowed held stepped) reached
    (Machine.along_of_forall regular _) (new_piped basename rollSize)

/-- The files hold whole buffers, and so whole lines: the first ones. -/
theorem Piped.parted {state : LogPipeline α bufferSize × List (List α)} (piped : Piped state) :
    ∃ written held, state.2 = written ++ held ∧ Packed written (state.1.files.map FileUtil.contents) ∧
      Packed held ((unwritten state.1.log ++ state.1.log.buffers_ ++ [state.1.log.currentBuffer_]).map BufferPtr.contents) := by
  obtain ⟨written, held, all, before, after⟩ := piped.packed.split
  refine ⟨written, held, all, ?_, after⟩
  by_cases idle : state.1.log.backend = .idle
  · obtain ⟨none, empty⟩ := piped.unstarted idle
    rw [empty] at before
    rw [files, none]
    exact before
  · obtain ⟨file, output, filed⟩ := piped.started idle
    rw [files, output]
    exact before.trans filed.packed

/-- Whatever the readings of the clock, the backend goes on. -/
theorem Piped.enabled [OfNat α 0] {state : LogPipeline α bufferSize × List (List α)} (piped : Piped state)
    (started : state.1.log.backend ≠ .idle) (running : state.1.log.backend ≠ .returned) (now later : Int) :
    ∃ event ∈ [PipelineEvent.test, .lock, .wake, .write now later, .recycle], (step strftime event state.1).isSome = true := by
  obtain ⟨file, output, filed⟩ := piped.started started
  obtain ⟨current, opened⟩ := filed.opened running
  obtain ⟨event, member, enabled⟩ := AsyncLogging.backend_enabled piped.owned started running
  obtain ⟨log, moved⟩ := Option.isSome_iff_exists.mp enabled
  have listed : ∃ next ∈ [PipelineEvent.test, .lock, .wake, .write now later, .recycle], next.log = event ∧
      (state.1.written strftime next).isSome = true := by
    simp only [List.mem_cons, List.not_mem_nil, or_false] at member
    rcases member with rfl | rfl | rfl | rfl | rfl
    · refine ⟨.test, by simp, rfl, ?_⟩
      simp only [written, output, LogFile.flush, opened, Option.bind_some, Option.map_some]
      split <;> rfl
    · exact ⟨.lock, by simp, rfl, rfl⟩
    · exact ⟨.wake, by simp, rfl, rfl⟩
    · cases AsyncLogging.step_cases moved with
      | write next buffer position found =>
        exact ⟨.write now later, by simp, rfl,
          by simp [written, AsyncLogging.chunk, position, found, output, LogFile.appendInlock, LogFile.write, opened]⟩
    · exact ⟨.recycle, by simp, rfl, by simp [written, output, LogFile.flush, opened]⟩
  obtain ⟨next, among, rfl, wrote⟩ := listed
  obtain ⟨files, wrote⟩ := Option.isSome_iff_exists.mp wrote
  exact ⟨next, among, by simp [step, moved, wrote]⟩

theorem Piped.append_enabled [OfNat α 0] {state : LogPipeline α bufferSize × List (List α)} (piped : Piped state)
    (logline : List α) : ∃ after, step strftime (.append logline) state.1 = some after := by
  obtain ⟨log, appended, _⟩ := AsyncLogging.append_appended logline piped.owned
  exact ⟨_, by rw [step, PipelineEvent.log, AsyncLogging.step, appended]; rfl⟩

/-- The buffers that the backend has not written, then those of the frontend. -/
def waiting (pipeline : LogPipeline α bufferSize) : List (BufferPtr α bufferSize) :=
  unwritten pipeline.log ++ pipeline.log.buffers_ ++ [pipeline.log.currentBuffer_]

/-- Between two iterations, and after the last one, all that was written is safe. -/
theorem Piped.durable {state : LogPipeline α bufferSize × List (List α)} (piped : Piped state)
    (between : ∀ next, state.1.log.backend ≠ .writing next) :
    state.1.durable = (state.1.files.map FileUtil.contents).flatten := by
  by_cases idle : state.1.log.backend = .idle
  · rw [LogPipeline.durable, files, (piped.unstarted idle).1]
    rfl
  · obtain ⟨file, output, filed⟩ := piped.started idle
    rw [LogPipeline.durable, files, output, ← List.flatMap_def]
    exact LogFile.durable_flushed (filed.flushed between)

/-- What `~Logger` hands on is shorter than the buffer of a stream. -/
private theorem record_short {localtime : Int → Tm} {statement : LogStatement} {record : List Char}
    (output : LogEffect.output record ∈ (statement.logger localtime).destroy) : record.length < kSmallBufferSize := by
  obtain ⟨used, bounded, _⟩ := Logger.log_bounded localtime statement.first statement.second statement.filename
    statement.line statement.level statement.cells statement.data_ statement.insertions
  obtain ⟨total, final, _⟩ := bounded.foldl_insert
    (Logger.suffix (statement.logger localtime).basename_ (statement.logger localtime).line_)
  have same : record = (statement.logger localtime).finish.stream_.contents := by
    rw [Logger.destroy] at output
    split at output <;> simpa using output
  rw [same]
  have length := final.length_contents
  have below := final.below
  exact length ▸ below

private theorem output_mem_destroy {logger : Logger} {record : List Char}
    (same : logger.finish.stream_.contents = record) : LogEffect.output record ∈ logger.destroy := by
  rw [Logger.destroy, same]
  split <;> simp

end LogPipeline
end Webserver
