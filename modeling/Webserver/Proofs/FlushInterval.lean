import Webserver.LogFile

/-! How long an appended chunk can wait for the flush that makes it durable: no longer
than `flushInterval_`, as seen by the next call of `append`. -/

namespace Webserver
open Library

universe u

namespace LogFile
variable {α : Type u} {strftime : Int → String} {log : LogFile α} {interval : Int} {done : List (Append α)} {clock : Int}

private theorem ordered_drop {first rest : List Int} (ordered : (clock :: (first ++ rest)).Pairwise (· ≤ ·)) :
    (first.getLast?.getD clock :: rest).Pairwise (· ≤ ·) := by
  rcases first.eq_nil_or_concat with rfl | ⟨init, last, rfl⟩
  · exact ordered
  · rw [List.concat_eq_append, List.append_assoc] at ordered
    rw [List.concat_eq_append, List.getLast?_concat, Option.getD_some]
    exact ordered.sublist ((List.sublist_append_right init (last :: rest)).trans (List.sublist_cons_self clock _))

/-- What is not durable was appended since the last flush, which was not after `clock`. -/
structure Timely (interval : Int) (log : LogFile α) (done : List (Append α)) (clock : Int) : Prop where
  flushInterval_ : log.flushInterval_ = interval
  past : ∀ file ∈ log.file_, log.lastFlush_ ≤ clock
  bounded : ∀ file ∈ log.file_, file.flushed ≤ file.contents.length
  whole : log.files.flatMap FileUtil.contents = done.flatMap Append.data
  pending : ∃ old recent, done = old ++ recent ∧ log.durable = old.flatMap Append.data ∧
    ∀ call ∈ recent, log.lastFlush_ ≤ call.now

/-- What is not durable was appended at most `interval` before `now`. -/
def Recent (interval now : Int) (log : LogFile α) (done : List (Append α)) : Prop :=
  ∃ old recent, done = old ++ recent ∧ log.durable = old.flatMap Append.data ∧ ∀ call ∈ recent, now - call.now ≤ interval

namespace Timely

theorem of_durable {moved : LogFile α} (timely : Timely interval log done clock)
    (config : moved.flushInterval_ = log.flushInterval_) (past : moved.lastFlush_ ≤ clock)
    (bounded : ∀ file ∈ moved.file_, file.flushed ≤ file.contents.length)
    (same : moved.files.flatMap FileUtil.contents = log.files.flatMap FileUtil.contents)
    (safe : moved.durable = log.files.flatMap FileUtil.contents) : Timely interval moved done clock := by
  refine ⟨config.trans timely.flushInterval_, fun _ _ => past, bounded, same.trans timely.whole, done, [], ?_, ?_, ?_⟩
  · exact (List.append_nil done).symm
  · exact safe.trans timely.whole
  · intro call member
    cases member

theorem later {time : Int} (timely : Timely interval log done clock) (later : clock ≤ time) :
    Timely interval log done time :=
  ⟨timely.flushInterval_, fun file opened => Int.le_trans (timely.past file opened) later, timely.bounded, timely.whole,
    timely.pending⟩

theorem setCount (timely : Timely interval log done clock) (count : Int) :
    Timely interval { log with count_ := count } done clock :=
  ⟨timely.flushInterval_, timely.past, timely.bounded, timely.whole, timely.pending⟩

theorem rollFile (timely : Timely interval log done clock) {now : Int} (later : clock ≤ now) :
    Timely interval (log.rollFile strftime now).2 done now := by
  rw [LogFile.rollFile]
  split
  · refine (timely.later later).of_durable rfl (Int.le_refl now) ?_ ?_ ?_
    · intro file same
      cases Option.mem_some.mp same
      exact Nat.zero_le _
    · simp [files, FileUtil.new]
    · simp [durable, FileUtil.new]
  · exact timely.later later

theorem files_flush (log : LogFile α) : ({ log with file_ := log.file_.map FileUtil.flush } : LogFile α).files.flatMap
    FileUtil.contents = log.files.flatMap FileUtil.contents := by
  cases same : log.file_ <;> simp [files, same, FileUtil.flush]

theorem durable_flush (log : LogFile α) :
    ({ log with file_ := log.file_.map FileUtil.flush } : LogFile α).durable = log.files.flatMap FileUtil.contents := by
  cases same : log.file_ <;> simp [durable, files, same, FileUtil.flush]

theorem flushFile (timely : Timely interval log done clock) {time : Int} (past : time ≤ clock) :
    Timely interval { log with lastFlush_ := time, file_ := log.file_.map FileUtil.flush } done clock := by
  refine timely.of_durable rfl past ?_ (files_flush log) (durable_flush log)
  intro file member
  obtain ⟨old, _, rfl⟩ := Option.map_eq_some_iff.mp member
  exact Nat.le_refl _

theorem flush {flushed : LogFile α} (timely : Timely interval log done clock) (called : log.flush = some flushed) :
    Timely interval flushed done clock := by
  obtain ⟨file, opened, rfl⟩ := Option.map_eq_some_iff.mp called
  have flushed := timely.flushFile (timely.past file opened)
  rwa [opened] at flushed

/-- The new chunk waits, and no other does longer than before. -/
theorem write (timely : Timely interval log done clock) {call : Append α} (later : clock ≤ call.now) {file : FileUtil α}
    {written : LogFile α} (wrote : log.write call.data = some (file, written)) :
    Timely interval written (done ++ [call]) call.now := by
  obtain ⟨old, opened, same⟩ := Option.map_eq_some_iff.mp wrote
  cases same
  have bound := timely.bounded old opened
  have past := Int.le_trans (timely.past old opened) later
  obtain ⟨before, recent, split, safe, waits⟩ := timely.pending
  have whole := timely.whole
  simp only [files, durable, opened, Option.toList_some, List.flatMap_append, List.flatMap_cons, List.flatMap_nil,
    List.append_nil] at whole safe
  refine ⟨timely.flushInterval_, fun _ _ => past, ?_, ?_, before, recent ++ [call], ?_, ?_, ?_⟩
  · intro file member
    cases Option.mem_some.mp member
    simp only [FileUtil.append, List.length_append]
    omega
  · simp [files, FileUtil.append, ← whole]
  · rw [split, List.append_assoc]
  · simp only [durable, FileUtil.append, Option.toList_some, List.flatMap_cons, List.flatMap_nil, List.append_nil]
    rwa [List.take_append_of_le_length bound]
  · intro other member
    rcases List.mem_append.mp member with waiting | new
    · exact waits other waiting
    · rw [List.mem_singleton.mp new]
      exact past

theorem checkRoll (timely : Timely interval log done clock) {now later : Int} (ordered : clock ≤ later) (file : FileUtil α) :
    Timely interval (log.checkRoll strftime now later file) done later := by
  rw [LogFile.checkRoll]
  dsimp only
  split
  · exact (timely.setCount _).rollFile ordered
  · exact (timely.setCount _).later ordered

/-- The flush comes when the last one is longer ago than the interval. -/
theorem checkFlush (timely : Timely interval log done clock) {now : Int} (ordered : now ≤ clock) :
    Timely interval (log.checkFlush now) done clock ∧ Recent interval now (log.checkFlush now) done := by
  rw [LogFile.checkFlush]
  split
  next due =>
    refine ⟨timely.flushFile ordered, done, [], (List.append_nil done).symm, ?_, fun call member => by cases member⟩
    exact (durable_flush log).trans timely.whole
  next early =>
    obtain ⟨old, recent, split, safe, waits⟩ := timely.pending
    refine ⟨timely, old, recent, split, safe, ?_⟩
    intro call member
    have since := waits call member
    have same := timely.flushInterval_
    omega

theorem appendInlock (timely : Timely interval log done clock) {call : Append α} {after : LogFile α}
    (first : clock ≤ call.now) (second : call.now ≤ call.later)
    (appended : log.appendInlock strftime call.data call.now call.later = some after) :
    Timely interval after (done ++ [call]) call.later ∧ Recent interval call.now after (done ++ [call]) := by
  obtain ⟨⟨file, written⟩, wrote, same⟩ := Option.bind_eq_some_iff.mp appended
  cases same
  exact ((timely.write first wrote).checkRoll second file).checkFlush second

theorem calls_step (timely : Timely interval log done clock) {event : Call α} {after : LogFile α}
    (ordered : (clock :: event.readings).Pairwise (· ≤ ·)) (stepped : (calls strftime).step event log = some after) :
    Timely interval after (done ++ event.appended) (event.readings.getLast?.getD clock) := by
  cases event with
  | append call =>
    simp only [Call.readings, List.pairwise_cons, List.mem_cons, List.not_mem_nil, or_false, forall_eq_or_imp, forall_eq]
      at ordered
    exact (timely.appendInlock ordered.1.1 ordered.2.1 stepped).1
  | flush =>
    have flushed := timely.flush stepped
    rwa [← List.append_nil done] at flushed
  | rollFile now =>
    cases stepped
    have rolled := @Timely.rollFile _ strftime _ _ _ _ timely _ (List.rel_of_pairwise_cons ordered (List.mem_singleton_self now))
    rwa [← List.append_nil done] at rolled

/-- Up to the readings `rest` that are still to come. -/
theorem calls_run (timely : Timely interval log done clock) {events : List (Call α)}
    {rest : List Int} {final : LogFile α} (ordered : (clock :: (events.flatMap Call.readings ++ rest)).Pairwise (· ≤ ·))
    (reached : (calls strftime).run events log = some final) :
    ∃ time, Timely interval final (done ++ events.flatMap Call.appended) time ∧ (time :: rest).Pairwise (· ≤ ·) := by
  induction events generalizing log done clock with
  | nil =>
    cases reached
    exact ⟨clock, by simpa using timely, ordered⟩
  | cons event events ih =>
    obtain ⟨next, stepped, later⟩ := (Machine.run_cons _ _ _ _ _).mp reached
    rw [List.flatMap_cons, List.append_assoc] at ordered
    have now := ordered.sublist ((List.sublist_append_left event.readings _).cons_cons clock)
    obtain ⟨time, still, after⟩ := ih (timely.calls_step now stepped) (ordered_drop ordered) later
    exact ⟨time, by simpa using still, after⟩

theorem new (basename : String) (rollsize interval checkEveryN count start : Int) :
    Timely interval (LogFile.new strftime basename rollsize interval checkEveryN count start : LogFile α) [] start := by
  have closed : Timely interval (⟨basename, rollsize, interval, checkEveryN, count, 0, 0, 0, none, []⟩ : LogFile α) [] start := by
    refine ⟨rfl, ?_, ?_, rfl, [], [], rfl, rfl, ?_⟩
    · intro file opened
      cases opened
    · intro file opened
      cases opened
    · intro call member
      cases member
  exact closed.rollFile (Int.le_refl start)

end Timely

end LogFile
end Webserver
