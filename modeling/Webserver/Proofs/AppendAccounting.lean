import Webserver.FileAppend
import Webserver.Library.Tally

/-! What `FileUtil::append` hands to the stream, and what it counts: the bytes that a
failed call took are left out. -/

namespace Webserver
open Library

universe u

def Fwrite.progresses (result : Fwrite) : Bool := 0 < result.room || result.error != 0

namespace FileUtil
variable {α : Type u} {strerror : Int → String}

/-- Each call is handed the data from the first byte that was not accepted yet. -/
def Consecutive (data : List α) : Nat → List (Handed α) → Prop
  | _, [] => True
  | start, call :: calls => call.part = data.drop start ∧ call.n ≤ call.part.length ∧ Consecutive data (start + call.n) calls

/-- The stream was handed the data in order, and `writtenBytes_` grew by what it took. -/
structure Accounted (data : List α) (before after : FileUtil α) (loop : Loop α) : Prop where
  consecutive : Consecutive data 0 loop.calls
  contents : after.contents = before.contents ++ loop.calls.flatMap Handed.accepted
  writtenBytes_ : after.writtenBytes_ = before.writtenBytes_ + (loop.calls.flatMap Handed.accepted).length

/-- The first result with the error flag, if it comes before `length` bytes are taken, takes none. -/
def FailsEmpty (length : Nat) (results : List Fwrite) : Prop :=
  ∀ before failed after, results = before ++ failed :: after → (∀ result ∈ before, result.error = 0) → failed.error ≠ 0 →
    (before.map Fwrite.room).sum + failed.room < length → failed.room = 0

private theorem failsEmpty_short {length : Nat} {result : Fwrite} {results : List Fwrite} (failed : result.error ≠ 0)
    (short : result.room < length) : FailsEmpty length (result :: results) ↔ result.room = 0 := by
  constructor
  · intro empty
    exact empty [] result results rfl (by simp) failed (by simpa using short)
  · rintro empty (_ | ⟨first, before⟩) other after same silent again _
    · cases same
      exact empty
    · cases same
      exact absurd (silent result (by simp)) failed

private theorem failsEmpty_whole {length : Nat} {result : Fwrite} {results : List Fwrite} (whole : length ≤ result.room) :
    FailsEmpty length (result :: results) := by
  rintro (_ | ⟨first, before⟩) failed after same _ _ below
  · cases same
    simp only [List.map_nil, List.sum_nil] at below
    omega
  · cases same
    simp only [List.map_cons, List.sum_cons] at below
    omega

private theorem failsEmpty_silent {length : Nat} {result : Fwrite} {results : List Fwrite} (silent : result.error = 0)
    (short : result.room ≤ length) : FailsEmpty length (result :: results) ↔ FailsEmpty (length - result.room) results := by
  constructor
  · intro empty before failed after same quiet error below
    refine empty (result :: before) failed after (by rw [same]; rfl) ?_ error ?_
    · intro other member
      rcases List.mem_cons.mp member with rfl | inside
      · exact silent
      · exact quiet other inside
    · simp only [List.map_cons, List.sum_cons]
      omega
  · rintro empty (_ | ⟨first, before⟩) failed after same quiet error below
    · cases same
      exact absurd silent error
    · cases same
      refine empty before failed after rfl (fun other inside => quiet other (by simp [inside])) error ?_
      simp only [List.map_cons, List.sum_cons] at below
      omega

private theorem failsEmpty_zero (results : List Fwrite) : FailsEmpty 0 results :=
  fun _ _ _ _ _ _ below => absurd below (Nat.not_lt_zero _)

private theorem failsEmpty_on {length : Nat} {result : Fwrite} {results : List Fwrite}
    (on : min result.room length = length ∨ result.error = 0) :
    FailsEmpty length (result :: results) ↔ FailsEmpty (length - min result.room length) results := by
  by_cases whole : length ≤ result.room
  · rw [Nat.min_eq_right whole, Nat.sub_self]
    exact iff_of_true (failsEmpty_whole whole) (failsEmpty_zero _)
  · have short : min result.room length = result.room := by omega
    rw [short] at on ⊢
    exact failsEmpty_silent (on.resolve_left (by omega)) (by omega)

/-- What the loop hands to the stream from a value of `writen` on, and when `writen` is
what the stream has taken. -/
theorem appendLoop_spec {data : List α} {results : List Fwrite} {writen : Nat} {loop : Loop α} (inside : writen ≤ data.length)
    (ended : appendLoop strerror data writen results = some loop) :
    Consecutive data writen loop.calls ∧
    (loop.writen = writen + (loop.calls.flatMap Handed.accepted).length ↔ FailsEmpty (data.length - writen) results) := by
  induction results generalizing writen loop with
  | nil =>
    simp only [appendLoop] at ended
    split at ended <;> cases ended
    next full =>
      refine ⟨trivial, iff_of_true rfl ?_⟩
      rw [full, Nat.sub_self]
      exact failsEmpty_zero []
  | cons result results ih =>
    simp only [appendLoop] at ended
    split at ended
    next full =>
      cases ended
      refine ⟨trivial, iff_of_true rfl ?_⟩
      rw [full, Nat.sub_self]
      exact failsEmpty_zero _
    next open_ =>
      have length : (data.drop writen).length = data.length - writen := List.length_drop
      split at ended
      next failure =>
        cases ended
        rw [length] at failure ⊢
        have short : result.room < data.length - writen := by omega
        refine ⟨⟨rfl, by rw [length]; exact Nat.min_le_right _ _, trivial⟩, ?_⟩
        rw [failsEmpty_short failure.2 short]
        simp only [List.flatMap_cons, List.flatMap_nil, List.append_nil, Handed.accepted, List.length_take, length]
        omega
      next success =>
        obtain ⟨rest, later, rfl⟩ := Option.map_eq_some_iff.mp ended
        rw [length] at success later ⊢
        obtain ⟨consecutive, counted⟩ := ih (by omega) later
        have taken : ((data.drop writen).take (min result.room (data.length - writen))).length =
            min result.room (data.length - writen) := by
          rw [List.length_take, length]
          omega
        refine ⟨⟨rfl, by rw [length]; exact Nat.min_le_right _ _, consecutive⟩, ?_⟩
        have on : min result.room (data.length - writen) = data.length - writen ∨ result.error = 0 := by
          by_contra stops
          exact success (not_or.mp stops)
        simp only [List.flatMap_cons, List.length_append, Handed.accepted, taken]
        rw [failsEmpty_on on, ← Nat.sub_add_eq, ← Nat.add_assoc]
        exact counted

private theorem appendLoop_open {data : List α} {results : List Fwrite} {writen : Nat} (inside : writen ≤ data.length)
    (more : appendLoop strerror data writen results = none) : results.countP Fwrite.progresses < data.length - writen := by
  induction results generalizing writen with
  | nil =>
    simp only [appendLoop] at more
    split at more
    next => cases more
    next open_ =>
      rw [List.countP_nil]
      omega
  | cons result results ih =>
    simp only [appendLoop, List.length_drop] at more
    split at more
    next => cases more
    next open_ =>
      split at more
      next => cases more
      next success =>
        have later := ih (by omega) (Option.map_eq_none_iff.mp more)
        rw [List.countP_cons]
        by_cases error : result.error = 0
        · simp only [Fwrite.progresses, error, bne_self_eq_false, Bool.or_false, decide_eq_true_eq]
          split <;> omega
        · have whole : min result.room (data.length - writen) = data.length - writen := by
            by_contra short
            exact success ⟨short, error⟩
          rw [whole] at later
          omega

theorem appendWith_whole (file : FileUtil α) (data : List α) {result : Fwrite} (whole : data.length ≤ result.room)
    (results : List Fwrite) : ∃ loop, file.appendWith strerror (result :: results) data = some (file.append data, loop) := by
  have ended : ∀ results, appendLoop strerror data data.length results = some ⟨data.length, [], []⟩ := by
    intro results
    cases results <;> simp [appendLoop]
  by_cases empty : data.length = 0
  · obtain rfl := List.length_eq_zero_iff.mp empty
    exact ⟨⟨0, [], []⟩, by simp [appendWith, appendLoop, append]⟩
  · refine ⟨⟨data.length, [⟨data, data.length⟩], []⟩, ?_⟩
    simp [appendWith, appendLoop, append, Ne.symm empty, Nat.min_eq_right whole, ended, Handed.accepted]

/-- Results that bring the loop on come often enough to end it. -/
private theorem progresses_unbounded {results : Nat → Fwrite}
    (progress : ∀ call, ∃ later ≥ call, (results later).progresses = true)
    (bound : Nat) : ∃ calls, bound ≤ ((List.range calls).map results).countP Fwrite.progresses := by
  induction bound with
  | zero => exact ⟨0, Nat.zero_le _⟩
  | succ bound ih =>
    obtain ⟨calls, reached⟩ := ih
    obtain ⟨later, after, moves⟩ := progress calls
    refine ⟨later + 1, ?_⟩
    have earlier : ((List.range calls).map results).countP Fwrite.progresses ≤
        ((List.range later).map results).countP Fwrite.progresses :=
      ((List.range_sublist.mpr after).map results).countP_le
    rw [List.range_succ, List.map_append, List.countP_append]
    simp only [List.map_cons, List.map_nil, List.countP_cons_of_pos moves, List.countP_nil]
    omega

/-- With results that bring it on again and again, `append` returns. It then has counted
what the stream took if and only if no call failed after it had taken a part. -/
theorem append_accounts_iff (strerror : Int → String) (results : Nat → Fwrite)
    (progress : ∀ call, ∃ later ≥ call, (results later).progresses = true) (data : List α) (before : FileUtil α) :
    (∃ calls, (before.appendWith strerror ((List.range calls).map results) data).isSome = true) ∧
    ∀ calls after loop, before.appendWith strerror ((List.range calls).map results) data = some (after, loop) →
      (Accounted data before after loop ↔ FailsEmpty data.length ((List.range calls).map results)) := by
  constructor
  · obtain ⟨calls, enough⟩ := progresses_unbounded progress data.length
    refine ⟨calls, ?_⟩
    rw [appendWith, Option.isSome_map, Option.isSome_iff_ne_none]
    intro more
    have fewer := appendLoop_open (Nat.zero_le _) more
    omega
  · intro calls after loop returned
    obtain ⟨_, ended, same⟩ := Option.map_eq_some_iff.mp returned
    cases same
    obtain ⟨consecutive, counted⟩ := appendLoop_spec (Nat.zero_le _) ended
    rw [Nat.sub_zero] at counted
    rw [← counted]
    constructor
    · intro accounted
      have bytes := accounted.writtenBytes_
      simp only at bytes
      omega
    · intro exact_
      refine ⟨consecutive, rfl, ?_⟩
      simp only
      omega

/-- One short call without an error, then the rest. -/
theorem append_accounts_short : ∃ after loop, (FileUtil.new "log" 0 : FileUtil Nat).appendWith (fun _ => "EIO")
      ((List.range 2).map fun _ => ⟨2, 0⟩) [1, 2, 3] = some (after, loop) ∧ Accounted [1, 2, 3] (.new "log" 0) after loop := by
  refine ⟨_, _, rfl, ((append_accounts_iff (fun _ => "EIO") (fun _ => ⟨2, 0⟩) (fun call => ⟨call, Nat.le_refl _, rfl⟩)
    [1, 2, 3] (.new "log" 0)).2 2 _ _ rfl).mpr ?_⟩
  intro first failed rest same _ error
  have member : failed ∈ (List.range 2).map fun _ => (⟨2, 0⟩ : Fwrite) := by rw [same]; simp
  obtain ⟨_, _, rfl⟩ := List.mem_map.mp member
  exact absurd rfl error

/-- The stream takes two bytes of four and fails: none of them is counted. -/
theorem failed_part_uncounted : ∃ after loop, (FileUtil.new "log" 0 : FileUtil Nat).appendWith (fun _ => "EIO")
      [⟨2, 5⟩] [1, 2, 3, 4] = some (after, loop) ∧ after.contents = [1, 2] ∧ after.writtenBytes_ = 0 ∧
    ¬Accounted [1, 2, 3, 4] (.new "log" 0) after loop := by
  refine ⟨_, _, rfl, by decide, by decide, fun accounted => ?_⟩
  exact absurd accounted.writtenBytes_ (by decide)

end FileUtil
end Webserver
