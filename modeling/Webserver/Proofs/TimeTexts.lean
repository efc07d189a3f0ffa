import Webserver.Logger
import Webserver.Proofs.StreamContents

/-! The texts of an instant: the time in front of a log record, and those of
`Timestamp`. The first is cut after the minutes, and one of the others is not computed
from the seconds. -/

namespace Webserver
open Library

namespace Logger
variable (localtime : Int → Tm)

/-- What `formatTime` writes at the start of a record. -/
def stamp (cells : Nat → Char) (data_ : Nat) (now : Timestamp) : List Char :=
  (formatTime localtime now (.new cells data_)).contents

/-- The texts of an instant agree, and keep it apart from the others. -/
structure Agrees (cells : Nat → Char) (data_ : Nat) (now : Timestamp) : Prop where
  carried : ∃ separator rest, stamp localtime cells data_ now =
    now.toFormattedString localtime false ++ separator ++ zeroPadded 6 now.microseconds ++ rest
  distinct : ∀ other : Timestamp, other.toFormattedString localtime true ≠ now.toFormattedString localtime true →
    stamp localtime cells data_ other ≠ stamp localtime cells data_ now
  toString_ : now.toString localtime = now.toFormattedString localtime false

/-- The stamp has the first 17 characters of the formatted time, up to the colon in
front of the seconds, and seven for the microseconds. -/
private theorem stamp_eq (cells : Nat → Char) (data_ : Nat) (now : Timestamp) :
    stamp localtime cells data_ now =
      (formatTm (localtime now.secondsSinceEpoch)).take 17 ++ (zeroPadded 6 now.microseconds ++ [' ']).take 7 := by
  have size : kSmallBufferSize = 4000 := rfl
  have long := length_formatTm (localtime now.secondsSinceEpoch)
  have wide := length_zeroPadded 6 now.microseconds
  have timer : (Insertion.general (timer localtime now)).text = (formatTm (localtime now.secondsSinceEpoch)).take 17 := by
    simp only [Insertion.text, Logger.timer, printed, snprintf]
    rw [List.take_append_of_le_length (by rw [List.length_take]; omega), List.take_take]
    rfl
  have micros : (Insertion.general (micros now)).text = (zeroPadded 6 now.microseconds ++ [' ']).take 7 := by
    simp only [Insertion.text, Logger.micros, printed, snprintf]
    rw [List.take_append_of_le_length (by rw [List.length_take, List.length_append, List.length_singleton]; omega),
      List.take_take]
    rfl
  obtain ⟨_, _, _, contents⟩ := (LogStream.new_bounded cells data_).foldl_insert
    [.general (Logger.timer localtime now), .general (Logger.micros now)]
  have empty : (LogStream.new cells data_).contents = [] := rfl
  have seventeen : (Logger.timer localtime now).len_ = 17 := rfl
  have seven : (Logger.micros now).len_ = 7 := rfl
  rw [Insertion.kept_general (by omega), Insertion.kept_general (by omega), Insertion.kept, empty, List.nil_append] at contents
  simp only [List.foldl_cons, List.foldl_nil, List.flatMap_cons, List.flatMap_nil, List.append_nil, timer, micros] at contents
  exact contents

private theorem length_microseconds {now : Timestamp} (positive : 0 ≤ now.microSecondsSinceEpoch_) :
    (zeroPadded 6 now.microseconds).length = 6 := by
  have million : Timestamp.kMicroSecondsPerSecond = 1000000 := rfl
  have below := Int.tmod_lt_of_pos now.microSecondsSinceEpoch_ (by decide : 0 < Timestamp.kMicroSecondsPerSecond)
  have above : 0 ≤ now.microseconds := Int.tmod_nonneg _ positive
  have small : now.microseconds.natAbs < Nat.pow 10 6 := by
    have power : Nat.pow 10 6 = 1000000 := rfl
    unfold Timestamp.microseconds at above ⊢
    omega
  have digits := (Nat.length_toDigits_le_iff (by decide : 1 < 10) (by decide : 0 < 6)).mpr small
  rw [length_zeroPadded, decimal, if_neg (by omega), List.nil_append]
  omega

/-- Two instants have one stamp when their minutes and their microseconds have the same text. -/
theorem stamp_eq_iff (cells : Nat → Char) (data_ : Nat) {first second : Timestamp} (positive : 0 ≤ first.microSecondsSinceEpoch_)
    (later : 0 ≤ second.microSecondsSinceEpoch_) : stamp localtime cells data_ first = stamp localtime cells data_ second ↔
      (formatTm (localtime first.secondsSinceEpoch)).take 17 = (formatTm (localtime second.secondsSinceEpoch)).take 17 ∧
      zeroPadded 6 first.microseconds = zeroPadded 6 second.microseconds := by
  have whole : ∀ {now : Timestamp}, 0 ≤ now.microSecondsSinceEpoch_ →
      (zeroPadded 6 now.microseconds ++ [' ']).take 7 = zeroPadded 6 now.microseconds ++ [' '] := by
    intro now after
    apply List.take_of_length_le
    have seven := length_microseconds after
    rw [List.length_append, List.length_singleton]
    omega
  have cut : ∀ now : Timestamp, ((formatTm (localtime now.secondsSinceEpoch)).take 17).length = 17 := by
    intro now
    have long := length_formatTm (localtime now.secondsSinceEpoch)
    rw [List.length_take]
    omega
  rw [stamp_eq, stamp_eq, whole positive, whole later]
  constructor
  · intro same
    obtain ⟨minutes, rest⟩ := List.append_inj same ((cut first).trans (cut second).symm)
    exact ⟨minutes, List.append_cancel_right rest⟩
  · intro ⟨minutes, micros⟩
    rw [minutes, micros]

/-- There is no room for the seconds and all of the microseconds: for no time zone and
no instant do the texts agree. -/
theorem times_never_agree (cells : Nat → Char) (data_ : Nat) (now : Timestamp) : ¬Agrees localtime cells data_ now := by
  intro agrees
  obtain ⟨separator, rest, carried⟩ := agrees.carried
  have long := length_formatTm (localtime now.secondsSinceEpoch)
  have wide := length_zeroPadded 6 now.microseconds
  have lengths := congrArg List.length carried
  simp only [stamp_eq, Timestamp.toFormattedString, snprintf, Bool.false_eq_true, if_false, List.length_append,
    List.length_take, List.length_singleton] at lengths
  omega

def january (seconds : Int) : Tm :=
  ⟨70, 0, 1 + seconds.tdiv 86400, (seconds.tdiv 3600).tmod 24, (seconds.tdiv 60).tmod 60, seconds.tmod 60⟩

/-- Two instants that are a second apart have one stamp, and `toString` takes the
microseconds for seconds. -/
theorem seconds_lost :
    (⟨0⟩ : Timestamp).toFormattedString january true ≠ (⟨1000000⟩ : Timestamp).toFormattedString january true ∧
    stamp january (fun _ => ' ') 0 ⟨0⟩ = stamp january (fun _ => ' ') 0 ⟨1000000⟩ ∧
    (⟨1000000⟩ : Timestamp).toString january ≠ (⟨1000000⟩ : Timestamp).toFormattedString january false := by
  rw [stamp_eq, stamp_eq]
  decide +kernel

end Logger
end Webserver
