import Webserver.Logger
import Webserver.Proofs.StreamContents

/-! How a log record ends. The suffix goes piece by piece through the same bounded
stream as the message, and near its end some of the pieces do not fit. -/

namespace Webserver
open Library

namespace Logger

/-- The bytes end in a newline after the insertions that fit after `used` bytes. -/
def Ends (before : List Char) (used : Nat) (insertions : List Insertion) : Prop :=
  (before ++ (Insertion.kept used insertions).flatMap Insertion.text).getLast? = some '\n'

variable {before : List Char} {used : Nat}

private theorem ends_fit (insertion : Insertion) {insertions : List Insertion}
    (room : insertion.fits (kSmallBufferSize - used) = true) :
    Ends before used (insertion :: insertions) ↔ Ends (before ++ insertion.text) (used + insertion.text.length) insertions := by
  rw [Ends, Ends, Insertion.kept, if_pos room, List.flatMap_cons, List.append_assoc]

private theorem ends_full (insertion : Insertion) {insertions : List Insertion}
    (full : insertion.fits (kSmallBufferSize - used) = false) :
    Ends before used (insertion :: insertions) ↔ Ends before used insertions := by
  rw [Ends, Ends, Insertion.kept, if_neg (by simp [full])]

private theorem ends_newline : Ends before used [.char '\n'] ↔
    1 < kSmallBufferSize - used ∨ before.getLast? = some '\n' := by
  by_cases room : 1 < kSmallBufferSize - used
  · rw [ends_fit (.char '\n') (decide_eq_true room)]
    simp [Ends, Insertion.kept, Insertion.text, room]
  · rw [ends_full (.char '\n') (decide_eq_false room)]
    simp [Ends, Insertion.kept, room]

private theorem ends_line (line : IntegralType.int.Value) : Ends before used [.integer .int line, .char '\n'] ↔
    1 < kSmallBufferSize - used ∨ before.getLast? = some '\n' := by
  have length := length_decimal_le (by decide) (LogStream.value_small line)
  have limit : LogStream.kMaxNumberSize = 32 := rfl
  by_cases room : LogStream.kMaxNumberSize ≤ kSmallBufferSize - used
  · rw [ends_fit (.integer .int line) (decide_eq_true room), ends_newline]
    exact iff_of_true (.inl (by simp only [Insertion.text]; omega)) (.inl (by omega))
  · rw [ends_full (.integer .int line) (decide_eq_false room), ends_newline]

private theorem ends_colon (line : IntegralType.int.Value) : Ends before used [.char ':', .integer .int line, .char '\n'] ↔
    3 ≤ kSmallBufferSize - used ∨ kSmallBufferSize - used ≤ 1 ∧ before.getLast? = some '\n' := by
  by_cases room : 1 < kSmallBufferSize - used
  · have colon : (before ++ [':']).getLast? ≠ some '\n' := by simp
    rw [ends_fit (.char ':') (decide_eq_true room), ends_line]
    simp only [Insertion.text, List.length_singleton, colon, or_false]
    constructor
    · intro more
      exact .inl (by omega)
    · rintro (more | ⟨few, _⟩) <;> omega
  · have few : kSmallBufferSize - used ≤ 1 := by omega
    rw [ends_full (.char ':') (decide_eq_false room), ends_line]
    simp only [few, true_and]
    apply or_congr_left
    omega

private theorem ends_name (line : IntegralType.int.Value) (name : GeneralTemplate) (whole : name.len_ = name.data_.length)
    (below : used < kSmallBufferSize) :
    Ends before used [.general name, .char ':', .integer .int line, .char '\n'] ↔
    (3 ≤ kSmallBufferSize - used ∧ kSmallBufferSize - used ≠ name.len_ + 1 ∧ kSmallBufferSize - used ≠ name.len_ + 2) ∨
      kSmallBufferSize - used = name.len_ + 1 ∧ name.data_.getLast? = some '\n' ∨
      kSmallBufferSize - used ≤ 1 ∧ before.getLast? = some '\n' := by
  have text : (Insertion.general name).text = name.data_ := by rw [Insertion.text, whole, List.take_length]
  by_cases room : (Insertion.general name).text.length < kSmallBufferSize - used
  · rw [ends_fit (.general name) (decide_eq_true room), ends_colon]
    rw [text] at room ⊢
    rcases List.eq_nil_or_concat name.data_ with empty | ⟨front, last, same⟩
    · have none : name.len_ = 0 := by rw [whole, empty]; rfl
      rw [empty, none, List.append_nil]
      simp only [List.length_nil, List.getLast?_nil, reduceCtorEq, and_false, false_or, Nat.add_zero]
      apply or_congr_left
      omega
    · have ending : (before ++ name.data_).getLast? = name.data_.getLast? := by simp [same]
      have some : 0 < name.data_.length := by rw [same]; simp
      rw [ending]
      constructor
      · rintro (more | ⟨few, newline⟩)
        · exact .inl (by omega)
        · exact .inr (.inl ⟨by omega, newline⟩)
      · rintro (more | ⟨last, newline⟩ | ⟨few, _⟩)
        · exact .inl (by omega)
        · exact .inr ⟨by omega, newline⟩
        · omega
  · rw [ends_full (.general name) (decide_eq_false room), ends_colon]
    rw [text] at room
    have beyond : kSmallBufferSize - used ≠ name.len_ + 1 := by omega
    simp only [beyond, false_and, false_or]
    apply or_congr_left
    omega

def separated (free : Nat) : Nat := if free > 3 then free - 3 else free

/-- The free bytes at which the newline itself is added: not those where the suffix up
to the colon leaves no room for it. -/
def Terminates (free : Nat) (name : SourceFile) : Prop :=
  3 ≤ separated free ∧ separated free ≠ name.size_ + 1 ∧ separated free ≠ name.size_ + 2

private theorem ends_suffix (line : IntegralType.int.Value) (name : SourceFile) (below : used < kSmallBufferSize) :
    Ends before used (suffix name line) ↔
    Terminates (kSmallBufferSize - used) name ∨
      separated (kSmallBufferSize - used) = name.size_ + 1 ∧ name.data_.getLast? = some '\n' ∨
      kSmallBufferSize - used = 1 ∧ before.getLast? = some '\n' := by
  unfold suffix Terminates separated
  by_cases room : 3 < kSmallBufferSize - used
  · have space : (before ++ [' ', '-', ' ']).getLast? ≠ some '\n' := by simp
    rw [ends_fit (.string [' ', '-', ' ']) (decide_eq_true room), ends_name line _ name.whole (by simp [Insertion.text]; omega)]
    have left : kSmallBufferSize - (used + (Insertion.string [' ', '-', ' ']).text.length) = kSmallBufferSize - used - 3 := by
      simp only [Insertion.text, List.length_cons, List.length_nil]
      omega
    have more : kSmallBufferSize - used ≠ 1 := by omega
    rw [left, if_pos room]
    simp only [Insertion.text, space, more, and_false, false_and]
  · have last : kSmallBufferSize - used ≤ 1 ↔ kSmallBufferSize - used = 1 := by omega
    rw [ends_full (.string [' ', '-', ' ']) (decide_eq_false room), ends_name line _ name.whole below, if_neg room, last]

section Clock
variable (localtime : Int → Tm)

def header (now : Timestamp) (level : LogLevel) : List Insertion :=
  [.general (timer localtime now), .general (micros now), .general (levelName level)]

/-- A logger's stream after its constructor and some insertions, and the bytes that it holds. -/
theorem log_bounded (first second : Timestamp) (filename : List Char) (line : IntegralType.int.Value) (level : LogLevel)
    (cells : Nat → Char) (data_ : Nat) (insertions : List Insertion) :
    ∃ used, ((new localtime first second filename line level (.new cells data_)).log insertions).stream_.Bounded used ∧
      ((new localtime first second filename line level (.new cells data_)).log insertions).stream_.contents =
        (Insertion.kept 0 (header localtime second level ++ insertions)).flatMap Insertion.text := by
  obtain ⟨used, bounded, _, contents⟩ := (LogStream.new_bounded cells data_).foldl_insert
    (header localtime second level ++ insertions)
  have stream : ((new localtime first second filename line level (.new cells data_)).log insertions).stream_ =
      (header localtime second level ++ insertions).foldl LogStream.insert (.new cells data_) := by
    simp only [log, new, formatTime, header, List.foldl_append, List.foldl_cons, List.foldl_nil]
  have empty : (LogStream.new cells data_).contents = [] := rfl
  rw [stream]
  exact ⟨used, bounded, by rw [contents, empty, List.nil_append]⟩

/-- The record that the destructor hands on ends in a newline exactly when there is room
for the one it adds, or when what stands in that place is one by chance. -/
private theorem finish_ends_iff {logger : Logger} {used : Nat} (bounded : logger.stream_.Bounded used) :
    logger.finish.stream_.contents.getLast? = some '\n' ↔
      Terminates logger.stream_.avail logger.basename_ ∨
      separated logger.stream_.avail = logger.basename_.size_ + 1 ∧ logger.basename_.data_.getLast? = some '\n' ∨
      logger.stream_.avail = 1 ∧ logger.stream_.contents.getLast? = some '\n' := by
  obtain ⟨_, _, _, contents⟩ := bounded.foldl_insert (suffix logger.basename_ logger.line_)
  have ends := @ends_suffix logger.stream_.contents used logger.line_ logger.basename_ bounded.below
  rw [Ends, ← contents, ← bounded.avail] at ends
  exact ends

/-- For every file name, line and message, the record ends in a newline if and only if
the message leaves room for the suffix, apart from a newline that ends the name or the
message and happens to be last. -/
theorem record_ends_iff (first second : Timestamp) (filename : List Char) (line : IntegralType.int.Value) (level : LogLevel)
    (cells : Nat → Char) (data_ : Nat) (insertions : List Insertion) :
    ∃ logger record, (new localtime first second filename line level (.new cells data_)).log insertions = logger ∧
      logger.destroy.head? = some (.output record) ∧
      (record.getLast? = some '\n' ↔
        Terminates logger.stream_.avail logger.basename_ ∨
        separated logger.stream_.avail = logger.basename_.size_ + 1 ∧ logger.basename_.data_.getLast? = some '\n' ∨
        logger.stream_.avail = 1 ∧ logger.stream_.contents.getLast? = some '\n') := by
  obtain ⟨used, bounded, _⟩ := log_bounded localtime first second filename line level cells data_ insertions
  refine ⟨_, _, rfl, ?_, finish_ends_iff bounded⟩
  rw [destroy]
  split <;> rfl

private theorem header_kept (now : Timestamp) (level : LogLevel) (insertions : List Insertion) :
    Insertion.kept 0 (header localtime now level ++ insertions) = header localtime now level ++ Insertion.kept 30 insertions ∧
    ((header localtime now level).flatMap Insertion.text).length = 30 := by
  have timer : (timer localtime now).len_ = 17 := rfl
  have micros : (micros now).len_ = 7 := rfl
  have name : (levelName level).len_ = 6 := rfl
  have size : kSmallBufferSize = 4000 := rfl
  constructor
  · simp only [header, List.cons_append, List.nil_append]
    rw [Insertion.kept_general (by omega), Insertion.kept_general (by omega), Insertion.kept_general (by omega), timer, micros,
      name]
  · simp only [header, List.flatMap_cons, List.flatMap_nil, List.length_append, Insertion.general_length, timer, micros, name,
      List.length_nil]

/-- A message that leaves four bytes: the separator takes three, and nothing else fits. -/
theorem record_unterminated : ∃ logger record,
    (new (fun _ => ⟨122, 7, 26, 16, 29, 10⟩) ⟨0⟩ ⟨0⟩ ['m', 'a', 'i', 'n', '.', 'c', 'c'] ⟨1, by decide⟩ .INFO
      (.new (fun _ => ' ') 0)).log [.string (List.replicate 3966 'x')] = logger ∧
    logger.destroy.head? = some (.output record) ∧ record.getLast? ≠ some '\n' := by
  obtain ⟨used, bounded, contents⟩ := log_bounded (fun _ => ⟨122, 7, 26, 16, 29, 10⟩) ⟨0⟩ ⟨0⟩
    ['m', 'a', 'i', 'n', '.', 'c', 'c'] ⟨1, by decide⟩ .INFO (fun _ => ' ') 0 [.string (List.replicate 3966 'x')]
  refine ⟨_, _, rfl, rfl, fun newline => ?_⟩
  have ends := (finish_ends_iff bounded).mp newline
  have header := header_kept (fun _ => ⟨122, 7, 26, 16, 29, 10⟩) ⟨0⟩ .INFO [.string (List.replicate 3966 'x')]
  have size : kSmallBufferSize = 4000 := rfl
  have length : used = 3996 := by
    rw [← bounded.length_contents, contents, header.1, List.flatMap_append, List.length_append, header.2,
      Insertion.kept_string (by rw [List.length_replicate]; omega), List.flatMap_singleton, Insertion.text, List.length_replicate]
  have four : kSmallBufferSize - used = 4 := by omega
  have one : separated 4 = 1 := rfl
  rw [Terminates, bounded.avail, four, one] at ends
  rcases ends with ⟨three, _⟩ | ⟨name, _⟩ | ⟨last, _⟩
  · exact absurd three (by decide)
  · exact absurd name (by decide)
  · exact absurd last (by decide)

end Clock

end Logger
end Webserver
