import Webserver.Proofs.BufferQueue
import Webserver.Proofs.EchoStream

/-! The memory that a buffer takes. Its vector never shrinks, but it grows only for want of
room, so its size is bounded by what it has held and by what it was asked to take at once. -/

namespace Webserver
open Library

universe u
variable {α : Type u}

namespace Buffer

/-- How many bytes are to lie in the vector when the call has made room. -/
def Call.needs (buffer : Buffer α) : Call α → Nat
  | .append data => buffer.readableBytes + data.length
  | .ensureWritableBytes len => buffer.readableBytes + len
  | .readFd received => buffer.readableBytes + (received.getD []).length
  | _ => buffer.readableBytes

def Call.asks (buffer : Buffer α) : Call α → Nat
  | .append data => data.length
  | .ensureWritableBytes len => len
  | .readFd received => (received.getD []).length - buffer.writableBytes
  | _ => 0

/-- The vector has kept its size, or it is just large enough for what it needs, with too
little free in front for what was asked. -/
def Fits (before after : Buffer α) (needs asks : Nat) : Prop :=
  after.buffer_.length = before.buffer_.length ∨
    after.buffer_.length = before.readerIndex_ + needs ∧ before.readerIndex_ < asks + kCheapPrepend

private theorem fits_ensureWritableBytes [OfNat α 0] (buffer : Buffer α) (len : Nat) :
    Fits buffer (buffer.ensureWritableBytes len) (buffer.readableBytes + len) len := by
  have first := buffer.prepended
  have middle := buffer.ordered
  have last := buffer.bounded
  unfold ensureWritableBytes
  split
  · unfold makeSpace
    split
    next grows =>
      right
      simp only [writableBytes, prependableBytes] at grows
      simp only [resize_length, readableBytes]
      omega
    next slides =>
      left
      apply overwrite_length
      simp only [readable, segment_length]
      omega
  · exact .inl rfl

private theorem length_copyToWrite (buffer : Buffer α) (data : List α) (room : data.length ≤ buffer.writableBytes) :
    (buffer.copyToWrite data room).buffer_.length = buffer.buffer_.length := by
  have last := buffer.bounded
  unfold writableBytes at room
  apply overwrite_length
  omega

private theorem fits_append [OfNat α 0] (buffer : Buffer α) (data : List α) :
    Fits buffer (buffer.append data) (buffer.readableBytes + data.length) data.length := by
  rw [Fits, append, length_copyToWrite]
  exact buffer.fits_ensureWritableBytes data.length

private theorem retrieve_vector (buffer : Buffer α) (len : Nat) : (buffer.retrieve len).buffer_ = buffer.buffer_ := by
  unfold retrieve
  split <;> rfl

/-- Only what does not fit in the first vector can make the buffer grow. -/
private theorem fits_readFd [OfNat α 0] (buffer : Buffer α) (bytes : List α) :
    Fits buffer (buffer.readFd (some bytes)).2 (buffer.readableBytes + bytes.length) (bytes.length - buffer.writableBytes) := by
  let filled := buffer.copyToWrite (bytes.take buffer.writableBytes) (List.length_take_le _ _)
  have same : filled.buffer_.length = buffer.buffer_.length := buffer.length_copyToWrite _ _
  rw [readFd]
  split
  · exact .inl same
  next spills =>
    have held : filled.readableBytes + (bytes.length - buffer.writableBytes) = buffer.readableBytes + bytes.length := by
      have ordered := buffer.ordered
      have count : filled.readableBytes = buffer.writerIndex_ + (bytes.take buffer.writableBytes).length - buffer.readerIndex_ := rfl
      rw [count, List.length_take, readableBytes]
      omega
    have fits := filled.fits_append (bytes.drop buffer.writableBytes)
    rw [List.length_drop, held, Fits, same] at fits
    exact fits

/-- Only a call that asks for room can change the size of the vector. -/
private theorem fits_step [OfNat α 0] {call : Call α} {before after : Buffer α}
    (stepped : machine.step call before = some after) :
    Fits before after (call.needs before) (call.asks before) := by
  obtain ⟨_, applied⟩ := Option.ite_none_right_eq_some.mp stepped
  cases call with
  | append data =>
    cases applied
    exact before.fits_append data
  | retrieve len =>
    cases applied
    exact .inl (congrArg List.length (before.retrieve_vector len))
  | retrieveAll =>
    cases applied
    exact .inl rfl
  | retrieveAsString len =>
    obtain ⟨⟨_, left⟩, taken, same⟩ := Option.map_eq_some_iff.mp applied
    obtain ⟨_, taken⟩ := Option.ite_none_right_eq_some.mp taken
    cases taken
    cases same
    exact .inl (congrArg List.length (before.retrieve_vector len))
  | ensureWritableBytes len =>
    cases applied
    exact before.fits_ensureWritableBytes len
  | readFd received =>
    cases applied
    cases received with
    | none => exact .inl rfl
    | some bytes => exact before.fits_readFd bytes

/-- A buffer that never had to hold more than `held` bytes, and was never asked for room for
more than `asked` bytes at once, has its first size or is smaller than both together and the
bytes that are kept free in front. -/
theorem capacity_bounded [OfNat α 0] (initialSize held asked : Nat) (calls : List (Call α)) (final : Buffer α)
    (reached : machine.run calls (new initialSize) = some final)
    (modest : machine.Along (fun call buffer => call.needs buffer ≤ held ∧ call.asks buffer ≤ asked) calls (new initialSize)) :
    final.buffer_.length ≤ kCheapPrepend + initialSize ∨ final.buffer_.length < held + asked + kCheapPrepend := by
  have preserved : ∀ call (before after : Buffer α), call.needs before ≤ held ∧ call.asks before ≤ asked →
      (before.buffer_.length ≤ kCheapPrepend + initialSize ∨ before.buffer_.length < held + asked + kCheapPrepend) →
      machine.step call before = some after →
      (after.buffer_.length ≤ kCheapPrepend + initialSize ∨ after.buffer_.length < held + asked + kCheapPrepend) := by
    intro call before after limits bound stepped
    rcases fits_step stepped with same | ⟨grown, narrow⟩ <;> omega
  apply Machine.run_invariant preserved reached modest
  left
  simp [new]

/-- Four bytes are held and five asked for: the second call makes a buffer of 4 grow. -/
theorem capacity_bounded_two : ∃ final : Buffer Nat,
    machine.run [.append [1, 2, 3, 4], .ensureWritableBytes 5] (new 4) = some final ∧ final.buffer_.length = 17 ∧
    (final.buffer_.length ≤ kCheapPrepend + 4 ∨ final.buffer_.length < 9 + 5 + kCheapPrepend) := by
  refine ⟨_, rfl, rfl, ?_⟩
  exact capacity_bounded 4 9 5 [.append [1, 2, 3, 4], .ensureWritableBytes 5] _ rfl (by decide +kernel)

end Buffer

namespace EchoServer
open Buffer (extrabufSize)

/-- The buffer is as `retrieveAll` leaves it, and two vectors of `readFd` long at most. -/
structure Small (buffer : Buffer α) : Prop where
  readerIndex_ : buffer.readerIndex_ = kCheapPrepend
  writerIndex_ : buffer.writerIndex_ = kCheapPrepend
  size : buffer.buffer_.length < kCheapPrepend + 2 * extrabufSize

theorem Small.readFd [OfNat α 0] {buffer : Buffer α} (small : Small buffer) {message : List α}
    (offered : message.length ≤ buffer.offered) : Small (buffer.readFd (some message)).2.retrieveAll := by
  refine ⟨rfl, rfl, ?_⟩
  have size := small.size
  change (buffer.readFd (some message)).2.buffer_.length < _
  rcases buffer.fits_readFd message with same | ⟨grown, narrow⟩
  · rwa [same]
  · have first := small.readerIndex_
    have empty : buffer.readableBytes = 0 := by rw [Buffer.readableBytes, small.writerIndex_, first, Nat.sub_self]
    rw [grown, first, empty]
    rw [first] at narrow
    unfold Buffer.offered at offered
    split at offered <;> omega

section Steps
variable [OfNat α 0]

theorem Small.step {clean : Prop} {event : EchoEvent α} {before after : Process α × List (List α)}
    (echoing : Echoing clean before) (small : Small before.1.conn.inputBuffer_)
    (stepped : recorded.step event before = some after) : Small after.1.conn.inputBuffer_ := by
  obtain ⟨moved, _⟩ := Machine.watch_step.mp stepped
  cases event with
  | process event =>
    obtain ⟨inner, moved⟩ := Option.ite_none_right_eq_some.mp moved
    have calm := step_calm echoing.sound echoing.upright (fun connecting => (echoing.answered.fresh connecting).1) inner moved
    rwa [calm.inputBuffer_]
  | read received result =>
    obtain ⟨handled, read, answer⟩ := Option.bind_eq_some_iff.mp moved
    cases brings : delivers before.1 received with
    | false =>
      rw [if_neg (by simp [brings])] at answer
      cases answer
      obtain ⟨conn, calm, _, _, input⟩ := read_calm echoing.upright brings read
      rwa [calm.inputBuffer_, input]
    | true =>
      rw [if_pos brings] at answer
      obtain ⟨conn, answered, same⟩ := Option.map_eq_some_iff.mp answer
      obtain ⟨message, rfl⟩ : ∃ message, received = some message := by
        unfold delivers at brings
        split at brings
        · exact ⟨_, rfl⟩
        · cases brings
      have offered : message.length ≤ before.1.conn.inputBuffer_.offered := by
        obtain ⟨revents, position, ⟨unread, _⟩ | ⟨_, offered, _⟩⟩ := read_cases read
        · cases message <;> simp [delivers, position, unread] at brings
        · exact offered
      have final : after.1.conn = conn := by rw [← same]
      rw [final, onMessage_sends answered, send_input, read_message brings read]
      exact small.readFd offered

/-- Whatever a peer sends and however it arrives, the input buffer of its connection never
takes more than the bytes kept free in front and twice `extrabuf`. -/
theorem input_bounded (setup : Setup α) (sameLoop : Bool) {events : List (EchoEvent α)} {process : Process α}
    {messages : List (List α)}
    (reached : recorded.run events (Process.newConnection setup sameLoop, []) = some (process, messages)) :
    process.conn.inputBuffer_.buffer_.length < kCheapPrepend + 2 * extrabufSize := by
  have preserved : ∀ event (before after : Process α × List (List α)),
      Echoing False before ∧ Small before.1.conn.inputBuffer_ → recorded.step event before = some after →
      Echoing False after ∧ Small after.1.conn.inputBuffer_ :=
    fun _ _ _ held stepped => ⟨step_echoing False.elim held.1 stepped, held.2.step held.1 stepped⟩
  have started : Small (Process.newConnection setup sameLoop).conn.inputBuffer_ := by
    have fresh : Small (Buffer.new : Buffer α) := by
      refine ⟨rfl, rfl, ?_⟩
      rw [Buffer.new, List.length_replicate]
      decide
    cases sameLoop <;> exact fresh
  obtain ⟨_, small⟩ := Machine.run_preserves preserved reached ⟨newConnection_echoing False setup sameLoop, started⟩
  exact small.size

end Steps

/-- A message longer than the buffer makes it grow by a byte, which it keeps. -/
theorem input_bounded_longer : ∃ (process : Process UInt8) (messages : List (List UInt8)),
    recorded.run [.process .swapFunctors, .process (.runFunctor (.count 0)), .process .endFunctors, .process (.poll EPOLLIN),
      .process .close, .process .error, .read (some (List.replicate 1025 7)) (.count 1), .process (.write (.count 0))]
      (Process.newConnection ⟨7, fun _ => 0, fun _ => [], true, true, 16⟩ false, []) = some (process, messages) ∧
    process.conn.inputBuffer_.buffer_.length = 1033 ∧
    process.conn.inputBuffer_.buffer_.length < kCheapPrepend + 2 * extrabufSize := by
  obtain ⟨⟨process, messages⟩, reached, size⟩ := Option.map_eq_some_iff.mp
    (show (recorded.run [.process .swapFunctors, .process (.runFunctor (.count 0)), .process .endFunctors,
      .process (.poll EPOLLIN), .process .close, .process .error, .read (some (List.replicate 1025 7)) (.count 1),
      .process (.write (.count 0))]
      (Process.newConnection (⟨7, fun _ => 0, fun _ => [], true, true, 16⟩ : Setup UInt8) false, [])).map
        (fun state => state.1.conn.inputBuffer_.buffer_.length) = some 1033 by decide +kernel)
  exact ⟨process, messages, reached, size, input_bounded _ _ reached⟩

end EchoServer
end Webserver
