import Webserver.Proofs.ProcessTurn

/-! The announcements of a connection: it is connected once, then disconnected
once, and closed at most once, as long as no closing handler runs twice and no
half-shut connection is destroyed. -/

namespace Webserver
open Library

universe u
variable {α : Type u}

namespace Process

/-- A closing handler only runs while the channel still reads, and `connectDestroyed`
does not meet a reading channel in state `kDisconnecting`. -/
def Paired (event : Event α) (process : Process α) : Prop :=
  (closing event process = true → process.conn.channel_.isReading = true) ∧
  (destroys event process = true →
    ¬(process.conn.state_ = .kDisconnecting ∧ process.conn.channel_.isReading = true))

instance (event : Event α) (process : Process α) : Decidable (Paired event process) :=
  inferInstanceAs (Decidable (_ ∧ _))

/-- The channel reads from the announcement of the connection to that of its end. -/
structure Lived (process : Process α) : Prop where
  open_ : process.conn.state_ ≠ .kConnecting → process.conn.channel_.isReading = true →
    process.conn.announced = [.connection true]
  finished : process.conn.state_ ≠ .kConnecting → process.conn.channel_.isReading = false →
    process.conn.announced = [.connection true, .connection false] ∨
    process.conn.announced = [.connection true, .connection false, .close]
  connected : process.conn.state_ = .kConnected → process.conn.channel_.isReading = true
  disconnected : process.conn.state_ = .kDisconnected → process.conn.channel_.isReading = false
  destroying : process.destroying = true → process.conn.channel_.isReading = true
  destroyed : process.destroyed = true →
    process.conn.state_ ≠ .kConnecting ∧ process.conn.channel_.isReading = false

private theorem newConnection_lived [OfNat α 0] (setup : Setup α) (sameLoop : Bool) :
    Lived (newConnection setup sameLoop) := by
  cases sameLoop with
  | true =>
    have began := TcpConnection.Began.connectEstablished (TcpConnection.new setup)
    refine ⟨fun _ _ => rfl, fun _ unread => ?_, fun _ => began.reading, ?_, ?_, ?_⟩
    · exact absurd (began.reading.symm.trans unread) (by decide)
    all_goals
      intro other
      cases other
  | false =>
    refine ⟨fun live => absurd rfl live, fun live => absurd rfl live, ?_, ?_, ?_, ?_⟩
    all_goals
      intro other
      cases other

theorem Lived.alike {before after : Process α} (lived : Lived before) (alike : Alike before.conn after.conn)
    (destroying : after.destroying = true → before.conn.channel_.isReading = true)
    (destroyed : after.destroyed = true →
      before.conn.state_ ≠ .kConnecting ∧ before.conn.channel_.isReading = false) : Lived after := by
  obtain ⟨state, reading, announced⟩ := alike
  constructor <;> simp only [state, reading, announced]
  · exact lived.open_
  · exact lived.finished
  · exact lived.connected
  · exact lived.disconnected
  · exact destroying
  · exact destroyed

theorem Over.isReading {news : List Callback} {before after : TcpConnection α} (finished : Over news before after) :
    after.channel_.isReading = false := by
  rw [Channel.isReading, finished.interest]
  decide

theorem Lived.finish {news : List Callback} {before after : Process α} (finished : Over news before.conn after.conn)
    (open_ : before.conn.announced = [.connection true])
    (shape : news = [.connection false] ∨ news = [.connection false, .close])
    (destroying : after.destroying = false) : Lived after := by
  refine ⟨?_, ?_, ?_, fun _ => finished.isReading, ?_, ?_⟩
  · intro _ reading
    exact absurd (finished.isReading.symm.trans reading) (by decide)
  · intro _ _
    rw [finished.announced, open_]
    rcases shape with rfl | rfl
    · exact .inl rfl
    · exact .inr rfl
  · intro connected
    rw [finished.state_] at connected
    cases connected
  · intro set
    rw [destroying] at set
    cases set
  · intro _
    exact ⟨by simp [finished.state_], finished.isReading⟩

theorem Lived.turn {event : Event α} {before after : Process α} (sound : Sound before) (lived : Lived before)
    (paired : Paired event before) (turn : Turn event before after) : Lived after := by
  cases turn with
  | keeps alike destroying destroyed =>
    exact lived.alike alike (fun set => lived.destroying (destroying ▸ set)) (fun set => lived.destroyed (destroyed ▸ set))
  | begins connecting state_ reading announced destroying destroyed =>
    refine ⟨?_, ?_, fun _ => reading, ?_, fun _ => reading, ?_⟩
    · intro _ _
      rw [announced, (sound.fresh connecting).unannounced]
      rfl
    · intro _ unread
      exact absurd (reading.symm.trans unread) (by decide)
    · intro gone
      rw [state_] at gone
      cases gone
    · intro set
      exact absurd connecting (lived.destroyed (destroyed ▸ set)).1
  | shuts live state_ reading announced destroying destroyed =>
    constructor <;> simp only [state_, reading, announced, destroying, destroyed]
    · intro _
      exact lived.open_ live
    · intro _
      exact lived.finished live
    · simp
    · simp
    · exact lived.destroying
    · intro set
      exact ⟨by simp, (lived.destroyed set).2⟩
  | tests connected alike destroyed =>
    exact lived.alike alike (fun _ => lived.connected connected) (fun set => lived.destroyed (destroyed ▸ set))
  | removes run live other alike destroying =>
    have unread : before.conn.channel_.isReading = false := by
      cases state : before.conn.state_ with
      | kConnecting => exact absurd state live
      | kConnected => exact absurd state other
      | kDisconnected => exact lived.disconnected state
      | kDisconnecting => exact Bool.eq_false_iff.mpr fun reads => paired.2 run ⟨state, reads⟩
    exact lived.alike alike (fun set => lived.destroying (destroying ▸ set)) (fun _ => ⟨live, unread⟩)
  | leaves busy finished destroying =>
    have live : before.conn.state_ ≠ .kConnecting := by
      rcases sound.destroying busy with state | state <;> simp [state]
    exact .finish finished (lived.open_ live (lived.destroying busy)) (.inl rfl) destroying
  | closes run live finished destroying destroyed =>
    exact .finish finished (lived.open_ live (paired.1 run)) (.inr rfl) destroying

/-- Under the pairing condition the user is told once that the connection is up,
then once that it is down, and once a `connectDestroyed` has returned both. -/
theorem connection_callbacks [OfNat α 0] (setup : Setup α) (sameLoop : Bool) (events : List (Event α)) (process : Process α)
    (reached : machine.run events (newConnection setup sameLoop) = some process)
    (paired : machine.Along Paired events (newConnection setup sameLoop)) :
    process.conn.announced <+: [.connection true, .connection false, .close] ∧
    (process.destroyed = true → [.connection true, .connection false] <+: process.conn.announced) := by
  let invariant (process : Process α) : Prop := Sound process ∧ Lived process
  have preserved (event before after) (paired : Paired event before) (kept : invariant before)
      (stepped : machine.step event before = some after) : invariant after :=
    ⟨kept.1.step stepped, kept.2.turn kept.1 paired (step_turn kept.1 stepped)⟩
  obtain ⟨sound, lived⟩ : invariant process := Machine.run_invariant preserved reached paired
    ⟨newConnection_sound setup sameLoop, newConnection_lived setup sameLoop⟩
  have shape : process.conn.announced = [.connection true, .connection false] ∨
      process.conn.announced = [.connection true, .connection false, .close] →
      process.conn.announced <+: [.connection true, .connection false, .close] ∧
      [.connection true, .connection false] <+: process.conn.announced := by
    rintro (same | same) <;> rw [same] <;> decide
  constructor
  · by_cases connecting : process.conn.state_ = .kConnecting
    · rw [(sound.fresh connecting).unannounced]
      exact List.nil_prefix
    · cases reading : process.conn.channel_.isReading with
      | true =>
        rw [lived.open_ connecting reading]
        decide
      | false => exact (shape (lived.finished connecting reading)).1
  · intro destroyed
    obtain ⟨live, unread⟩ := lived.destroyed destroyed
    exact (shape (lived.finished live unread)).2

/-- A close that the peer starts, up to the `connectDestroyed` that it leads to. -/
theorem connection_callbacks_closed :
    ∃ process : Process UInt8,
      machine.run [.swapFunctors, .runFunctor (.count 0), .endFunctors, .poll 1, .close, .error, .read (some []),
        .write (.count 0), .removeConnectionInLoop, .swapFunctors, .runFunctor (.count 0)]
        (newConnection ⟨7, fun _ => 0, fun _ => [], true, true, 16⟩ false) = some process ∧
      process.conn.announced = [.connection true, .connection false, .close] ∧
      [.connection true, .connection false] <+: process.conn.announced := by
  obtain ⟨process, reached, same⟩ := Option.map_eq_some_iff.mp
    (show (machine.run [.swapFunctors, .runFunctor (.count 0), .endFunctors, .poll 1, .close, .error, .read (some []),
        .write (.count 0), .removeConnectionInLoop, .swapFunctors, .runFunctor (.count 0)]
        (newConnection (⟨7, fun _ => 0, fun _ => [], true, true, 16⟩ : Setup UInt8) false)).map
          (fun process => (process.conn.announced, process.destroyed)) =
        some ([.connection true, .connection false, .close], true) by decide +kernel)
  obtain ⟨announced, destroyed⟩ := Prod.mk.inj same
  exact ⟨process, reached, announced,
    (connection_callbacks _ false _ process reached (by decide +kernel)).2 destroyed⟩

/-- A connection that is shut down and then destroyed with its server is never
announced as disconnected. -/
theorem shutdown_hides_disconnection :
    ∃ process : Process UInt8,
      machine.run [.swapFunctors, .runFunctor (.count 0), .endFunctors, .shutdown, .destroyServer,
        .swapFunctors, .runFunctor (.count 0)]
        (newConnection ⟨7, fun _ => 0, fun _ => [], true, true, 16⟩ false) = some process ∧
      process.destroyed = true ∧ process.conn.loop_.waiting = [] ∧ process.conn.announced = [.connection true] := by
  obtain ⟨process, reached, same⟩ := Option.map_eq_some_iff.mp
    (show (machine.run [.swapFunctors, .runFunctor (.count 0), .endFunctors, .shutdown, .destroyServer,
        .swapFunctors, .runFunctor (.count 0)]
        (newConnection (⟨7, fun _ => 0, fun _ => [], true, true, 16⟩ : Setup UInt8) false)).map
          (fun process => (process.destroyed, process.conn.loop_.waiting, process.conn.announced)) =
        some (true, [], [.connection true]) by decide +kernel)
  simp only [Prod.mk.injEq] at same
  exact ⟨process, reached, same⟩

end Process
end Webserver
