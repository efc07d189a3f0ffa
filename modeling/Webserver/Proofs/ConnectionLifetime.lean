import Webserver.Proofs.ConnectionReleased

/-! The pointers to a connection. The pollers and the lists of active channels hold plain
ones; the map, the functors and the guard of a running handler hold `shared_ptr`s, and they
keep the connection for as long as a plain one is left. -/

namespace Webserver
open Library

namespace ConnectionRegistry
variable {state next : ConnectionRegistry} {conn : Nat}

/-- No connection but one at most gets a `shared_ptr` that it did not have. -/
structure Only (who : Option Nat) (state next : ConnectionRegistry) : Prop where
  created : state.created ≤ next.created
  held : ∀ conn, Held next conn → Held state conn ∨ who = some conn

theorem Only.trans {who : Option Nat} {middle : ConnectionRegistry} (first : Only who state middle)
    (second : Only who middle next) : Only who state next where
  created := Nat.le_trans first.created second.created
  held conn held := by
    rcases second.held conn held with before | same
    · exact first.held conn before
    · exact .inr same

private theorem only_onLoop (who : Option Nat) (state : ConnectionRegistry) (loop : LoopRef) (change : ServerLoop → ServerLoop)
    (waiting : ∀ cb ∈ (change (state.loops loop)).loop.waiting, cb ∈ (state.loops loop).loop.waiting ∨ who = some cb.conn)
    (current : ∀ event, (change (state.loops loop)).current = some event →
      (state.loops loop).current = some event ∨ who = some event.1) : Only who state (state.onLoop loop change) := by
  refine ⟨Nat.le_refl _, fun conn held => ?_⟩
  rcases held with inMap | ⟨other, inLoop⟩
  · exact .inl (.inl inMap)
  · by_cases here : other = loop
    · subst here
      simp only [onLoop, Function.update_self] at inLoop
      rcases inLoop with ⟨cb, member, rfl⟩ | ⟨revents, handling⟩
      · exact (waiting cb member).imp_left fun old => .inr ⟨other, .inl ⟨cb, old, rfl⟩⟩
      · exact (current _ handling).imp_left fun old => .inr ⟨other, .inr ⟨revents, old⟩⟩
    · simp only [onLoop, Function.update_of_ne here] at inLoop
      exact .inl (.inr ⟨other, inLoop⟩)

private theorem only_onConnection (who : Option Nat) (state : ConnectionRegistry) (conn : Nat)
    (change : Connection → Connection) :
    Only who state (state.onConnection conn change) := ⟨Nat.le_refl _, fun _ held => .inl held⟩

private theorem only_record (who : Option Nat) (state : ConnectionRegistry) (entry : Happening) :
    Only who state (state.record entry) :=
  ⟨Nat.le_refl _, fun _ held => .inl held⟩

private theorem only_usePoller (who : Option Nat) (state : ConnectionRegistry) (conn : Nat)
    (call : EPollPoller → EPollPoller × Channel) : Only who state (state.usePoller conn call) := by
  unfold usePoller
  apply Only.trans _ (only_onConnection who _ conn _)
  apply only_onLoop
  · exact fun _ member => .inl member
  · exact fun _ handling => .inl handling

private theorem only_queueInLoop (state : ConnectionRegistry) (thread loop : LoopRef) (cb : ServerFunctor) :
    Only (some cb.conn) state (state.queueInLoop thread loop cb) := by
  apply only_onLoop
  · intro other member
    rw [EventLoop.queueInLoop_waiting] at member
    rcases List.mem_append.mp member with old | new
    · exact .inl old
    · exact .inr (by rw [List.mem_singleton.mp new])
  · exact fun _ handling => .inl handling

private theorem only_disabled (state : ConnectionRegistry) (conn : Nat) :
    Only (some conn) state ((state.setState conn .kDisconnected).disableAll conn) :=
  (only_onConnection (some conn) state conn _).trans (only_usePoller (some conn) _ conn _)

private theorem only_connectEstablished (state : ConnectionRegistry) (thread : LoopRef) (conn : Nat) :
    Only (some conn) state (state.connectEstablished thread conn) := by
  have readied : Only (some conn) state (((state.record (.established conn thread)).setState conn .kConnected).tie conn) :=
    ⟨Nat.le_refl _, fun _ held => .inl held⟩
  unfold connectEstablished enableReading
  exact readied.trans (only_usePoller (some conn) _ conn _)

private theorem only_connectDestroyed (state : ConnectionRegistry) (thread : LoopRef) (conn : Nat) :
    Only (some conn) state (state.connectDestroyed thread conn) := by
  have entered := only_record (some conn) state (.destroyed conn thread)
  unfold connectDestroyed
  dsimp only
  split
  · exact (entered.trans (only_disabled _ conn)).trans (only_usePoller (some conn) _ conn _)
  · exact entered.trans (only_usePoller (some conn) _ conn _)

private theorem only_removeConnectionInLoop (state : ConnectionRegistry) (thread : LoopRef) (conn : Nat) :
    Only (some conn) state (state.removeConnectionInLoop thread conn) := by
  have erased : Only (some conn) state ({ state with connections_ := state.connections_.erase (state.connections conn).name_ }.record
      (.removed conn)) := by
    refine ⟨Nat.le_refl _, fun other held => .inl ?_⟩
    rcases held with ⟨name, found⟩ | inLoop
    · refine .inl ⟨name, ?_⟩
      change (state.connections_.erase _).lookup name = _ at found
      by_cases here : name = (state.connections conn).name_
      · rw [here, AList.lookup_erase] at found
        cases found
      · rwa [AList.lookup_erase_ne here] at found
    · exact .inr inLoop
  exact erased.trans (only_queueInLoop _ thread _ (.connectDestroyed conn))

private theorem only_execute (state : ConnectionRegistry) (thread : LoopRef) (cb : ServerFunctor) :
    Only (some cb.conn) state (state.execute thread cb) := by
  cases cb with
  | connectEstablished conn => exact only_connectEstablished state thread conn
  | connectDestroyed conn => exact only_connectDestroyed state thread conn
  | removeConnectionInLoop conn => exact only_removeConnectionInLoop state thread conn

private theorem only_runInLoop (state : ConnectionRegistry) (thread loop : LoopRef) (cb : ServerFunctor) :
    Only (some cb.conn) state (state.runInLoop thread loop cb) := by
  unfold runInLoop
  split
  · exact only_execute state thread cb
  · exact only_queueInLoop state thread loop cb

private theorem only_handleClose (state : ConnectionRegistry) (thread : LoopRef) (conn : Nat) :
    Only (some conn) state (state.handleClose thread conn) :=
  (only_disabled state conn).trans (only_runInLoop _ thread .baseLoop (.removeConnectionInLoop conn))

private theorem only_insert (state : ConnectionRegistry) (connection : Connection) :
    Only (some state.created) state (state.insert connection) := by
  refine ⟨Nat.le_succ _, fun conn held => ?_⟩
  rcases held with ⟨name, found⟩ | inLoop
  · change (state.connections_.insert connection.name_ state.created).lookup name = _ at found
    by_cases here : name = connection.name_
    · rw [here, AList.lookup_insert] at found
      exact .inr found
    · rw [AList.lookup_insert_ne here] at found
      exact .inl (.inl ⟨name, found⟩)
  · exact .inl (.inr inLoop)

theorem only_accepted (state : ConnectionRegistry) (ioLoop : LoopRef) (sockfd : Nat) :
    Only (some state.created) state (state.accepted ioLoop sockfd) :=
  (only_insert state _).trans (only_runInLoop _ .baseLoop ioLoop (.connectEstablished state.created))

private theorem only_entered (state : ConnectionRegistry) (loop : LoopRef) (conn : Nat) (revents : Mask)
    (rest : List (Nat × Mask)) :
    Only (some conn) state (state.entered loop conn revents rest) := by
  refine (only_onLoop (some conn) state loop _ (fun _ member => .inl member) fun event handling => ?_).trans (only_record _ _ _)
  exact .inr (by rw [← Option.some.inj handling])

private theorem only_left (who : Option Nat) (state : ConnectionRegistry) (loop : LoopRef) :
    Only who state (state.left loop) :=
  only_onLoop _ state loop _ (fun _ member => .inl member) fun _ handling => by cases handling

/-- What a loop handles, or a functor that it has, holds the connection. -/
theorem held_of_waiting {loop : LoopRef} {cb : ServerFunctor} (member : cb ∈ (state.loops loop).loop.waiting) :
    Held state cb.conn := .inr ⟨loop, .inl ⟨cb, member, rfl⟩⟩

theorem held_of_current {loop : LoopRef} {event : Nat × Mask} (handling : (state.loops loop).current = some event) :
    Held state event.1 := .inr ⟨loop, .inr ⟨event.2, handling⟩⟩

/-- Before its destruction a connection is in the map, or a functor that destroys it waits. -/
theorem held_of_alive (registered : Registered state) (owed : Owed state) (few : state.created < 2147483648)
    (born : conn < state.created) (alive : ¬Destroyed state.log conn) : Held state conn := by
  by_cases removed : .removed conn ∈ state.log
  · exact held_of_waiting ((owed conn removed).resolve_left alive)
  · exact .inl ⟨_, (registered.registered few _ conn).mpr ⟨born, rfl, removed⟩⟩

def Pointed (state : ConnectionRegistry) (conn : Nat) : Prop :=
  ∃ loop, (∃ fd, (state.loops loop).loop.poller_.channels_ fd = some conn) ∨
    ∃ revents, (conn, revents) ∈ (state.loops loop).activeChannels_

structure Living (state : ConnectionRegistry) : Prop where
  orderly : Orderly state
  retiring : Retiring state
  owed : Owed state

theorem new_living (listenAddr : InetAddress) (nameArg : String) (threadPool : EventLoopThreadPool) :
    Living (new listenAddr nameArg threadPool) :=
  ⟨new_orderly listenAddr nameArg threadPool, new_retiring listenAddr nameArg threadPool, fun _ member => by cases member⟩

namespace Living

theorem step (living : Living state) {event : RegistryEvent} (stepped : machine.step event state = some next) : Living next :=
  ⟨living.orderly.step stepped, living.retiring.step living.orderly stepped,
    living.owed.step living.orderly.registered living.retiring stepped⟩

theorem held_of_pointed (living : Living state) (few : state.created < 2147483648) (pointed : Pointed state conn) :
    Held state conn := by
  have alive : conn < state.created → ¬Destroyed state.log conn → Held state conn :=
    held_of_alive living.orderly.registered living.owed few
  obtain ⟨loop, ⟨fd, mapped⟩ | ⟨revents, member⟩⟩ := pointed
  · apply alive ((living.orderly.loops loop).polled fd conn mapped).born
    exact ((living.retiring.retired loop).polled fd conn mapped).2.2
  · apply alive ((living.orderly.loops loop).active _ member).born
    exact ((living.retiring.retired loop).active _ member).2

/-- A step acts on one connection at most, which is new or has a `shared_ptr`. -/
theorem step_only (living : Living state) {event : RegistryEvent} (stepped : machine.step event state = some next) :
    ∃ who, Only who state next ∧
      (state.created < 2147483648 → ∀ conn, who = some conn → conn < state.created → Held state conn) := by
  cases step_cases stepped with
  | accepts sockfd _ ioLoop =>
    refine ⟨_, only_accepted state ioLoop sockfd, fun _ conn same born => ?_⟩
    cases same
    exact absurd born (Nat.lt_irrefl _)
  | polls loop =>
    refine ⟨none, ?_, fun _ _ same => nomatch same⟩
    exact only_onLoop _ state loop _ (fun _ member => .inl member) fun _ handling => .inl handling
  | enters loop conn revents rest _ first =>
    refine ⟨some conn, only_entered state loop conn revents rest, fun few other same _ => ?_⟩
    cases same
    exact living.held_of_pointed few ⟨loop, .inr ⟨revents, first ▸ List.mem_cons_self⟩⟩
  | closes loop conn revents rest _ first =>
    refine ⟨some conn, (only_entered state loop conn revents rest).trans (only_handleClose _ loop conn),
      fun few other same _ => ?_⟩
    cases same
    exact living.held_of_pointed few ⟨loop, .inr ⟨revents, first ▸ List.mem_cons_self⟩⟩
  | leaves loop => exact ⟨none, only_left none state loop, fun _ _ same => nomatch same⟩
  | ends loop closed conn revents inside =>
    refine ⟨some conn, (only_left _ state loop).trans (only_handleClose _ loop conn), fun _ other same _ => ?_⟩
    cases same
    exact held_of_current inside
  | swaps loop =>
    refine ⟨none, ?_, fun _ _ same => nomatch same⟩
    apply only_onLoop
    · intro cb member
      rw [EventLoop.swapFunctors, EventLoop.waiting, List.append_nil] at member
      exact .inl (List.mem_append_right _ member)
    · exact fun _ handling => .inl handling
  | runs loop cb rest queue =>
    have waiting : (state.loops loop).loop.waiting = cb :: (rest ++ (state.loops loop).loop.pendingFunctors_) := by
      rw [EventLoop.waiting, queue, List.cons_append]
    refine ⟨some cb.conn, Only.trans ?_ (only_execute _ loop cb),
      fun _ conn same _ => Option.some.inj same ▸ held_of_waiting (waiting ▸ List.mem_cons_self)⟩
    apply only_onLoop
    · exact fun other member => .inl (waiting ▸ List.mem_cons_of_mem _ member)
    · exact fun _ handling => .inl handling
  | finishes loop =>
    refine ⟨none, ?_, fun _ _ same => nomatch same⟩
    exact only_onLoop _ state loop _ (fun _ member => .inl member) fun _ handling => .inl handling

/-- What nothing holds any more nothing ever holds again. -/
theorem run_released (living : Living state) {events : List RegistryEvent} {final : ConnectionRegistry}
    (reached : machine.run events state = some final) (few : final.created < 2147483648) :
    state.created ≤ final.created ∧ ∀ conn < state.created, Held final conn → Held state conn := by
  induction events generalizing state with
  | nil =>
    cases reached
    exact ⟨Nat.le_refl _, fun _ _ held => held⟩
  | cons event events ih =>
    obtain ⟨middle, stepped, later⟩ := (Machine.run_cons _ _ _ _ _).mp reached
    obtain ⟨grown, released⟩ := ih (living.step stepped) later
    obtain ⟨who, only, own⟩ := living.step_only stepped
    refine ⟨Nat.le_trans only.created grown, fun conn born held => ?_⟩
    rcases only.held conn (released conn (Nat.lt_of_lt_of_le born only.created) held) with before | same
    · exact before
    · exact own (Nat.lt_of_le_of_lt (Nat.le_trans only.created grown) few) conn same born

end Living

end ConnectionRegistry
end Webserver
