import Webserver.Proofs.ConnectionRetired

/-! No connection is forgotten: one that has left the map is destroyed, or waits for it in
the queue of its own loop, and the destructor of the server sees to the rest. -/

namespace Webserver
open Library

namespace ConnectionRegistry
variable {state next : ConnectionRegistry} {conn : Nat}

def Promised (state : ConnectionRegistry) (conn : Nat) : Prop :=
  Destroyed state.log conn ∨ .connectDestroyed conn ∈ (state.loops (state.connections conn).loop_).loop.waiting

structure Keeps (state next : ConnectionRegistry) : Prop where
  grows : Extends state next
  waiting : ∀ loop, (state.loops loop).loop.waiting ⊆ (next.loops loop).loop.waiting

theorem Keeps.trans {middle : ConnectionRegistry} (first : Keeps state middle) (second : Keeps middle next) :
    Keeps state next :=
  ⟨first.grows.trans second.grows, fun loop _ member => second.waiting loop (first.waiting loop member)⟩

theorem Promised.keep (promised : Promised state conn) (born : conn < state.created) (keeps : Keeps state next) :
    Promised next conn := by
  rcases promised with ⟨thread, destroyed⟩ | waits
  · exact .inl ⟨thread, keeps.grows.log _ destroyed⟩
  · rw [← keeps.grows.home conn born] at waits
    exact .inr (keeps.waiting _ waits)

private theorem keeps_onLoop (state : ConnectionRegistry) (loop : LoopRef) (change : ServerLoop → ServerLoop)
    (waiting : (state.loops loop).loop.waiting ⊆ (change (state.loops loop)).loop.waiting) :
    Keeps state (state.onLoop loop change) := by
  refine ⟨extends_onLoop state loop change, fun other => ?_⟩
  by_cases here : other = loop
  · subst here
    simpa only [onLoop, Function.update_self] using waiting
  · simp only [onLoop, Function.update_of_ne here]
    exact List.Subset.refl _

private theorem keeps_onConnection (state : ConnectionRegistry) (conn : Nat) (change : Connection → Connection)
    (home : (change (state.connections conn)).loop_ = (state.connections conn).loop_) :
    Keeps state (state.onConnection conn change) :=
  ⟨extends_onConnection state conn change home, fun _ => List.Subset.refl _⟩

private theorem keeps_record (state : ConnectionRegistry) (entry : Happening) : Keeps state (state.record entry) :=
  ⟨extends_record state entry, fun _ => List.Subset.refl _⟩

private theorem keeps_usePoller (state : ConnectionRegistry) (conn : Nat) (call : EPollPoller → EPollPoller × Channel) :
    Keeps state (state.usePoller conn call) := by
  unfold usePoller
  exact (keeps_onLoop state _ _ (List.Subset.refl _)).trans (keeps_onConnection _ conn _ rfl)

private theorem queueInLoop_waits (state : ConnectionRegistry) (thread loop : LoopRef) (cb : ServerFunctor) :
    ((state.queueInLoop thread loop cb).loops loop).loop.waiting = (state.loops loop).loop.waiting ++ [cb] := by
  simp only [queueInLoop, onLoop, Function.update_self, EventLoop.queueInLoop_waiting]

private theorem keeps_queueInLoop (state : ConnectionRegistry) (thread loop : LoopRef) (cb : ServerFunctor) :
    Keeps state (state.queueInLoop thread loop cb) := by
  apply keeps_onLoop
  rw [EventLoop.queueInLoop_waiting]
  exact List.subset_append_left _ _

private theorem keeps_setState (state : ConnectionRegistry) (conn : Nat) (value : StateE) :
    Keeps state (state.setState conn value) :=
  keeps_onConnection state conn _ rfl

private theorem keeps_enableReading (state : ConnectionRegistry) (conn : Nat) : Keeps state (state.enableReading conn) :=
  keeps_usePoller state conn _

private theorem keeps_disableAll (state : ConnectionRegistry) (conn : Nat) : Keeps state (state.disableAll conn) :=
  keeps_usePoller state conn _

private theorem keeps_connectEstablished (state : ConnectionRegistry) (thread : LoopRef) (conn : Nat) :
    Keeps state (state.connectEstablished thread conn) := by
  have established := (keeps_record state (.established conn thread)).trans (keeps_setState _ conn .kConnected)
  have tied : Keeps state (((state.record (.established conn thread)).setState conn .kConnected).tie conn) :=
    established.trans (keeps_onConnection _ conn _ rfl)
  exact tied.trans (keeps_enableReading _ conn)

private theorem keeps_connectDestroyed (state : ConnectionRegistry) (thread : LoopRef) (conn : Nat) :
    Keeps state (state.connectDestroyed thread conn) := by
  have entered := keeps_record state (.destroyed conn thread)
  unfold connectDestroyed
  dsimp only
  split
  · exact ((entered.trans (keeps_setState _ conn _)).trans (keeps_disableAll _ conn)).trans (keeps_usePoller _ conn _)
  · exact entered.trans (keeps_usePoller _ conn _)

private theorem keeps_removeConnectionInLoop (state : ConnectionRegistry) (thread : LoopRef) (conn : Nat) :
    Keeps state (state.removeConnectionInLoop thread conn) := by
  have erased : Keeps state ({ state with connections_ := state.connections_.erase (state.connections conn).name_ }.record
      (.removed conn)) := ⟨extends_erase state conn, fun _ => List.Subset.refl _⟩
  exact erased.trans (keeps_queueInLoop _ thread _ _)

private theorem queueInLoop_promised (state : ConnectionRegistry) (thread : LoopRef) (conn : Nat) :
    Promised (state.queueInLoop thread (state.connections conn).loop_ (.connectDestroyed conn)) conn := by
  right
  change _ ∈ ((state.queueInLoop thread (state.connections conn).loop_ _).loops (state.connections conn).loop_).loop.waiting
  rw [queueInLoop_waits]
  exact List.mem_append_right _ (List.mem_singleton_self _)

private theorem connectDestroyed_promised (state : ConnectionRegistry) (thread : LoopRef) (conn : Nat) :
    Promised (state.connectDestroyed thread conn) conn := by
  refine .inl ⟨thread, ?_⟩
  rw [connectDestroyed_log]
  exact List.mem_append_right _ (List.mem_singleton_self _)

theorem Registered.disabled (registered : Registered state) :
    Registered ((state.setState conn .kDisconnected).disableAll conn) := by
  have left : Registered (state.setState conn .kDisconnected) := registered.onConnection conn _ rfl
  unfold disableAll usePoller
  exact (left.onLoop _ _).onConnection conn _ rfl

private theorem keeps_execute (state : ConnectionRegistry) (thread : LoopRef) (cb : ServerFunctor) :
    Keeps state (state.execute thread cb) := by
  cases cb with
  | connectEstablished conn => exact keeps_connectEstablished state thread conn
  | connectDestroyed conn => exact keeps_connectDestroyed state thread conn
  | removeConnectionInLoop conn => exact keeps_removeConnectionInLoop state thread conn

private theorem execute_removed {thread : LoopRef} {cb : ServerFunctor}
    (member : .removed conn ∈ (state.execute thread cb).log) :
    .removed conn ∈ state.log ∨ Promised (state.execute thread cb) conn := by
  cases cb with
  | connectEstablished other =>
    change _ ∈ state.log ++ [_] at member
    exact .inl (by simpa using member)
  | connectDestroyed other =>
    rw [execute, connectDestroyed_log] at member
    exact .inl (by simpa using member)
  | removeConnectionInLoop other =>
    rcases List.mem_append.mp (show _ ∈ state.log ++ [_] from member) with old | new
    · exact .inl old
    · cases List.mem_singleton.mp new
      exact .inr (queueInLoop_promised _ thread conn)

/-- What has left the map is destroyed or will be. -/
def Owed (state : ConnectionRegistry) : Prop := ∀ conn, .removed conn ∈ state.log → Promised state conn

namespace Owed

theorem keep (owed : Owed state) (registered : Registered state) (keeps : Keeps state next)
    (removals : ∀ conn, .removed conn ∈ next.log → .removed conn ∈ state.log ∨ Promised next conn) : Owed next := by
  intro conn member
  rcases removals conn member with old | new
  · exact (owed conn old).keep (registered.removed conn old) keeps
  · exact new

theorem silent (owed : Owed state) (registered : Registered state) (keeps : Keeps state next) (log : next.log = state.log) :
    Owed next :=
  owed.keep registered keeps fun _ member => .inl (log ▸ member)

theorem removeConnection (owed : Owed state) (registered : Registered state) (thread : LoopRef) (conn : Nat) :
    Owed (state.removeConnection thread conn) := by
  unfold ConnectionRegistry.removeConnection runInLoop
  split
  · exact owed.keep registered (keeps_execute state thread _) fun other member => execute_removed member
  · exact owed.silent registered (keeps_queueInLoop state thread _ _) rfl

theorem handleClose (owed : Owed state) (registered : Registered state) (thread : LoopRef) (conn : Nat) :
    Owed (state.handleClose thread conn) := by
  have left := keeps_setState state conn .kDisconnected
  have disabled := owed.silent registered (left.trans (keeps_disableAll _ conn)) rfl
  exact disabled.removeConnection registered.disabled thread conn

theorem accepted (owed : Owed state) (registered : Registered state) (ioLoop : LoopRef) (sockfd : Nat) :
    Owed (state.accepted ioLoop sockfd) := by
  have inserted : Keeps state (state.insert (state.made ioLoop sockfd)) :=
    ⟨extends_insert state _, fun _ => List.Subset.refl _⟩
  unfold ConnectionRegistry.accepted runInLoop
  split
  · refine owed.keep registered (inserted.trans (keeps_connectEstablished _ .baseLoop _)) fun conn member => ?_
    change _ ∈ state.log ++ [_] ++ [_] at member
    exact .inl (by simpa using member)
  · refine owed.keep registered (inserted.trans (keeps_queueInLoop _ .baseLoop ioLoop _)) fun conn member => ?_
    change _ ∈ state.log ++ [_] at member
    exact .inl (by simpa using member)

theorem entered (owed : Owed state) (registered : Registered state) (loop : LoopRef) (conn : Nat) (revents : Mask)
    (rest : List (Nat × Mask)) : Owed (state.entered loop conn revents rest) := by
  have popped := keeps_onLoop state loop
    (fun serverLoop => { serverLoop with activeChannels_ := rest, current := some (conn, revents) }) (List.Subset.refl _)
  refine owed.keep registered (popped.trans (keeps_record _ (.handled conn loop))) fun other member => ?_
  change _ ∈ state.log ++ [_] at member
  exact .inl (by simpa using member)

theorem left (owed : Owed state) (registered : Registered state) (loop : LoopRef) : Owed (state.left loop) :=
  owed.silent registered (keeps_onLoop state loop _ (List.Subset.refl _)) rfl

theorem executed (owed : Owed state) (registered : Registered state) {loop : LoopRef} {cb : ServerFunctor}
    {rest : List ServerFunctor} (queue : (state.loops loop).loop.functors = cb :: rest) :
    Owed ((state.popped loop rest).execute loop cb) := by
  have kept := keeps_execute (state.popped loop rest) loop cb
  have waiting : (state.loops loop).loop.waiting = cb :: ((state.popped loop rest).loops loop).loop.waiting := by
    simp only [ConnectionRegistry.onLoop, Function.update_self, EventLoop.waiting, queue, List.cons_append]
  intro conn member
  rcases execute_removed member with old | new
  · have born := registered.removed conn old
    rcases owed conn old with ⟨thread, destroyed⟩ | waits
    · exact .inl ⟨thread, kept.grows.log _ destroyed⟩
    · by_cases here : (state.connections conn).loop_ = loop
      · rw [here, waiting] at waits
        rcases List.mem_cons.mp waits with same | later
        · rw [← same]
          exact connectDestroyed_promised (state.popped loop rest) loop conn
        · have home : ((state.popped loop rest).connections conn).loop_ = loop := here
          have promised : Promised (state.popped loop rest) conn := .inr (by rwa [home])
          exact promised.keep born kept
      · have promised : Promised (state.popped loop rest) conn := by
          right
          change _ ∈ ((state.popped loop rest).loops (state.connections conn).loop_).loop.waiting
          simpa only [ConnectionRegistry.onLoop, Function.update_of_ne here] using waits
        exact promised.keep born kept
  · exact new

theorem step (owed : Owed state) (registered : Registered state) (retiring : Retiring state) {event : RegistryEvent}
    (stepped : machine.step event state = some next) : Owed next := by
  cases step_cases stepped with
  | accepts sockfd _ ioLoop => exact owed.accepted registered ioLoop sockfd
  | polls loop => exact owed.silent registered (keeps_onLoop state loop _ (List.Subset.refl _)) rfl
  | enters loop conn revents rest => exact owed.entered registered loop conn revents rest
  | closes loop conn revents rest =>
    exact (owed.entered registered loop conn revents rest).handleClose
      ((registered.onLoop loop _).record fun other => by simp) loop conn
  | leaves loop => exact owed.left registered loop
  | ends loop closed conn => exact (owed.left registered loop).handleClose (registered.onLoop loop _) loop conn
  | swaps loop between =>
    have resting : (state.loops loop).loop.callingPendingFunctors_ = false := by
      simpa using (Bool.and_eq_true_iff.mp between).1
    have done : (state.loops loop).loop.functors = [] := by
      by_contra left
      cases resting.symm.trans ((retiring.retired loop).running left)
    refine owed.silent registered (keeps_onLoop state loop _ ?_) rfl
    rw [EventLoop.waiting, done]
    exact List.subset_append_left _ _
  | runs loop cb rest queue => exact owed.executed registered queue
  | finishes loop => exact owed.silent registered (keeps_onLoop state loop _ (List.Subset.refl _)) rfl

end Owed

private theorem runInLoop_destroys (state : ConnectionRegistry) (conn : Nat) :
    Keeps state (state.runInLoop .baseLoop (state.connections conn).loop_ (.connectDestroyed conn)) ∧
      Promised (state.runInLoop .baseLoop (state.connections conn).loop_ (.connectDestroyed conn)) conn := by
  unfold runInLoop
  split
  · exact ⟨keeps_execute state _ _, connectDestroyed_promised state _ conn⟩
  · exact ⟨keeps_queueInLoop state _ _ _, queueInLoop_promised state _ conn⟩

theorem destroy_spec {items : List Nat} (born : ∀ conn ∈ items, conn < state.created) :
    Keeps state (state.destroy items) ∧ ∀ conn ∈ items, Promised (state.destroy items) conn := by
  induction items generalizing state with
  | nil => exact ⟨⟨⟨Nat.le_refl _, fun _ _ => rfl, fun _ member => member⟩, fun _ => List.Subset.refl _⟩, by simp⟩
  | cons conn items ih =>
    obtain ⟨first, promised⟩ := runInLoop_destroys state conn
    have later : ∀ other ∈ items,
        other < (state.runInLoop .baseLoop (state.connections conn).loop_ (.connectDestroyed conn)).created :=
      fun other member => Nat.lt_of_lt_of_le (born other (List.mem_cons_of_mem _ member)) first.grows.created
    obtain ⟨rest, others⟩ := ih later
    refine ⟨first.trans rest, fun other member => ?_⟩
    rcases List.mem_cons.mp member with rfl | inside
    · exact promised.keep (Nat.lt_of_lt_of_le (born other List.mem_cons_self) first.grows.created) rest
    · exact others other inside

/-- The destructor destroys no connection again, and after it every connection ever made has
been destroyed or will be by a functor of its own loop. -/
theorem connections_released (listenAddr : InetAddress) (nameArg : String) (threadPool : EventLoopThreadPool)
    (events : List RegistryEvent) (state : ConnectionRegistry)
    (reached : machine.run events (new listenAddr nameArg threadPool) = some state) (few : state.created < 2147483648)
    (items : List Nat) (all : items.Perm (state.connections_.entries.map Sigma.snd)) :
    (∀ conn ∈ items, ¬Destroyed state.log conn) ∧
      ∀ conn < state.created, Destroyed (state.destroy items).log conn ∨ .connectDestroyed conn ∈
        ((state.destroy items).loops ((state.destroy items).connections conn).loop_).loop.waiting := by
  have preserved : ∀ event (before after : ConnectionRegistry), (Orderly before ∧ Retiring before) ∧ Owed before →
      machine.step event before = some after → (Orderly after ∧ Retiring after) ∧ Owed after :=
    fun _ _ _ held stepped => ⟨⟨held.1.1.step stepped, held.1.2.step held.1.1 stepped⟩,
      held.2.step held.1.1.registered held.1.2 stepped⟩
  have started : Owed (new listenAddr nameArg threadPool) := fun _ member => by cases member
  obtain ⟨⟨orderly, _⟩, owed⟩ := Machine.run_preserves preserved reached
    ⟨⟨new_orderly listenAddr nameArg threadPool, new_retiring listenAddr nameArg threadPool⟩, started⟩
  have listed : ∀ conn, conn ∈ items ↔ conn < state.created ∧ .removed conn ∉ state.log := by
    intro conn
    rw [all.mem_iff, List.mem_map]
    constructor
    · rintro ⟨⟨name, other⟩, member, rfl⟩
      obtain ⟨born, _, present⟩ := (orderly.registered.registered few name other).mp (AList.mem_lookup_iff.mpr member)
      exact ⟨born, present⟩
    · intro ⟨born, present⟩
      have found := (orderly.registered.registered few _ conn).mpr ⟨born, rfl, present⟩
      exact ⟨_, AList.mem_lookup_iff.mp found, rfl⟩
  obtain ⟨keeps, promised⟩ := destroy_spec fun conn member => ((listed conn).mp member).1
  constructor
  · rintro conn member ⟨thread, destroyed⟩
    obtain ⟨before, after, split⟩ := List.append_of_mem destroyed
    have removed := (orderly.ordered before _ after split).2
    exact ((listed conn).mp member).2 (split ▸ List.mem_append_left _ removed)
  · intro conn born
    by_cases removed : .removed conn ∈ state.log
    · exact (owed conn removed).keep born keeps
    · exact promised conn ((listed conn).mpr ⟨born, removed⟩)

/-- Of two connections one has left the map, and the server ends before it is destroyed. -/
theorem connections_released_two : ∃ state : ConnectionRegistry,
    machine.run [.newConnection 8 ⟨10, 0, 0, 1, 4000⟩, .newConnection 9 ⟨10, 0, 0, 2, 4001⟩, .swapFunctors (.subLoop 0),
      .runFunctor (.subLoop 0), .runFunctor (.subLoop 0), .endFunctors (.subLoop 0), .poll (.subLoop 0) [(0, EPOLLHUP)],
      .handleEvent (.subLoop 0), .handleRead (.subLoop 0) false, .swapFunctors .baseLoop, .runFunctor .baseLoop,
      .endFunctors .baseLoop]
      (new ⟨127, 0, 0, 1, 8080⟩ "http" ((EventLoopThreadPool.new "http" fun _ => 0).setThreadNum 1).start) = some state ∧
    state.created = 2 ∧ (∀ conn ∈ [1], ¬Destroyed state.log conn) ∧
    ∀ conn < state.created, Destroyed (state.destroy [1]).log conn ∨ .connectDestroyed conn ∈
      ((state.destroy [1]).loops ((state.destroy [1]).connections conn).loop_).loop.waiting := by
  have computed : (machine.run [.newConnection 8 ⟨10, 0, 0, 1, 4000⟩, .newConnection 9 ⟨10, 0, 0, 2, 4001⟩,
      .swapFunctors (.subLoop 0), .runFunctor (.subLoop 0), .runFunctor (.subLoop 0), .endFunctors (.subLoop 0),
      .poll (.subLoop 0) [(0, EPOLLHUP)], .handleEvent (.subLoop 0), .handleRead (.subLoop 0) false, .swapFunctors .baseLoop,
      .runFunctor .baseLoop, .endFunctors .baseLoop] (new ⟨127, 0, 0, 1, 8080⟩ "http"
        ((EventLoopThreadPool.new "http" fun _ => 0).setThreadNum 1).start)).map
      (fun state => (state.created, state.connections_.entries.map Sigma.snd)) = some (2, [1]) := by
    decide +kernel
  obtain ⟨state, reached, seen⟩ := Option.map_eq_some_iff.mp computed
  obtain ⟨created, items⟩ := Prod.mk.inj seen
  have released := connections_released _ _ _ _ state reached (by rw [created]; decide) [1] (by rw [items])
  exact ⟨state, reached, created, released⟩

end ConnectionRegistry
end Webserver
