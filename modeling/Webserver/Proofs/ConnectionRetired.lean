import Webserver.Proofs.ConnectionLifecycle

/-! A destroyed connection is out of reach: no poller has its channel, no loop is about
to handle it, and no event of it is handled any more. The poller and the list of active
channels hold plain pointers, so an event after the destruction would be a use of freed
memory. -/

namespace Webserver
open Library

theorem EPollPoller.updateChannel_enters {poller : EPollPoller} {channel : Channel} {fd address : Nat}
    (mapped : (poller.updateChannel channel).1.channels_ fd = some address) :
    poller.channels_ fd = some address ∨ fd = channel.fd_ ∧ address = channel.address := by
  by_cases same : fd = channel.fd_
  · exact (updateChannel_maps mapped).imp_right fun own => ⟨same, own⟩
  · rw [(updateChannel_elsewhere poller channel same).mapped] at mapped
    exact .inl mapped

theorem EPollPoller.removeChannel_leaves {poller : EPollPoller} {channel : Channel} {fd address : Nat}
    (mapped : (poller.removeChannel channel).1.channels_ fd = some address) :
    poller.channels_ fd = some address ∧ fd ≠ channel.fd_ := by
  refine ⟨removeChannel_erases mapped, ?_⟩
  rintro rfl
  have erased : (poller.removeChannel channel).1.channels_ channel.fd_ = none := removeChannel_maps poller channel
  cases erased.symm.trans mapped

namespace ConnectionRegistry

def Destroyed (log : List Happening) (conn : Nat) : Prop := ∃ thread, .destroyed conn thread ∈ log

/-- An event is handled only of a connection that is not destroyed. -/
def Unspoiled (before : List Happening) : Happening → Prop
  | .handled conn _ => ¬Destroyed before conn
  | _ => True

/-- What the loop holds is its own and not of `gone`, and it runs no functors while it
handles events. -/
structure Spares (gone : Nat → Prop) (state : ConnectionRegistry) (loop : LoopRef) (serverLoop : ServerLoop) : Prop where
  polled : ∀ fd conn, serverLoop.loop.poller_.channels_ fd = some conn →
    (state.connections conn).loop_ = loop ∧ (state.connections conn).channel_.fd_ = fd ∧ ¬gone conn
  active : ∀ event ∈ serverLoop.activeChannels_, (state.connections event.1).loop_ = loop ∧ ¬gone event.1
  current : ∀ event ∈ serverLoop.current, (state.connections event.1).loop_ = loop ∧ ¬gone event.1
  running : serverLoop.loop.functors ≠ [] → serverLoop.loop.callingPendingFunctors_ = true
  idle : serverLoop.loop.callingPendingFunctors_ = true → serverLoop.activeChannels_ = [] ∧ serverLoop.current = none

def Retired (gone : Nat → Prop) (state : ConnectionRegistry) : Prop := ∀ loop, Spares gone state loop (state.loops loop)

structure Retiring (state : ConnectionRegistry) : Prop where
  retired : Retired (Destroyed state.log) state
  unspoiled : Justified Unspoiled state.log

private theorem usePoller_calling (state : ConnectionRegistry) (conn : Nat) (call : EPollPoller → EPollPoller × Channel)
    (loop : LoopRef) : ((state.usePoller conn call).loops loop).loop.callingPendingFunctors_ =
      (state.loops loop).loop.callingPendingFunctors_ := by
  by_cases here : loop = (state.connections conn).loop_
  · subst here
    simp only [usePoller, ConnectionRegistry.onConnection, ConnectionRegistry.onLoop, Function.update_self]
  · simp only [usePoller, ConnectionRegistry.onConnection, ConnectionRegistry.onLoop, Function.update_of_ne here]

private theorem usePoller_home (state : ConnectionRegistry) (conn : Nat) (call : EPollPoller → EPollPoller × Channel) :
    ((state.usePoller conn call).connections conn).loop_ = (state.connections conn).loop_ := by
  simp only [usePoller, ConnectionRegistry.onConnection, ConnectionRegistry.onLoop, Function.update_self]

namespace Retired
variable {gone : Nat → Prop} {state : ConnectionRegistry}

theorem mono {fewer : Nat → Prop} (retired : Retired gone state) (weaker : ∀ conn, fewer conn → gone conn) :
    Retired fewer state := by
  intro loop
  obtain ⟨polled, active, current, running, idle⟩ := retired loop
  refine ⟨fun fd conn mapped => ?_, fun event member => ?_, fun event member => ?_, running, idle⟩
  · obtain ⟨home, own, spared⟩ := polled fd conn mapped
    exact ⟨home, own, fun lost => spared (weaker conn lost)⟩
  · exact (active event member).imp_right fun spared lost => spared (weaker event.1 lost)
  · exact (current event member).imp_right fun spared lost => spared (weaker event.1 lost)

theorem onLoop (retired : Retired gone state) (loop : LoopRef) (change : ServerLoop → ServerLoop)
    (spares : Spares gone state loop (change (state.loops loop))) : Retired gone (state.onLoop loop change) := by
  intro other
  by_cases here : other = loop
  · subst here
    simp only [ConnectionRegistry.onLoop, Function.update_self]
    exact ⟨spares.polled, spares.active, spares.current, spares.running, spares.idle⟩
  · simp only [ConnectionRegistry.onLoop, Function.update_of_ne here]
    have same := retired other
    exact ⟨same.polled, same.active, same.current, same.running, same.idle⟩

theorem onConnection (retired : Retired gone state) (conn : Nat) (change : Connection → Connection)
    (home : (change (state.connections conn)).loop_ = (state.connections conn).loop_)
    (fd : (change (state.connections conn)).channel_.fd_ = (state.connections conn).channel_.fd_) :
    Retired gone (state.onConnection conn change) := by
  have same : ∀ other, ((state.onConnection conn change).connections other).loop_ = (state.connections other).loop_ ∧
      ((state.onConnection conn change).connections other).channel_.fd_ = (state.connections other).channel_.fd_ := by
    intro other
    by_cases here : other = conn
    · subst here
      simp only [ConnectionRegistry.onConnection, Function.update_self]
      exact ⟨home, fd⟩
    · simp only [ConnectionRegistry.onConnection, Function.update_of_ne here, and_self]
  intro loop
  obtain ⟨polled, active, current, running, idle⟩ := retired loop
  refine ⟨fun fd other mapped => ?_, fun event member => ?_, fun event member => ?_, running, idle⟩
  · rw [(same other).1, (same other).2]
    exact polled fd other mapped
  · rw [(same event.1).1]
    exact active event member
  · rw [(same event.1).1]
    exact current event member

theorem setState (retired : Retired gone state) (conn : Nat) (value : StateE) : Retired gone (state.setState conn value) :=
  retired.onConnection conn _ rfl rfl

theorem tie (retired : Retired gone state) (conn : Nat) : Retired gone (state.tie conn) :=
  retired.onConnection conn _ rfl rfl

theorem record (retired : Retired gone state) (entry : Happening) : Retired gone (state.record entry) := by
  intro loop
  have same := retired loop
  exact ⟨same.polled, same.active, same.current, same.running, same.idle⟩

theorem queueInLoop (retired : Retired gone state) (thread loop : LoopRef) (cb : ServerFunctor) :
    Retired gone (state.queueInLoop thread loop cb) := by
  obtain ⟨polled, active, current, running, idle⟩ := retired loop
  refine retired.onLoop loop _ ⟨?_, active, current, ?_, ?_⟩
  · rwa [EventLoop.queueInLoop_poller]
  · rwa [EventLoop.queueInLoop_functors, EventLoop.queueInLoop_calling]
  · rwa [EventLoop.queueInLoop_calling]

theorem updateChannel (retired : Retired gone state) {conn : Nat} (spared : ¬gone conn) {channel : Channel}
    (address : channel.address = conn) (fd : channel.fd_ = (state.connections conn).channel_.fd_) :
    Retired gone (state.usePoller conn fun poller => poller.updateChannel channel) := by
  obtain ⟨polled, active, current, running, idle⟩ := retired (state.connections conn).loop_
  unfold ConnectionRegistry.usePoller
  refine onConnection (retired.onLoop _ _ ⟨?_, active, current, running, idle⟩) conn _ rfl ?_
  · intro number other mapped
    rcases EPollPoller.updateChannel_enters mapped with old | ⟨rfl, rfl⟩
    · exact polled number other old
    · rw [address]
      exact ⟨rfl, fd.symm, spared⟩
  · exact (EPollPoller.updateChannel_fd _ channel).trans fd

theorem enableReading (retired : Retired gone state) {conn : Nat} (spared : ¬gone conn)
    (address : (state.connections conn).channel_.address = conn) : Retired gone (state.enableReading conn) :=
  retired.updateChannel spared address rfl

theorem disableAll (retired : Retired gone state) {conn : Nat} (spared : ¬gone conn)
    (address : (state.connections conn).channel_.address = conn) : Retired gone (state.disableAll conn) :=
  retired.updateChannel spared address rfl

/-- The only loop that can have the connection handles no event, and its poller lets go of it. -/
theorem remove (retired : Retired gone state) {conn : Nat}
    (calling : (state.loops (state.connections conn).loop_).loop.callingPendingFunctors_ = true) :
    Retired (fun other => gone other ∨ other = conn) (state.remove conn) := by
  have home := retired (state.connections conn).loop_
  obtain ⟨none, handling⟩ := home.idle calling
  unfold ConnectionRegistry.remove ConnectionRegistry.usePoller
  refine onConnection ?_ conn _ rfl rfl
  intro loop
  by_cases here : loop = (state.connections conn).loop_
  · subst here
    simp only [ConnectionRegistry.onLoop, Function.update_self]
    refine ⟨fun fd other mapped => ?_, fun event member => ?_, fun event member => ?_, home.running, home.idle⟩
    · obtain ⟨old, apart⟩ := EPollPoller.removeChannel_leaves mapped
      obtain ⟨own, number, spared⟩ := home.polled fd other old
      refine ⟨own, number, ?_⟩
      rintro (lost | rfl)
      · exact spared lost
      · exact apart number.symm
    · cases none ▸ member
    · cases handling ▸ member
  · have away : ∀ other, (state.connections other).loop_ = loop → other ≠ conn := by
      rintro other own rfl
      exact here own.symm
    simp only [ConnectionRegistry.onLoop, Function.update_of_ne here]
    obtain ⟨polled, active, current, running, idle⟩ := retired loop
    refine ⟨fun fd other mapped => ?_, fun event member => ?_, fun event member => ?_, running, idle⟩
    · obtain ⟨own, number, spared⟩ := polled fd other mapped
      exact ⟨own, number, not_or.mpr ⟨spared, away other own⟩⟩
    · obtain ⟨own, spared⟩ := active event member
      exact ⟨own, not_or.mpr ⟨spared, away event.1 own⟩⟩
    · obtain ⟨own, spared⟩ := current event member
      exact ⟨own, not_or.mpr ⟨spared, away event.1 own⟩⟩

theorem removeConnectionInLoop (retired : Retired gone state) (thread : LoopRef) (conn : Nat) :
    Retired gone (state.removeConnectionInLoop thread conn) := by
  refine queueInLoop ?_ thread _ _
  intro loop
  have same := retired loop
  exact ⟨same.polled, same.active, same.current, same.running, same.idle⟩

theorem handleClose (retired : Retired gone state) (thread : LoopRef) {conn : Nat} (spared : ¬gone conn)
    (address : (state.connections conn).channel_.address = conn) : Retired gone (state.handleClose thread conn) := by
  have disabled : Retired gone ((state.setState conn .kDisconnected).disableAll conn) := by
    apply (retired.setState conn .kDisconnected).disableAll spared
    simpa only [ConnectionRegistry.setState, ConnectionRegistry.onConnection, Function.update_self] using address
  unfold ConnectionRegistry.handleClose removeConnection runInLoop
  split
  · exact disabled.removeConnectionInLoop thread conn
  · exact disabled.queueInLoop thread _ _

theorem connectEstablished (retired : Retired gone state) (thread : LoopRef) {conn : Nat} (spared : ¬gone conn)
    (address : (state.connections conn).channel_.address = conn) :
    Retired gone (state.connectEstablished thread conn) := by
  apply (((retired.record (.established conn thread)).setState conn .kConnected).tie conn).enableReading spared
  simpa only [ConnectionRegistry.record, ConnectionRegistry.setState, ConnectionRegistry.tie,
    ConnectionRegistry.onConnection, Function.update_self] using address

theorem connectDestroyed (retired : Retired gone state) {thread : LoopRef} {conn : Nat}
    (home : (state.connections conn).loop_ = thread)
    (address : (state.connections conn).channel_.address = conn)
    (calling : (state.loops thread).loop.callingPendingFunctors_ = true) :
    Retired (fun other => gone other ∨ other = conn) (state.connectDestroyed thread conn) := by
  subst home
  unfold ConnectionRegistry.connectDestroyed
  dsimp only
  split
  · have fewer : Retired (fun other => gone other ∧ other ≠ conn) state := retired.mono fun _ => And.left
    have left := (fewer.record (.destroyed conn (state.connections conn).loop_)).setState conn .kDisconnected
    have disabled := left.disableAll (fun lost => lost.2 rfl) (by
      simpa only [ConnectionRegistry.record, ConnectionRegistry.setState, ConnectionRegistry.onConnection,
        Function.update_self] using address)
    refine (disabled.remove ?_).mono fun other lost => ?_
    · unfold ConnectionRegistry.disableAll
      rw [usePoller_home, usePoller_calling]
      simpa only [ConnectionRegistry.record, ConnectionRegistry.setState, ConnectionRegistry.onConnection,
        Function.update_self] using calling
    · by_cases here : other = conn
      · exact .inr here
      · exact .inl ⟨lost.resolve_right here, here⟩
  · exact remove (retired.record _) calling

end Retired

theorem destroyed_append {log new : List Happening} (calm : ∀ entry ∈ new, entry.plain = false) {conn : Nat}
    (lost : Destroyed (log ++ new) conn) : Destroyed log conn := by
  obtain ⟨thread, member⟩ := lost
  refine ⟨thread, (List.mem_append.mp member).resolve_right fun added => ?_⟩
  cases calm _ added

private theorem unspoiled_append {log new : List Happening} (calm : ∀ entry ∈ new, entry.plain = false)
    (unspoiled : Justified Unspoiled log) : Justified Unspoiled (log ++ new) := by
  induction new generalizing log with
  | nil => rwa [List.append_nil]
  | cons entry new ih =>
    rw [List.append_cons]
    apply ih fun other member => calm other (List.mem_cons_of_mem _ member)
    refine justified_snoc.mpr ⟨unspoiled, ?_⟩
    have plain := calm entry List.mem_cons_self
    cases entry with
    | handled conn thread | destroyed conn thread => cases plain
    | _ => trivial

theorem removeConnection_log (state : ConnectionRegistry) (thread : LoopRef) (conn : Nat) :
    ∃ new, (state.removeConnection thread conn).log = state.log ++ new ∧ ∀ entry ∈ new, entry.plain = false := by
  unfold removeConnection runInLoop
  split
  · exact ⟨[.removed conn], rfl, List.forall_mem_singleton.mpr rfl⟩
  · exact ⟨[], (List.append_nil _).symm, fun _ member => by cases member⟩

theorem connectDestroyed_log (state : ConnectionRegistry) (thread : LoopRef) (conn : Nat) :
    (state.connectDestroyed thread conn).log = state.log ++ [.destroyed conn thread] := by
  unfold connectDestroyed
  dsimp only
  split <;> rfl

theorem Orderly.spared {state : ConnectionRegistry} (orderly : Orderly state) {loop : LoopRef} {conn : Nat}
    (waiting : .connectEstablished conn ∈ (state.loops loop).loop.waiting) : ¬Destroyed state.log conn := by
  have sound := orderly.loops loop
  obtain ⟨born, home⟩ := sound.due _ waiting
  rintro ⟨thread, member⟩
  obtain ⟨before, after, split⟩ := List.append_of_mem member
  obtain ⟨_, established⟩ := (orderly.ordered before _ after split).1
  have already : Established state.log conn := ⟨_, split ▸ List.mem_append_left _ established⟩
  have once := sound.once conn born home
  have first := countP_pos_iff.mpr already
  have second := List.count_pos_iff.mpr waiting
  omega

namespace Retiring
variable {state next : ConnectionRegistry}

theorem calm (retiring : Retiring state) (retired : Retired (Destroyed state.log) next)
    (log : ∃ new, next.log = state.log ++ new ∧ ∀ entry ∈ new, entry.plain = false) : Retiring next := by
  obtain ⟨new, same, calm⟩ := log
  refine ⟨retired.mono fun conn lost => ?_, ?_⟩
  · rw [same] at lost
    exact destroyed_append calm lost
  · rw [same]
    exact unspoiled_append calm retiring.unspoiled

theorem silent (retiring : Retiring state) (retired : Retired (Destroyed state.log) next) (log : next.log = state.log) :
    Retiring next := by
  refine retiring.calm retired ⟨[], log.trans (List.append_nil _).symm, ?_⟩
  intro entry member
  cases member

theorem handleClose (retiring : Retiring state) (thread : LoopRef) {conn : Nat} (spared : ¬Destroyed state.log conn)
    (address : (state.connections conn).channel_.address = conn) : Retiring (state.handleClose thread conn) :=
  retiring.calm (retiring.retired.handleClose thread spared address)
    (removeConnection_log ((state.setState conn .kDisconnected).disableAll conn) thread conn)

theorem insert (retiring : Retiring state) (orderly : Orderly state) (connection : Connection) :
    Retired (Destroyed state.log) (state.insert connection) := by
  intro loop
  have sound := orderly.loops loop
  obtain ⟨polled, active, current, running, idle⟩ := retiring.retired loop
  have kept : ∀ conn < state.created, (state.insert connection).connections conn = state.connections conn := by
    intro conn born
    simp only [ConnectionRegistry.insert, Function.update_of_ne (Nat.ne_of_lt born)]
  refine ⟨fun fd conn mapped => ?_, fun event member => ?_, fun event member => ?_, running, idle⟩
  · rw [kept conn (sound.polled fd conn mapped).born]
    exact polled fd conn mapped
  · rw [kept event.1 (sound.active event member).born]
    exact active event member
  · rw [kept event.1 (sound.current event member).born]
    exact current event member

theorem accepted (retiring : Retiring state) (orderly : Orderly state) (ioLoop : LoopRef) (sockfd : Nat) :
    Retiring (state.accepted ioLoop sockfd) := by
  have spared : ¬Destroyed state.log state.created := by
    intro ⟨thread, member⟩
    exact Nat.lt_irrefl _ (orderly.placed _ member state.created thread rfl).1
  have inserted := retiring.insert orderly (state.made ioLoop sockfd)
  unfold ConnectionRegistry.accepted runInLoop
  split
  · refine retiring.calm (inserted.connectEstablished .baseLoop spared ?_) ⟨[_, _], List.append_assoc _ [_] [_], ?_⟩
    · simp only [ConnectionRegistry.insert, Function.update_self]
      rfl
    · simp [Happening.plain]
  · refine retiring.calm (inserted.queueInLoop .baseLoop ioLoop _) ⟨[_], rfl, ?_⟩
    simp [Happening.plain]

/-- A loop handles only what has not been destroyed. -/
theorem entered (retiring : Retiring state) {loop : LoopRef} {conn : Nat} {revents : Mask} {rest : List (Nat × Mask)}
    (between : (state.loops loop).between = true) (first : (state.loops loop).activeChannels_ = (conn, revents) :: rest) :
    Retiring (state.entered loop conn revents rest) ∧ ¬Destroyed (state.entered loop conn revents rest).log conn := by
  obtain ⟨polled, active, _, running, _⟩ := retiring.retired loop
  have member : (conn, revents) ∈ (state.loops loop).activeChannels_ := first ▸ List.mem_cons_self
  have waits : (state.loops loop).loop.callingPendingFunctors_ = false := by
    simpa using (Bool.and_eq_true_iff.mp between).1
  have spared := active _ member
  have popped := retiring.retired.onLoop loop
    (fun serverLoop => { serverLoop with activeChannels_ := rest, current := some (conn, revents) })
    ⟨polled, fun event later => active event (first ▸ List.mem_cons_of_mem _ later),
      fun event here => (by cases here; exact spared), running, fun calling => absurd (waits.symm.trans calling) (by decide)⟩
  have known : ∀ other, Destroyed (state.log ++ [.handled conn loop]) other → Destroyed state.log other := by
    intro other ⟨thread, member⟩
    rcases List.mem_append.mp member with old | new
    · exact ⟨thread, old⟩
    · cases List.mem_singleton.mp new
  exact ⟨⟨(popped.record _).mono known, justified_snoc.mpr ⟨retiring.unspoiled, spared.2⟩⟩,
    fun lost => spared.2 (known conn lost)⟩

theorem left (retiring : Retiring state) (loop : LoopRef) : Retiring (state.left loop) := by
  obtain ⟨polled, active, current, running, idle⟩ := retiring.retired loop
  refine retiring.silent (retiring.retired.onLoop loop _ ⟨polled, active, ?_, running, ?_⟩) rfl
  · intro other here
    cases here
  · exact fun calling => ⟨(idle calling).1, rfl⟩

/-- The functor establishes only what has not been, and destroys on the connection's own loop. -/
theorem executed (retiring : Retiring state) (orderly : Orderly state) {loop : LoopRef} {cb : ServerFunctor}
    {rest : List ServerFunctor} (queue : (state.loops loop).loop.functors = cb :: rest) :
    Retiring ((state.popped loop rest).execute loop cb) := by
  have sound := orderly.loops loop
  obtain ⟨polled, active, current, running, idle⟩ := retiring.retired loop
  have calling : (state.loops loop).loop.callingPendingFunctors_ = true := running (by rw [queue]; exact List.cons_ne_nil _ _)
  have waiting : cb ∈ (state.loops loop).loop.waiting := by
    rw [EventLoop.waiting, queue]
    exact List.mem_cons_self
  have popped := retiring.retired.onLoop loop
    (fun serverLoop => { serverLoop with loop := { serverLoop.loop with functors := rest } })
    ⟨polled, active, current, fun _ => calling, idle⟩
  cases cb with
  | connectEstablished conn =>
    have born := (sound.due _ waiting).1
    have spared := orderly.spared waiting
    refine retiring.calm (popped.connectEstablished loop spared (orderly.addressed conn born)) ⟨[_], rfl, ?_⟩
    exact List.forall_mem_singleton.mpr rfl
  | connectDestroyed conn =>
    obtain ⟨tied, _⟩ := sound.due _ waiting
    have destroyed := popped.connectDestroyed tied.home (orderly.addressed conn tied.born) (by
      simpa only [ConnectionRegistry.onLoop, Function.update_self] using calling)
    refine ⟨destroyed.mono fun other lost => ?_, ?_⟩
    · rw [ConnectionRegistry.execute, connectDestroyed_log] at lost
      obtain ⟨thread, member⟩ := lost
      rcases List.mem_append.mp member with old | new
      · exact .inl ⟨thread, old⟩
      · cases List.mem_singleton.mp new
        exact .inr rfl
    · rw [ConnectionRegistry.execute, connectDestroyed_log]
      exact justified_snoc.mpr ⟨retiring.unspoiled, trivial⟩
  | removeConnectionInLoop conn =>
    refine retiring.calm (popped.removeConnectionInLoop loop conn) ⟨[_], rfl, ?_⟩
    exact List.forall_mem_singleton.mpr rfl

theorem step (retiring : Retiring state) (orderly : Orderly state) {event : RegistryEvent}
    (stepped : machine.step event state = some next) : Retiring next := by
  cases step_cases stepped with
  | accepts sockfd _ ioLoop => exact retiring.accepted orderly ioLoop sockfd
  | polls loop active between _ reported =>
    obtain ⟨polled, active, current, running, idle⟩ := retiring.retired loop
    refine retiring.silent (retiring.retired.onLoop loop _ ⟨polled, ?_, current, running, ?_⟩) rfl
    · intro event member
      obtain ⟨home, _, spared⟩ := polled _ _ (reported event member).1
      exact ⟨home, spared⟩
    · intro calling
      rw [ServerLoop.between, calling] at between
      cases between
  | enters loop conn revents rest between first => exact (retiring.entered between first).1
  | closes loop conn revents rest between first =>
    obtain ⟨entered, spared⟩ := retiring.entered between first
    have born := ((orderly.loops loop).active _ (first ▸ List.mem_cons_self)).born
    exact entered.handleClose loop spared (orderly.addressed conn born)
  | leaves loop => exact retiring.left loop
  | ends loop closed conn revents inside =>
    have born := ((orderly.loops loop).current _ inside).born
    exact (retiring.left loop).handleClose loop ((retiring.retired loop).current _ inside).2 (orderly.addressed conn born)
  | swaps loop between handled =>
    obtain ⟨polled, active, current, running, idle⟩ := retiring.retired loop
    refine retiring.silent (retiring.retired.onLoop loop _ ⟨polled, active, current, fun _ => rfl, fun _ => ⟨handled, ?_⟩⟩) rfl
    exact Option.isNone_iff_eq_none.mp (Bool.and_eq_true_iff.mp between).2
  | runs loop cb rest queue => exact retiring.executed orderly queue
  | finishes loop calling finished =>
    obtain ⟨polled, active, current, running, idle⟩ := retiring.retired loop
    refine retiring.silent (retiring.retired.onLoop loop _ ⟨polled, active, current, ?_, ?_⟩) rfl
    · exact fun more => absurd finished more
    · intro calling
      cases calling

end Retiring

theorem new_retiring (listenAddr : InetAddress) (nameArg : String) (threadPool : EventLoopThreadPool) :
    Retiring (new listenAddr nameArg threadPool) := by
  refine ⟨fun loop => ⟨?_, ?_, ?_, ?_, ?_⟩, justified_nil _⟩
  · intro fd conn mapped
    cases mapped
  · intro event member
    cases member
  · intro event member
    cases member
  · intro left
    exact absurd rfl left
  · intro calling
    cases calling

end ConnectionRegistry
end Webserver
