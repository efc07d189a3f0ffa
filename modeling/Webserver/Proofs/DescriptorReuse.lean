import Webserver.Proofs.ConnectionLifetime

/-! Descriptors are used again once their connection is gone. No two connections share one
at any time, so a poller never takes the channel of one connection for that of another, the
kernel accepts all that it is asked, and it watches every connection that is up. -/

namespace Webserver
open Library

namespace ConnectionRegistry
variable {state next : ConnectionRegistry}

/-- The three records of every registration agree for the `live` connections, which have
descriptors of their own, and the kernel watches nothing that a poller does not know. -/
structure Enrolled (live : Nat → Prop) (state : ConnectionRegistry) : Prop where
  apart : ∀ i j, live i → live j →
    (state.connections i).channel_.fd_ = (state.connections j).channel_.fd_ → i = j
  tracks : ∀ conn, live conn →
    (state.loops (state.connections conn).loop_).loop.poller_.Tracks (state.connections conn).channel_
  maps : ∀ conn, live conn →
    (state.loops (state.connections conn).loop_).loop.poller_.Maps (state.connections conn).channel_
  known : ∀ loop fd, ((state.loops loop).loop.poller_.epollfd_ fd).isSome = true →
    ((state.loops loop).loop.poller_.channels_ fd).isSome = true
  sound : ∀ loop, (state.loops loop).loop.poller_.fatal = false

namespace Enrolled
variable {live : Nat → Prop}

theorem mono {fewer : Nat → Prop} (enrolled : Enrolled live state) (weaker : ∀ conn, fewer conn → live conn) :
    Enrolled fewer state where
  apart i j first second := enrolled.apart i j (weaker i first) (weaker j second)
  tracks conn alive := enrolled.tracks conn (weaker conn alive)
  maps conn alive := enrolled.maps conn (weaker conn alive)
  known := enrolled.known
  sound := enrolled.sound

theorem same (enrolled : Enrolled live state) (pollers : ∀ loop, (next.loops loop).loop.poller_ = (state.loops loop).loop.poller_)
    (channels : ∀ conn, live conn → (next.connections conn).loop_ = (state.connections conn).loop_ ∧
      ∃ tied, (next.connections conn).channel_ = { (state.connections conn).channel_ with tied_ := tied }) :
    Enrolled live next where
  apart i j first second := by
    obtain ⟨_, _, left⟩ := channels i first
    obtain ⟨_, _, right⟩ := channels j second
    rw [left, right]
    exact enrolled.apart i j first second
  tracks conn alive := by
    obtain ⟨home, _, channel⟩ := channels conn alive
    rw [home, channel, pollers]
    exact enrolled.tracks conn alive
  maps conn alive := by
    obtain ⟨home, _, channel⟩ := channels conn alive
    rw [home, channel, pollers]
    exact enrolled.maps conn alive
  known loop fd := by
    rw [pollers]
    exact enrolled.known loop fd
  sound loop := by
    rw [pollers]
    exact enrolled.sound loop

theorem onLoop (enrolled : Enrolled live state) (loop : LoopRef) (change : ServerLoop → ServerLoop)
    (poller : (change (state.loops loop)).loop.poller_ = (state.loops loop).loop.poller_) :
    Enrolled live (state.onLoop loop change) := by
  apply enrolled.same
  · intro other
    by_cases here : other = loop
    · subst here
      simpa only [ConnectionRegistry.onLoop, Function.update_self] using poller
    · simp only [ConnectionRegistry.onLoop, Function.update_of_ne here]
  · exact fun conn _ => ⟨rfl, _, rfl⟩

theorem onConnection (enrolled : Enrolled live state) (conn : Nat) (change : Connection → Connection)
    (home : (change (state.connections conn)).loop_ = (state.connections conn).loop_)
    (channel : ∃ tied, (change (state.connections conn)).channel_ = { (state.connections conn).channel_ with tied_ := tied }) :
    Enrolled live (state.onConnection conn change) := by
  apply enrolled.same
  · exact fun _ => rfl
  · intro other _
    by_cases here : other = conn
    · subst here
      simp only [ConnectionRegistry.onConnection, Function.update_self]
      exact ⟨home, channel⟩
    · refine ⟨?_, (state.connections other).channel_.tied_, ?_⟩ <;>
        simp only [ConnectionRegistry.onConnection, Function.update_of_ne here]

theorem setState (enrolled : Enrolled live state) (conn : Nat) (value : StateE) : Enrolled live (state.setState conn value) :=
  enrolled.onConnection conn _ rfl ⟨_, rfl⟩

theorem tie (enrolled : Enrolled live state) (conn : Nat) : Enrolled live (state.tie conn) :=
  enrolled.onConnection conn _ rfl ⟨_, rfl⟩

theorem record (enrolled : Enrolled live state) (entry : Happening) : Enrolled live (state.record entry) :=
  enrolled.same (fun _ => rfl) fun _ _ => ⟨rfl, _, rfl⟩

theorem queueInLoop (enrolled : Enrolled live state) (thread loop : LoopRef) (cb : ServerFunctor) :
    Enrolled live (state.queueInLoop thread loop cb) :=
  enrolled.onLoop loop _ (EventLoop.queueInLoop_poller _ _ _)

/-- A call into the poller keeps the records of its channel together and leaves other
descriptors alone. -/
theorem usePoller (enrolled : Enrolled live state) {conn : Nat} (own : live conn)
    (call : EPollPoller → EPollPoller × Channel)
    (fd : (call (state.loops (state.connections conn).loop_).loop.poller_).2.fd_ = (state.connections conn).channel_.fd_)
    (tracks : (call (state.loops (state.connections conn).loop_).loop.poller_).1.Tracks
      (call (state.loops (state.connections conn).loop_).loop.poller_).2)
    (maps : (call (state.loops (state.connections conn).loop_).loop.poller_).1.Maps
      (call (state.loops (state.connections conn).loop_).loop.poller_).2)
    (sound : (call (state.loops (state.connections conn).loop_).loop.poller_).1.fatal = false)
    (elsewhere : ∀ other, other ≠ (state.connections conn).channel_.fd_ →
      EPollPoller.Elsewhere (state.loops (state.connections conn).loop_).loop.poller_
        (call (state.loops (state.connections conn).loop_).loop.poller_).1 other) :
    Enrolled live (state.usePoller conn call) := by
  let result := call (state.loops (state.connections conn).loop_).loop.poller_
  have pollers : ∀ loop, ((state.usePoller conn call).loops loop).loop.poller_ =
      if loop = (state.connections conn).loop_ then result.1 else (state.loops loop).loop.poller_ := by
    intro loop
    by_cases here : loop = (state.connections conn).loop_
    · subst here
      simp only [ConnectionRegistry.usePoller, ConnectionRegistry.onConnection, ConnectionRegistry.onLoop,
        Function.update_self, if_true, result]
    · simp only [ConnectionRegistry.usePoller, ConnectionRegistry.onConnection, ConnectionRegistry.onLoop,
        Function.update_of_ne here, if_neg here]
  have self : (state.usePoller conn call).connections conn = { state.connections conn with channel_ := result.2 } := by
    simp only [ConnectionRegistry.usePoller, ConnectionRegistry.onConnection, ConnectionRegistry.onLoop, Function.update_self,
      result]
  have others : ∀ other, other ≠ conn → (state.usePoller conn call).connections other = state.connections other := by
    intro other here
    simp only [ConnectionRegistry.usePoller, ConnectionRegistry.onConnection, ConnectionRegistry.onLoop,
      Function.update_of_ne here]
  have fds : ∀ other, ((state.usePoller conn call).connections other).channel_.fd_ = (state.connections other).channel_.fd_ := by
    intro other
    by_cases here : other = conn
    · rw [here, self]
      exact fd
    · rw [others other here]
  have kept : ∀ other, other ≠ conn → live other →
      EPollPoller.Elsewhere (state.loops (state.connections other).loop_).loop.poller_
        ((state.usePoller conn call).loops (state.connections other).loop_).loop.poller_
        (state.connections other).channel_.fd_ := by
    intro other here alive
    rw [pollers]
    split
    next home =>
      rw [home]
      exact elsewhere _ fun clash => here (enrolled.apart other conn alive own clash)
    next => exact ⟨rfl, rfl⟩
  refine ⟨fun i j first second => ?_, fun other alive => ?_, fun other alive => ?_, fun loop number => ?_, fun loop => ?_⟩
  · rw [fds, fds]
    exact enrolled.apart i j first second
  · by_cases here : other = conn
    · rw [here, self, pollers, if_pos rfl]
      exact tracks
    · rw [others other here]
      exact (kept other here alive).registered.trans (enrolled.tracks other alive)
  · by_cases here : other = conn
    · rw [here, self, pollers, if_pos rfl]
      exact maps
    · rw [others other here]
      exact (kept other here alive).mapped.trans (enrolled.maps other alive)
  · rw [pollers]
    split
    next home =>
      subst home
      by_cases here : number = (state.connections conn).channel_.fd_
      · intro watched
        rw [here, ← fd] at watched ⊢
        have added := tracks.registered_iff.mp watched
        rw [EPollPoller.Maps, added, if_neg (by simp)] at maps
        exact Option.isSome_iff_exists.mpr ⟨_, maps⟩
      · rw [(elsewhere number here).registered, (elsewhere number here).mapped]
        exact enrolled.known _ number
    next => exact enrolled.known loop number
  · rw [pollers]
    split
    · exact sound
    · exact enrolled.sound loop

theorem updateChannel (enrolled : Enrolled live state) {conn : Nat} (own : live conn) (events : Mask) :
    Enrolled live (state.usePoller conn fun poller =>
      poller.updateChannel { (state.connections conn).channel_ with events_ := events }) := by
  have tracks := enrolled.tracks conn own
  apply enrolled.usePoller own
  · exact EPollPoller.updateChannel_fd _ _
  · exact tracks.updateChannel events
  · exact (enrolled.maps conn own).updateChannel events
  · rw [EPollPoller.updateChannel_poller, EPollPoller.update_fatal (tracks.update_legal events)]
    exact enrolled.sound _
  · exact fun other apart => EPollPoller.updateChannel_elsewhere _ _ apart

theorem enableReading (enrolled : Enrolled live state) {conn : Nat} (own : live conn) : Enrolled live (state.enableReading conn) :=
  enrolled.updateChannel own _

theorem disableAll (enrolled : Enrolled live state) {conn : Nat} (own : live conn) : Enrolled live (state.disableAll conn) :=
  enrolled.updateChannel own _

theorem remove (enrolled : Enrolled live state) {conn : Nat} (own : live conn) : Enrolled live (state.remove conn) := by
  apply enrolled.usePoller own
  · rfl
  · exact (enrolled.tracks conn own).removeChannel
  · exact EPollPoller.removeChannel_maps _ _
  · exact (EPollPoller.removeChannel_fatal _ _).trans (enrolled.sound _)
  · exact fun other apart => EPollPoller.removeChannel_elsewhere _ _ apart

theorem connectEstablished (enrolled : Enrolled live state) (thread : LoopRef) {conn : Nat} (own : live conn) :
    Enrolled live (state.connectEstablished thread conn) :=
  (((enrolled.record (.established conn thread)).setState conn .kConnected).tie conn).enableReading own

theorem connectDestroyed (enrolled : Enrolled live state) (thread : LoopRef) {conn : Nat} (own : live conn) :
    Enrolled live (state.connectDestroyed thread conn) := by
  have entered := enrolled.record (.destroyed conn thread)
  unfold ConnectionRegistry.connectDestroyed
  dsimp only
  split
  · exact ((entered.setState conn .kDisconnected).disableAll own).remove own
  · exact entered.remove own

theorem removeConnectionInLoop (enrolled : Enrolled live state) (thread : LoopRef) (conn : Nat) :
    Enrolled live (state.removeConnectionInLoop thread conn) := by
  apply queueInLoop
  exact enrolled.same (fun _ => rfl) fun _ _ => ⟨rfl, _, rfl⟩

theorem execute (enrolled : Enrolled live state) (thread : LoopRef) {cb : ServerFunctor} (own : live cb.conn) :
    Enrolled live (state.execute thread cb) := by
  cases cb with
  | connectEstablished conn => exact enrolled.connectEstablished thread own
  | connectDestroyed conn => exact enrolled.connectDestroyed thread own
  | removeConnectionInLoop conn => exact enrolled.removeConnectionInLoop thread conn

theorem runInLoop (enrolled : Enrolled live state) (thread loop : LoopRef) (cb : ServerFunctor) (own : live cb.conn) :
    Enrolled live (state.runInLoop thread loop cb) := by
  unfold ConnectionRegistry.runInLoop
  split
  · exact enrolled.execute thread own
  · exact enrolled.queueInLoop thread loop cb

theorem handleClose (enrolled : Enrolled live state) (thread : LoopRef) {conn : Nat} (own : live conn) :
    Enrolled live (state.handleClose thread conn) :=
  ((enrolled.setState conn .kDisconnected).disableAll own).runInLoop thread .baseLoop (.removeConnectionInLoop conn) own

/-- A connection enters with a descriptor that no live one has. Its pollers know only those. -/
theorem insert (enrolled : Enrolled live state) (connection : Connection) (fresh : connection.channel_.index_ = .kNew)
    (free : ∀ conn, live conn → (state.connections conn).channel_.fd_ ≠ connection.channel_.fd_)
    (born : ∀ conn, live conn → conn < state.created)
    (polled : ∀ loop fd conn, (state.loops loop).loop.poller_.channels_ fd = some conn →
      live conn ∧ (state.connections conn).channel_.fd_ = fd) :
    Enrolled (fun conn => live conn ∨ conn = state.created) (state.insert connection) := by
  have self : (state.insert connection).connections state.created = connection := by
    simp only [ConnectionRegistry.insert, Function.update_self]
  have others : ∀ conn, live conn → (state.insert connection).connections conn = state.connections conn := by
    intro conn alive
    simp only [ConnectionRegistry.insert, Function.update_of_ne (Nat.ne_of_lt (born conn alive))]
  have unknown : ∀ loop, (state.loops loop).loop.poller_.channels_ connection.channel_.fd_ = none := by
    intro loop
    by_contra mapped
    obtain ⟨conn, mapped⟩ := Option.ne_none_iff_exists'.mp mapped
    obtain ⟨alive, same⟩ := polled loop _ conn mapped
    exact free conn alive same
  refine ⟨fun i j first second => ?_, fun conn alive => ?_, fun conn alive => ?_, enrolled.known, enrolled.sound⟩
  · rcases first with first | rfl
    · rcases second with second | rfl
      · rw [others i first, others j second]
        exact enrolled.apart i j first second
      · rw [others i first, self]
        exact fun clash => absurd clash (free i first)
    · rcases second with second | rfl
      · rw [others j second, self]
        exact fun clash => absurd clash.symm (free j second)
      · exact fun _ => rfl
  · rcases alive with alive | rfl
    · rw [others conn alive]
      exact enrolled.tracks conn alive
    · rw [self, EPollPoller.Tracks, fresh, if_neg (by simp)]
      by_contra watched
      have known := enrolled.known connection.loop_ connection.channel_.fd_ (Option.isSome_iff_ne_none.mpr watched)
      rw [unknown] at known
      cases known
  · rcases alive with alive | rfl
    · rw [others conn alive]
      exact enrolled.maps conn alive
    · rw [self, EPollPoller.Maps, fresh, if_pos rfl]
      exact unknown connection.loop_

end Enrolled

private theorem enableReading_channel (state : ConnectionRegistry) (conn : Nat) :
    ((state.enableReading conn).connections conn).channel_.index_ = .kAdded ∧
      ((state.enableReading conn).connections conn).channel_.isReading = true := by
  let channel := (state.connections conn).channel_.enableReading
  let poller := (state.loops (state.connections conn).loop_).loop.poller_
  have updated : ((state.enableReading conn).connections conn).channel_ = (poller.updateChannel channel).2 := by
    simp only [enableReading, usePoller, onConnection, onLoop, Function.update_self, channel, poller]
  have reads : channel.isReading = true := Channel.isReading_enableReading _ _ rfl
  rw [updated]
  refine ⟨(EPollPoller.updateChannel_added poller channel).mpr ?_, ?_⟩
  · rintro ⟨_, none⟩
    rw [Channel.isReading, none] at reads
    exact absurd reads (by decide)
  · rwa [Channel.isReading, EPollPoller.updateChannel_events]

/-- A connection that is up is registered for reading, and it has not been destroyed. -/
def Watching (state : ConnectionRegistry) : Prop :=
  ∀ conn, (state.connections conn).state_ = .kConnected → (state.connections conn).channel_.index_ = .kAdded ∧
    (state.connections conn).channel_.isReading = true ∧ ¬Destroyed state.log conn

namespace Watching

theorem change (watching : Watching state) (conn : Nat)
    (others : ∀ other, other ≠ conn → next.connections other = state.connections other)
    (log : ∀ other, Destroyed next.log other → Destroyed state.log other ∨ other = conn)
    (own : (next.connections conn).state_ = .kConnected → (next.connections conn).channel_.index_ = .kAdded ∧
      (next.connections conn).channel_.isReading = true ∧ ¬Destroyed next.log conn) : Watching next := by
  intro other connected
  by_cases here : other = conn
  · subst here
    exact own connected
  · rw [others other here] at connected ⊢
    obtain ⟨added, reading, alive⟩ := watching other connected
    exact ⟨added, reading, fun lost => (log other lost).elim alive here⟩

theorem same (watching : Watching state) (connections : next.connections = state.connections)
    (log : ∀ conn, Destroyed next.log conn → Destroyed state.log conn) : Watching next := by
  intro conn connected
  rw [connections] at connected ⊢
  obtain ⟨added, reading, alive⟩ := watching conn connected
  exact ⟨added, reading, fun lost => alive (log conn lost)⟩

theorem removeConnection (watching : Watching state) (thread : LoopRef) (conn : Nat) :
    Watching (state.removeConnection thread conn) := by
  apply watching.same
  · unfold ConnectionRegistry.removeConnection runInLoop
    split <;> rfl
  · obtain ⟨new, grown, calm⟩ := removeConnection_log state thread conn
    rw [grown]
    exact fun _ => destroyed_append calm

theorem disabled (watching : Watching state) (conn : Nat) : Watching ((state.setState conn .kDisconnected).disableAll conn) := by
  apply watching.change conn
  · intro other apart
    simp only [ConnectionRegistry.disableAll, usePoller, ConnectionRegistry.setState, onConnection, onLoop,
      Function.update_of_ne apart]
  · exact fun _ lost => .inl lost
  · intro connected
    simp only [ConnectionRegistry.disableAll, usePoller, ConnectionRegistry.setState, onConnection, onLoop,
      Function.update_self] at connected
    cases connected

theorem handleClose (watching : Watching state) (thread : LoopRef) (conn : Nat) : Watching (state.handleClose thread conn) :=
  (watching.disabled conn).removeConnection thread conn

theorem connectEstablished (watching : Watching state) (thread : LoopRef) {conn : Nat} (spared : ¬Destroyed state.log conn) :
    Watching (state.connectEstablished thread conn) := by
  have calm : ∀ entry ∈ [Happening.established conn thread], entry.plain = false := List.forall_mem_singleton.mpr rfl
  apply watching.change conn
  · intro other apart
    simp only [ConnectionRegistry.connectEstablished, enableReading, usePoller, tie, ConnectionRegistry.setState, onConnection,
      onLoop, ConnectionRegistry.record, Function.update_of_ne apart]
  · exact fun _ lost => .inl (destroyed_append calm lost)
  · obtain ⟨added, reading⟩ := enableReading_channel
      (((state.record (.established conn thread)).setState conn .kConnected).tie conn) conn
    exact fun _ => ⟨added, reading, fun lost => spared (destroyed_append calm lost)⟩

theorem connectDestroyed (watching : Watching state) (thread : LoopRef) (conn : Nat) :
    Watching (state.connectDestroyed thread conn) := by
  apply watching.change conn
  · intro other apart
    simp only [ConnectionRegistry.connectDestroyed]
    split <;>
      simp only [ConnectionRegistry.disableAll, remove, usePoller, ConnectionRegistry.setState, onConnection, onLoop,
        ConnectionRegistry.record, Function.update_of_ne apart]
  · intro other
    rw [connectDestroyed_log]
    rintro ⟨loop, member⟩
    rcases List.mem_append.mp member with old | new
    · exact .inl ⟨loop, old⟩
    · cases List.mem_singleton.mp new
      exact .inr rfl
  · intro connected
    simp only [ConnectionRegistry.connectDestroyed] at connected
    split at connected
    · simp only [ConnectionRegistry.disableAll, remove, usePoller, ConnectionRegistry.setState, onConnection, onLoop,
        Function.update_self] at connected
      cases connected
    next other =>
      simp only [remove, usePoller, onConnection, onLoop, Function.update_self] at connected
      exact absurd connected other

theorem insert (watching : Watching state) (connection : Connection) (connecting : connection.state_ = .kConnecting) :
    Watching (state.insert connection) := by
  have calm : ∀ entry ∈ [Happening.created state.created (connection.name_ ∈ state.connections_)], entry.plain = false :=
    List.forall_mem_singleton.mpr rfl
  apply watching.change state.created
  · intro other apart
    simp only [ConnectionRegistry.insert, Function.update_of_ne apart]
  · exact fun _ lost => .inl (destroyed_append calm lost)
  · intro connected
    simp only [ConnectionRegistry.insert, Function.update_self, connecting] at connected
    cases connected

theorem execute (watching : Watching state) (thread : LoopRef) {cb : ServerFunctor}
    (spared : ∀ conn, cb = .connectEstablished conn → ¬Destroyed state.log conn) : Watching (state.execute thread cb) := by
  cases cb with
  | connectEstablished conn => exact watching.connectEstablished thread (spared conn rfl)
  | connectDestroyed conn => exact watching.connectDestroyed thread conn
  | removeConnectionInLoop conn =>
    have calm : ∀ entry ∈ [Happening.removed conn], entry.plain = false := List.forall_mem_singleton.mpr rfl
    exact watching.same rfl fun _ => destroyed_append calm

theorem accepted (watching : Watching state) (orderly : Orderly state) (ioLoop : LoopRef) (sockfd : Nat) :
    Watching (state.accepted ioLoop sockfd) := by
  have inserted := watching.insert (state.made ioLoop sockfd) rfl
  unfold ConnectionRegistry.accepted runInLoop
  split
  · apply inserted.execute
    rintro _ ⟨⟩ lost
    rcases lost with ⟨thread, member⟩
    rcases List.mem_append.mp (show _ ∈ state.log ++ [_] from member) with old | new
    · exact Nat.lt_irrefl _ (orderly.placed _ old state.created thread rfl).1
    · cases List.mem_singleton.mp new
  · exact inserted.same rfl fun _ => id

theorem entered (watching : Watching state) (loop : LoopRef) (conn : Nat) (revents : Mask) (rest : List (Nat × Mask)) :
    Watching (state.entered loop conn revents rest) := by
  refine watching.same rfl ?_
  rintro other ⟨thread, member⟩
  rcases List.mem_append.mp member with old | new
  · exact ⟨thread, old⟩
  · cases List.mem_singleton.mp new

theorem step (watching : Watching state) (living : Living state) {event : RegistryEvent}
    (stepped : machine.step event state = some next) : Watching next := by
  have left (loop : LoopRef) : Watching (state.left loop) := watching.same rfl fun _ => id
  cases step_cases stepped with
  | accepts sockfd _ ioLoop => exact watching.accepted living.orderly ioLoop sockfd
  | polls | swaps | finishes => exact watching.same rfl fun _ => id
  | enters loop conn revents rest => exact watching.entered loop conn revents rest
  | closes loop conn revents rest => exact (watching.entered loop conn revents rest).handleClose loop conn
  | leaves loop => exact left loop
  | ends loop closed conn => exact (left loop).handleClose loop conn
  | runs loop cb rest queue =>
    have popped : Watching (state.popped loop rest) := watching.same rfl fun _ => id
    have waiting : cb ∈ (state.loops loop).loop.waiting := by
      rw [EventLoop.waiting, queue]
      exact List.mem_cons_self
    apply popped.execute
    rintro conn rfl
    exact living.orderly.spared waiting

end Watching

theorem Living.born_of_held (living : Living state) (few : state.created < 2147483648) {conn : Nat} (held : Held state conn) :
    conn < state.created := by
  rcases held with ⟨name, found⟩ | ⟨loop, ⟨cb, member, rfl⟩ | ⟨revents, handling⟩⟩
  · exact ((living.orderly.registered.registered few name conn).mp found).1
  · have due := (living.orderly.loops loop).due cb member
    cases cb with
    | connectEstablished conn => exact due.1
    | connectDestroyed conn => exact due.1.born
    | removeConnectionInLoop conn => exact due.2.born
  · exact ((living.orderly.loops loop).current _ handling).born

/-- What a poller points to is held, and under its own descriptor. -/
theorem Living.polled (living : Living state) (few : state.created < 2147483648) {loop : LoopRef} {fd conn : Nat}
    (mapped : (state.loops loop).loop.poller_.channels_ fd = some conn) :
    Held state conn ∧ (state.connections conn).channel_.fd_ = fd :=
  ⟨living.held_of_pointed few ⟨loop, .inl ⟨fd, mapped⟩⟩, ((living.retiring.retired loop).polled fd conn mapped).2.1⟩

theorem Living.held_before (living : Living state) {event : RegistryEvent} (stepped : machine.step event state = some next)
    (few : next.created < 2147483648) (same : next.created = state.created) {conn : Nat} (held : Held next conn) :
    Held state conn := by
  obtain ⟨who, only, own⟩ := living.step_only stepped
  have born := (living.step stepped).born_of_held few held
  rw [same] at few born
  exact (only.held conn held).elim id fun acted => own few conn acted born

private theorem usePoller_created (state : ConnectionRegistry) (conn : Nat) (call : EPollPoller → EPollPoller × Channel) :
    (state.usePoller conn call).created = state.created := rfl

private theorem handleClose_created (state : ConnectionRegistry) (thread : LoopRef) (conn : Nat) :
    (state.handleClose thread conn).created = state.created := by
  have disabled : ((state.setState conn .kDisconnected).disableAll conn).created = state.created := usePoller_created _ conn _
  unfold handleClose removeConnection runInLoop
  split
  · exact disabled
  · exact disabled

private theorem execute_created (state : ConnectionRegistry) (thread : LoopRef) (cb : ServerFunctor) :
    (state.execute thread cb).created = state.created := by
  cases cb with
  | connectEstablished conn => exact usePoller_created _ conn _
  | connectDestroyed conn =>
    unfold execute connectDestroyed
    dsimp only
    split
    · exact (usePoller_created _ conn _).trans (usePoller_created _ conn _)
    · exact usePoller_created _ conn _
  | removeConnectionInLoop conn => rfl

namespace Enrolled

theorem accepted (enrolled : Enrolled (Held state) state) (living : Living state) (few : state.created < 2147483648)
    (ioLoop : LoopRef) {sockfd : Nat}
    (fresh : ∀ conn < state.created, Held state conn → (state.connections conn).channel_.fd_ ≠ sockfd) :
    Enrolled (Held (state.accepted ioLoop sockfd)) (state.accepted ioLoop sockfd) := by
  have inserted := enrolled.insert (state.made ioLoop sockfd) rfl
    (fun conn held => fresh conn (living.born_of_held few held) held) (fun _ => living.born_of_held few)
    fun _ _ _ => living.polled few
  refine (inserted.runInLoop .baseLoop ioLoop (.connectEstablished state.created) (.inr rfl)).mono fun conn held => ?_
  exact ((only_accepted state ioLoop sockfd).held conn held).imp_right fun same => (Option.some.inj same).symm

theorem existing (enrolled : Enrolled (Held state) state) (living : Living state) (few : state.created < 2147483648)
    {event : RegistryEvent} (moved : Move state event next) :
    (∃ sockfd peerAddr, event = .newConnection sockfd peerAddr) ∨ Enrolled (Held state) next ∧ next.created = state.created := by
  have entered (loop : LoopRef) (conn : Nat) (revents : Mask) (rest : List (Nat × Mask)) :
      Enrolled (Held state) (state.entered loop conn revents rest) := (enrolled.onLoop loop _ rfl).record (.handled conn loop)
  have left (loop : LoopRef) : Enrolled (Held state) (state.left loop) := enrolled.onLoop loop _ rfl
  cases moved with
  | accepts sockfd peerAddr => exact .inl ⟨sockfd, peerAddr, rfl⟩
  | polls loop | swaps loop | finishes loop => exact .inr ⟨enrolled.onLoop loop _ rfl, rfl⟩
  | enters loop conn revents rest => exact .inr ⟨entered loop conn revents rest, rfl⟩
  | closes loop conn revents rest _ first =>
    have held : Held state conn := living.held_of_pointed few ⟨loop, .inr ⟨revents, first ▸ List.mem_cons_self⟩⟩
    exact .inr ⟨(entered loop conn revents rest).handleClose loop held, handleClose_created _ loop conn⟩
  | leaves loop => exact .inr ⟨left loop, rfl⟩
  | ends loop closed conn revents inside =>
    exact .inr ⟨(left loop).handleClose loop (held_of_current inside), handleClose_created _ loop conn⟩
  | runs loop cb rest queue =>
    have waiting : cb ∈ (state.loops loop).loop.waiting := by
      rw [EventLoop.waiting, queue]
      exact List.mem_cons_self
    have popped : Enrolled (Held state) (state.popped loop rest) := enrolled.onLoop loop _ rfl
    exact .inr ⟨popped.execute loop (held_of_waiting waiting), execute_created _ loop cb⟩

theorem step (enrolled : Enrolled (Held state) state) (living : Living state) (few : next.created < 2147483648)
    {event : RegistryEvent} (fresh : Fresh event state) (stepped : machine.step event state = some next) :
    Enrolled (Held next) next := by
  obtain ⟨who, only, _⟩ := living.step_only stepped
  have fewer := Nat.lt_of_le_of_lt only.created few
  rcases enrolled.existing living fewer (step_cases stepped) with ⟨sockfd, peerAddr, rfl⟩ | ⟨after, same⟩
  · cases step_cases stepped with
    | accepts _ _ ioLoop => exact enrolled.accepted living fewer ioLoop fresh
  · exact after.mono fun conn => living.held_before stepped few same

end Enrolled

structure Descriptors (state : ConnectionRegistry) : Prop where
  living : Living state
  watching : Watching state
  enrolled : state.created < 2147483648 → Enrolled (Held state) state

theorem Descriptors.step (descriptors : Descriptors state) {event : RegistryEvent} (fresh : Fresh event state)
    (stepped : machine.step event state = some next) : Descriptors next := by
  obtain ⟨living, watching, enrolled⟩ := descriptors
  obtain ⟨who, only, _⟩ := living.step_only stepped
  refine ⟨living.step stepped, watching.step living stepped, fun few => ?_⟩
  exact (enrolled (Nat.lt_of_le_of_lt only.created few)).step living few fresh stepped

theorem new_descriptors (listenAddr : InetAddress) (nameArg : String) (threadPool : EventLoopThreadPool) :
    Descriptors (new listenAddr nameArg threadPool) := by
  refine ⟨new_living listenAddr nameArg threadPool, fun conn connected => ?_, fun few => ⟨?_, ?_, ?_, ?_, fun _ => rfl⟩⟩
  · cases connected
  · intro i j held
    exact absurd ((new_living listenAddr nameArg threadPool).born_of_held few held) (Nat.not_lt_zero i)
  · intro conn held
    exact absurd ((new_living listenAddr nameArg threadPool).born_of_held few held) (Nat.not_lt_zero conn)
  · intro conn held
    exact absurd ((new_living listenAddr nameArg threadPool).born_of_held few held) (Nat.not_lt_zero conn)
  · intro loop fd watched
    cases watched

section Reuse

/-- The places where a connection can be held: the map, its own loop and the base loop. -/
def Near (state : ConnectionRegistry) (conn : Nat) : Prop :=
  let connection := state.connections conn
  state.connections_.lookup connection.name_ = some conn ∨
    (∃ cb ∈ (state.loops connection.loop_).loop.waiting ++ (state.loops .baseLoop).loop.waiting, cb.conn = conn) ∨
    (state.loops connection.loop_).current.map Prod.fst = some conn

instance (state : ConnectionRegistry) (conn : Nat) : Decidable (state.Near conn) :=
  inferInstanceAs (Decidable (_ ∨ _ ∨ _))

theorem Living.near (living : Living state) (few : state.created < 2147483648) {conn : Nat} (held : Held state conn) :
    Near state conn := by
  rcases held with ⟨name, found⟩ | ⟨loop, ⟨cb, member, rfl⟩ | ⟨revents, handling⟩⟩
  · obtain ⟨_, named, _⟩ := (living.orderly.registered.registered few name conn).mp found
    exact .inl (named ▸ found)
  · refine .inr (.inl ⟨cb, List.mem_append.mpr ?_, rfl⟩)
    have due := (living.orderly.loops loop).due cb member
    cases cb with
    | connectEstablished conn => exact .inl (due.2 ▸ member)
    | connectDestroyed conn => exact .inl (due.1.home ▸ member)
    | removeConnectionInLoop conn => exact .inr (due.1 ▸ member)
  · obtain ⟨_, home, _⟩ := (living.orderly.loops loop).current _ handling
    refine .inr (.inr ?_)
    rw [home, handling]
    rfl

/-- `Fresh` as far as it can be computed. -/
def FreshNear (event : RegistryEvent) (state : ConnectionRegistry) : Prop :=
  state.created < 2147483648 ∧ match event with
  | .newConnection sockfd _ => ∀ conn < state.created, state.Near conn → (state.connections conn).channel_.fd_ ≠ sockfd
  | _ => True

instance (event : RegistryEvent) (state : ConnectionRegistry) : Decidable (FreshNear event state) :=
  match event with
  | .newConnection _ _ => inferInstanceAs (Decidable (_ ∧ ∀ conn < state.created, _))
  | .poll _ _ | .handleEvent _ | .handleRead _ _ | .swapFunctors _ | .runFunctor _ | .endFunctors _ =>
    inferInstanceAs (Decidable (_ ∧ True))

private theorem fresh_of_near (living : Living state) {events : List RegistryEvent}
    (near : machine.Along FreshNear events state) :
    machine.Along Fresh events state := by
  induction events generalizing state with
  | nil => trivial
  | cons event events ih =>
    refine ⟨?_, fun next stepped => ih (living.step stepped) (near.2 next stepped)⟩
    obtain ⟨few, free⟩ := near.1
    cases event with
    | newConnection sockfd peerAddr => exact fun conn born held => free conn born (living.near few held)
    | _ => trivial

end Reuse
end ConnectionRegistry
end Webserver
