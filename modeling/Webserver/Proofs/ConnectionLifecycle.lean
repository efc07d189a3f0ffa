import Webserver.Library.History
import Webserver.Proofs.ConnectionNames
import Webserver.Proofs.ConnectionSteps
import Webserver.Proofs.PollerBookkeeping

/-! The life of a connection: it is created and put in the map on the base loop, it is
established and served on its own loop, and it is destroyed there after it has left the map. -/

namespace Webserver
open Library

namespace EPollPoller

/-- An update can add no other channel to the map, and a removal none at all. -/
theorem updateChannel_maps {poller : EPollPoller} {channel : Channel} {fd address : Nat}
    (mapped : (poller.updateChannel channel).1.channels_ fd = some address) :
    poller.channels_ fd = some address ∨ address = channel.address := by
  rw [updateChannel_poller, update_channels] at mapped
  split at mapped
  · dsimp only at mapped
    by_cases same : fd = channel.fd_
    · subst same
      rw [Function.update_self] at mapped
      exact .inr (Option.some.inj mapped).symm
    · rw [Function.update_of_ne same] at mapped
      exact .inl mapped
  · exact .inl mapped

theorem removeChannel_erases {poller : EPollPoller} {channel : Channel} {fd address : Nat}
    (mapped : (poller.removeChannel channel).1.channels_ fd = some address) : poller.channels_ fd = some address := by
  by_cases same : fd = channel.fd_
  · subst same
    have erased : (poller.removeChannel channel).1.channels_ channel.fd_ = none := removeChannel_maps poller channel
    rw [erased] at mapped
    cases mapped
  · rwa [(removeChannel_elsewhere poller channel same).mapped] at mapped

end EPollPoller

namespace Happening

def establishes (conn : Nat) : Happening → Bool
  | .established other _ => other = conn
  | _ => false

def place : Happening → Option (Nat × LoopRef)
  | .established conn thread | .handled conn thread | .destroyed conn thread => some (conn, thread)
  | _ => none

end Happening

def Happening.plain : Happening → Bool
  | .handled _ _ | .destroyed _ _ => true
  | _ => false

theorem Happening.plain_spec (entry : Happening) (plain : entry.plain = true) (conn : Nat) :
    entry ≠ .created conn true ∧ entry ≠ .removed conn ∧ entry.establishes conn = false := by
  cases entry with
  | handled other thread | destroyed other thread => simp [establishes]
  | _ => cases plain

namespace ConnectionRegistry

def Established (log : List Happening) (conn : Nat) : Prop := ∃ thread, .established conn thread ∈ log

/-- A handler runs after the establishment, the destruction also after the removal. -/
def Ordered (before : List Happening) : Happening → Prop
  | .handled conn _ => Established before conn
  | .destroyed conn _ => Established before conn ∧ .removed conn ∈ before
  | _ => True

structure Lifecycle (state : ConnectionRegistry) : Prop where
  kept : ∀ conn, .created conn true ∉ state.log
  registered : ∀ name conn, state.connections_.lookup name = some conn ↔
    conn < state.created ∧ (state.connections conn).name_ = name ∧ .removed conn ∉ state.log
  once : ∀ conn, state.log.countP (Happening.establishes conn) ≤ 1
  placed : ∀ entry ∈ state.log, ∀ conn thread, entry.place = some (conn, thread) →
    conn < state.created ∧ (state.connections conn).loop_ = thread
  ordered : Justified Ordered state.log

/-- The map holds what was created and not removed, under names that keep it apart. -/
structure Registered (state : ConnectionRegistry) : Prop where
  short : state.ipPort_.length ≤ 21
  numbered : state.nextConnId_ = Int32.ofNat (state.created + 1)
  named : ∀ conn < state.created,
    (state.connections conn).name_ = state.name_ ++ buf state.ipPort_ (Int32.ofNat (conn + 1))
  removed : ∀ conn, .removed conn ∈ state.log → conn < state.created
  kept : state.created < 2147483648 → ∀ conn, .created conn true ∉ state.log
  registered : state.created < 2147483648 → ∀ name conn, state.connections_.lookup name = some conn ↔
    conn < state.created ∧ (state.connections conn).name_ = name ∧ .removed conn ∉ state.log

structure Tied (state : ConnectionRegistry) (loop : LoopRef) (conn : Nat) : Prop where
  born : conn < state.created
  home : (state.connections conn).loop_ = loop
  established : Established state.log conn

def Due (state : ConnectionRegistry) (loop : LoopRef) : ServerFunctor → Prop
  | .connectEstablished conn => conn < state.created ∧ (state.connections conn).loop_ = loop
  | .connectDestroyed conn => Tied state loop conn ∧ .removed conn ∈ state.log
  | .removeConnectionInLoop conn => loop = .baseLoop ∧ Tied state (state.connections conn).loop_ conn

/-- A connection is established by the log or by one functor that waits, never by both. -/
structure Sound (state : ConnectionRegistry) (loop : LoopRef) (serverLoop : ServerLoop) : Prop where
  due : ∀ cb ∈ serverLoop.loop.waiting, Due state loop cb
  once : ∀ conn < state.created, (state.connections conn).loop_ = loop →
    state.log.countP (Happening.establishes conn) + serverLoop.loop.waiting.count (.connectEstablished conn) ≤ 1
  active : ∀ event ∈ serverLoop.activeChannels_, Tied state loop event.1
  current : ∀ event ∈ serverLoop.current, Tied state loop event.1
  polled : ∀ fd conn, serverLoop.loop.poller_.channels_ fd = some conn → Tied state loop conn

structure Orderly (state : ConnectionRegistry) : Prop where
  registered : Registered state
  addressed : ∀ conn < state.created, (state.connections conn).channel_.address = conn
  loops : ∀ loop, Sound state loop (state.loops loop)
  placed : ∀ entry ∈ state.log, ∀ conn thread, entry.place = some (conn, thread) →
    conn < state.created ∧ (state.connections conn).loop_ = thread
  ordered : Justified Ordered state.log

section Log
variable {log : List Happening} {conn : Nat}

theorem countP_pos_iff : 0 < log.countP (Happening.establishes conn) ↔ Established log conn := by
  rw [List.countP_pos_iff]
  constructor
  · intro ⟨entry, member, establishes⟩
    cases entry with
    | established other thread =>
      obtain rfl := of_decide_eq_true establishes
      exact ⟨thread, member⟩
    | _ => cases establishes
  · intro ⟨thread, member⟩
    exact ⟨_, member, decide_eq_true rfl⟩

end Log

structure Extends (state next : ConnectionRegistry) : Prop where
  created : state.created ≤ next.created
  home : ∀ conn < state.created, (next.connections conn).loop_ = (state.connections conn).loop_
  log : ∀ entry ∈ state.log, entry ∈ next.log

theorem Extends.trans {state middle next : ConnectionRegistry} (first : Extends state middle) (second : Extends middle next) :
    Extends state next where
  created := Nat.le_trans first.created second.created
  home conn born := (second.home conn (Nat.lt_of_lt_of_le born first.created)).trans (first.home conn born)
  log entry member := second.log entry (first.log entry member)

theorem Tied.self {state : ConnectionRegistry} {loop : LoopRef} {conn : Nat} (tied : Tied state loop conn) :
    Tied state (state.connections conn).loop_ conn :=
  ⟨tied.born, rfl, tied.established⟩

theorem Tied.extend {state next : ConnectionRegistry} {loop : LoopRef} {conn : Nat} (tied : Tied state loop conn)
    (step : Extends state next) : Tied next loop conn where
  born := Nat.lt_of_lt_of_le tied.born step.created
  home := (step.home conn tied.born).trans tied.home
  established := tied.established.imp fun _ member => step.log _ member

theorem Due.extend {state next : ConnectionRegistry} {loop : LoopRef} {cb : ServerFunctor} (due : Due state loop cb)
    (step : Extends state next) : Due next loop cb := by
  cases cb with
  | connectEstablished conn => exact ⟨Nat.lt_of_lt_of_le due.1 step.created, (step.home conn due.1).trans due.2⟩
  | connectDestroyed conn => exact ⟨due.1.extend step, step.log _ due.2⟩
  | removeConnectionInLoop conn =>
    refine ⟨due.1, ?_⟩
    rw [step.home conn due.2.born]
    exact due.2.extend step

theorem extends_onLoop (state : ConnectionRegistry) (loop : LoopRef) (change : ServerLoop → ServerLoop) :
    Extends state (state.onLoop loop change) :=
  ⟨Nat.le_refl _, fun _ _ => rfl, fun _ member => member⟩

theorem extends_onConnection (state : ConnectionRegistry) (conn : Nat) (change : Connection → Connection)
    (home : (change (state.connections conn)).loop_ = (state.connections conn).loop_) :
    Extends state (state.onConnection conn change) where
  created := Nat.le_refl _
  home other _ := by
    by_cases here : other = conn
    · subst here
      simpa only [onConnection, Function.update_self] using home
    · simp only [onConnection, Function.update_of_ne here]
  log _ member := member

theorem extends_record (state : ConnectionRegistry) (entry : Happening) : Extends state (state.record entry) :=
  ⟨Nat.le_refl _, fun _ _ => rfl, fun _ member => List.mem_append_left _ member⟩

private theorem extends_usePoller (state : ConnectionRegistry) (conn : Nat) (call : EPollPoller → EPollPoller × Channel) :
    Extends state (state.usePoller conn call) := by
  unfold usePoller
  exact (extends_onLoop state _ _).trans (extends_onConnection _ conn _ rfl)

private theorem extends_setState (state : ConnectionRegistry) (conn : Nat) (value : StateE) :
    Extends state (state.setState conn value) :=
  extends_onConnection state conn _ rfl

private theorem extends_tie (state : ConnectionRegistry) (conn : Nat) : Extends state (state.tie conn) :=
  extends_onConnection state conn _ rfl

private theorem extends_disableAll (state : ConnectionRegistry) (conn : Nat) : Extends state (state.disableAll conn) :=
  extends_usePoller state conn _

theorem extends_erase (state : ConnectionRegistry) (conn : Nat) :
    Extends state ({ state with connections_ := state.connections_.erase (state.connections conn).name_ }.record
      (.removed conn)) :=
  ⟨Nat.le_refl _, fun _ _ => rfl, fun _ member => List.mem_append_left _ member⟩

theorem extends_insert (state : ConnectionRegistry) (connection : Connection) : Extends state (state.insert connection) where
  created := Nat.le_succ _
  home conn born := by simp only [insert, Function.update_of_ne (Nat.ne_of_lt born)]
  log _ member := List.mem_append_left _ member

namespace Registered
variable {state : ConnectionRegistry}

theorem onLoop (registered : Registered state) (loop : LoopRef) (change : ServerLoop → ServerLoop) :
    Registered (state.onLoop loop change) :=
  ⟨registered.short, registered.numbered, registered.named, registered.removed, registered.kept, registered.registered⟩

theorem onConnection (registered : Registered state) (conn : Nat) (change : Connection → Connection)
    (name : (change (state.connections conn)).name_ = (state.connections conn).name_) :
    Registered (state.onConnection conn change) := by
  have names : ∀ other, ((state.onConnection conn change).connections other).name_ = (state.connections other).name_ := by
    intro other
    by_cases here : other = conn
    · subst here
      simpa only [ConnectionRegistry.onConnection, Function.update_self] using name
    · simp only [ConnectionRegistry.onConnection, Function.update_of_ne here]
  refine ⟨registered.short, registered.numbered, fun other born => ?_, registered.removed, registered.kept, ?_⟩
  · rw [names]
    exact registered.named other born
  · intro few key other
    rw [names]
    exact registered.registered few key other

theorem record (registered : Registered state) {entry : Happening}
    (aside : ∀ conn, entry ≠ .created conn true ∧ entry ≠ .removed conn) : Registered (state.record entry) := by
  have removals : ∀ conn, .removed conn ∈ (state.record entry).log ↔ .removed conn ∈ state.log := by
    intro conn
    simp [ConnectionRegistry.record, (aside conn).2.symm]
  refine ⟨registered.short, registered.numbered, registered.named, fun conn member => ?_, fun few conn member => ?_, ?_⟩
  · exact registered.removed conn ((removals conn).mp member)
  · rcases List.mem_append.mp member with old | new
    · exact registered.kept few conn old
    · exact (aside conn).1 (List.mem_singleton.mp new).symm
  · intro few key conn
    rw [removals]
    exact registered.registered few key conn

/-- The names of the first 2^31 connections are different. -/
theorem name_injective (registered : Registered state) (few : state.created < 2147483648) {i j : Nat} (left : i < state.created)
    (right : j < state.created) (same : (state.connections i).name_ = (state.connections j).name_) : i = j := by
  rw [registered.named i left, registered.named j right] at same
  have ids := connName_injective registered.short (by omega) (by omega) same
  omega

theorem erase (registered : Registered state) {conn : Nat} (born : conn < state.created) :
    Registered ({ state with connections_ := state.connections_.erase (state.connections conn).name_ }.record
      (.removed conn)) := by
  refine ⟨registered.short, registered.numbered, registered.named, fun other member => ?_, fun few other member => ?_, ?_⟩
  · rcases List.mem_append.mp member with old | new
    · exact registered.removed other old
    · cases List.mem_singleton.mp new
      exact born
  · rcases List.mem_append.mp member with old | new
    · exact registered.kept few other old
    · cases List.mem_singleton.mp new
  · intro few key other
    have before := registered.registered few key other
    have removals : .removed other ∉ state.log ++ [.removed conn] ↔ .removed other ∉ state.log ∧ other ≠ conn := by
      simp
    change (state.connections_.erase (state.connections conn).name_).lookup key = some other ↔
      other < state.created ∧ (state.connections other).name_ = key ∧ .removed other ∉ state.log ++ [.removed conn]
    rw [removals]
    by_cases here : key = (state.connections conn).name_
    · subst here
      rw [AList.lookup_erase]
      apply iff_of_false (by simp)
      intro ⟨alive, name, _, different⟩
      exact different (registered.name_injective few alive born name)
    · rw [AList.lookup_erase_ne here, before]
      constructor
      · rintro ⟨alive, rfl, present⟩
        refine ⟨alive, rfl, present, ?_⟩
        rintro rfl
        exact here rfl
      · intro ⟨alive, name, present, _⟩
        exact ⟨alive, name, present⟩

theorem insert_names (connection : Connection) (conn : Nat) : ((state.insert connection).connections conn).name_ =
    if conn = state.created then connection.name_ else (state.connections conn).name_ := by
  simp only [ConnectionRegistry.insert, Function.update_apply]
  split <;> rfl

theorem insert_absent (registered : Registered state) {connection : Connection}
    (name : connection.name_ = state.name_ ++ buf state.ipPort_ state.nextConnId_) (few : state.created + 1 < 2147483648) :
    state.connections_.lookup connection.name_ = none := by
  by_contra present
  obtain ⟨conn, found⟩ := Option.ne_none_iff_exists'.mp present
  obtain ⟨born, same, _⟩ := (registered.registered (by omega) _ conn).mp found
  rw [name, registered.named conn born, registered.numbered] at same
  have ids := connName_injective registered.short (by omega) (by omega) same
  omega

theorem insert_lookup (registered : Registered state) {connection : Connection}
    (absent : state.connections_.lookup connection.name_ = none) (few : state.created < 2147483648) (key : String) (conn : Nat) :
    (state.connections_.insert connection.name_ state.created).lookup key = some conn ↔
      conn < state.created + 1 ∧ ((state.insert connection).connections conn).name_ = key ∧ .removed conn ∉ state.log := by
  rw [insert_names]
  by_cases last : conn = state.created
  · subst last
    rw [if_pos rfl]
    constructor
    · intro found
      refine ⟨Nat.lt_succ_self _, ?_, fun member => Nat.lt_irrefl _ (registered.removed _ member)⟩
      by_contra other
      rw [AList.lookup_insert_ne (Ne.symm other), registered.registered few] at found
      exact Nat.lt_irrefl _ found.1
    · rintro ⟨_, rfl, _⟩
      exact AList.lookup_insert _
  · rw [if_neg last, Nat.lt_succ_iff_lt_or_eq, or_iff_left last, ← registered.registered few]
    by_cases here : key = connection.name_
    · subst here
      rw [AList.lookup_insert, absent]
      apply iff_of_false
      · intro same
        exact last (Option.some.inj same).symm
      · exact (Option.some_ne_none conn).symm
    · rw [AList.lookup_insert_ne here]

theorem insert (registered : Registered state) {connection : Connection}
    (name : connection.name_ = state.name_ ++ buf state.ipPort_ state.nextConnId_) :
    Registered (state.insert connection) := by
  have removals : ∀ conn, .removed conn ∈ (state.insert connection).log ↔ .removed conn ∈ state.log := by
    intro conn
    simp [ConnectionRegistry.insert]
  refine ⟨registered.short, ?_, ?_, ?_, ?_, ?_⟩
  · change state.nextConnId_ + 1 = _
    rw [registered.numbered]
    exact (Int32.ofNat_add (state.created + 1) 1).symm
  · intro conn born
    rw [insert_names]
    split
    next last => rw [last, name, registered.numbered]; rfl
    next older => exact registered.named conn (Nat.lt_of_le_of_ne (Nat.le_of_lt_succ born) older)
  · intro conn member
    exact Nat.lt_succ_of_lt (registered.removed conn ((removals conn).mp member))
  · intro few conn member
    rcases List.mem_append.mp member with old | new
    · exact registered.kept (Nat.lt_of_succ_lt few) conn old
    · have present := (Happening.created.inj (List.mem_singleton.mp new)).2
      rw [eq_comm, decide_eq_true_iff, ← AList.lookup_isSome, registered.insert_absent name few] at present
      cases present
  · intro few key conn
    rw [removals]
    exact registered.insert_lookup (registered.insert_absent name few) (Nat.lt_of_succ_lt few) key conn

end Registered

/-- What a loop knows of outlives a step, which may establish or create a connection. -/
theorem Sound.carry {state next : ConnectionRegistry} {loop : LoopRef} {serverLoop : ServerLoop}
    (sound : Sound state loop serverLoop) (step : Extends state next)
    (once : ∀ conn < next.created, (next.connections conn).loop_ = loop →
      next.log.countP (Happening.establishes conn) + serverLoop.loop.waiting.count (.connectEstablished conn) ≤ 1) :
    Sound next loop serverLoop where
  due cb member := (sound.due cb member).extend step
  once := once
  active event member := (sound.active event member).extend step
  current event member := (sound.current event member).extend step
  polled fd conn mapped := (sound.polled fd conn mapped).extend step

theorem Sound.extend {state next : ConnectionRegistry} {loop : LoopRef} {serverLoop : ServerLoop}
    (sound : Sound state loop serverLoop) (step : Extends state next) (same : next.created = state.created)
    (silent : ∀ conn, next.log.countP (Happening.establishes conn) = state.log.countP (Happening.establishes conn)) :
    Sound next loop serverLoop := by
  apply sound.carry step
  intro conn born home
  rw [same] at born
  rw [silent]
  exact sound.once conn born ((step.home conn born).symm.trans home)

theorem Sound.fewer {state : ConnectionRegistry} {loop : LoopRef} {serverLoop : ServerLoop} (sound : Sound state loop serverLoop)
    {changed : EventLoop ServerFunctor} (fewer : changed.waiting.Sublist serverLoop.loop.waiting)
    (poller : changed.poller_ = serverLoop.loop.poller_) : Sound state loop { serverLoop with loop := changed } where
  due cb member := sound.due cb (fewer.subset member)
  once conn born home := Nat.le_trans (Nat.add_le_add_left (fewer.count_le _) _) (sound.once conn born home)
  active := sound.active
  current := sound.current
  polled fd conn mapped := sound.polled fd conn (poller ▸ mapped)

namespace Orderly
variable {state : ConnectionRegistry}

theorem onLoop (orderly : Orderly state) (loop : LoopRef) (change : ServerLoop → ServerLoop)
    (sound : Sound state loop (change (state.loops loop))) : Orderly (state.onLoop loop change) where
  registered := orderly.registered.onLoop loop change
  addressed := orderly.addressed
  loops other := by
    refine Sound.extend ?_ (extends_onLoop state loop change) rfl (fun _ => rfl)
    by_cases here : other = loop
    · subst here
      simpa only [ConnectionRegistry.onLoop, Function.update_self] using sound
    · simpa only [ConnectionRegistry.onLoop, Function.update_of_ne here] using orderly.loops other
  placed := orderly.placed
  ordered := orderly.ordered

theorem onConnection (orderly : Orderly state) (conn : Nat) (change : Connection → Connection)
    (home : (change (state.connections conn)).loop_ = (state.connections conn).loop_)
    (name : (change (state.connections conn)).name_ = (state.connections conn).name_)
    (address : conn < state.created → (change (state.connections conn)).channel_.address = conn) :
    Orderly (state.onConnection conn change) where
  registered := orderly.registered.onConnection conn change name
  addressed other born := by
    by_cases here : other = conn
    · subst here
      simpa only [ConnectionRegistry.onConnection, Function.update_self] using address born
    · simpa only [ConnectionRegistry.onConnection, Function.update_of_ne here] using orderly.addressed other born
  loops loop := (orderly.loops loop).extend (extends_onConnection state conn change home) rfl fun _ => rfl
  placed entry member other thread place := by
    obtain ⟨born, own⟩ := orderly.placed entry member other thread place
    exact ⟨born, ((extends_onConnection state conn change home).home other born).trans own⟩
  ordered := orderly.ordered

theorem setState (orderly : Orderly state) (conn : Nat) (value : StateE) : Orderly (state.setState conn value) :=
  orderly.onConnection conn _ rfl rfl (orderly.addressed conn)

theorem tie (orderly : Orderly state) (conn : Nat) : Orderly (state.tie conn) :=
  orderly.onConnection conn _ rfl rfl (orderly.addressed conn)

theorem usePoller (orderly : Orderly state) {conn : Nat} (tied : Tied state (state.connections conn).loop_ conn)
    {call : EPollPoller → EPollPoller × Channel}
    (maps : ∀ poller fd address, (call poller).1.channels_ fd = some address →
      poller.channels_ fd = some address ∨ address = conn)
    (address : ∀ poller, (call poller).2.address = conn) : Orderly (state.usePoller conn call) := by
  have sound := orderly.loops (state.connections conn).loop_
  unfold ConnectionRegistry.usePoller
  refine onConnection (orderly.onLoop _ _ ⟨sound.due, sound.once, sound.active, sound.current, ?_⟩) conn _ rfl rfl
    fun _ => address _
  intro fd other mapped
  rcases maps _ fd other mapped with old | rfl
  · exact sound.polled fd other old
  · exact tied

theorem updateChannel (orderly : Orderly state) {conn : Nat} (tied : Tied state (state.connections conn).loop_ conn)
    {channel : Channel} (address : channel.address = conn) :
    Orderly (state.usePoller conn fun poller => poller.updateChannel channel) := by
  apply orderly.usePoller tied
  · intro poller fd other mapped
    rw [← address]
    exact EPollPoller.updateChannel_maps mapped
  · intro poller
    rw [EPollPoller.updateChannel_address, address]

theorem enableReading (orderly : Orderly state) {conn : Nat} (tied : Tied state (state.connections conn).loop_ conn) :
    Orderly (state.enableReading conn) := orderly.updateChannel tied (orderly.addressed conn tied.born)

theorem disableAll (orderly : Orderly state) {conn : Nat} (tied : Tied state (state.connections conn).loop_ conn) :
    Orderly (state.disableAll conn) := orderly.updateChannel tied (orderly.addressed conn tied.born)

theorem remove (orderly : Orderly state) {conn : Nat} (tied : Tied state (state.connections conn).loop_ conn) :
    Orderly (state.remove conn) :=
  orderly.usePoller tied (fun _ _ _ mapped => .inl (EPollPoller.removeChannel_erases mapped))
    fun _ => orderly.addressed conn tied.born

/-- A functor is queued; an establishment only if there has been none. -/
theorem queueInLoop (orderly : Orderly state) (thread : LoopRef) {loop : LoopRef} {cb : ServerFunctor} (due : Due state loop cb)
    (first : ∀ conn, cb = .connectEstablished conn →
      state.log.countP (Happening.establishes conn) + (state.loops loop).loop.waiting.count cb = 0) :
    Orderly (state.queueInLoop thread loop cb) := by
  have sound := orderly.loops loop
  refine orderly.onLoop loop _ ⟨?_, ?_, sound.active, sound.current, ?_⟩
  · intro other member
    rw [EventLoop.queueInLoop_waiting] at member
    rcases List.mem_append.mp member with old | new
    · exact sound.due other old
    · rwa [List.mem_singleton.mp new]
  · intro conn born home
    rw [EventLoop.queueInLoop_waiting, List.count_append]
    by_cases same : cb = .connectEstablished conn
    · have none := first conn same
      rw [same] at none ⊢
      rw [List.count_singleton_self]
      omega
    · rw [List.count_singleton, if_neg (by simpa using same)]
      exact sound.once conn born home
  · intro fd conn mapped
    rw [EventLoop.queueInLoop_poller] at mapped
    exact sound.polled fd conn mapped

theorem record (orderly : Orderly state) (entry : Happening) (plain : entry.plain = true) (ordered : Ordered state.log entry)
    (placed : ∀ conn thread, entry.place = some (conn, thread) →
      conn < state.created ∧ (state.connections conn).loop_ = thread) : Orderly (state.record entry) where
  registered := orderly.registered.record fun conn => ⟨(entry.plain_spec plain conn).1, (entry.plain_spec plain conn).2.1⟩
  addressed := orderly.addressed
  loops loop := by
    apply (orderly.loops loop).extend (extends_record state entry) rfl
    intro conn
    simp [ConnectionRegistry.record, List.countP_append, (entry.plain_spec plain conn).2.2]
  placed := List.forall_mem_append.mpr ⟨orderly.placed, List.forall_mem_singleton.mpr placed⟩
  ordered := justified_snoc.mpr ⟨orderly.ordered, ordered⟩

theorem unborn (orderly : Orderly state) {conn : Nat} (unborn : ¬conn < state.created) :
    state.log.countP (Happening.establishes conn) = 0 ∧
      ∀ loop, (state.loops loop).loop.waiting.count (.connectEstablished conn) = 0 := by
  constructor
  · apply Nat.eq_zero_of_not_pos
    rw [countP_pos_iff]
    intro ⟨thread, member⟩
    exact unborn (orderly.placed _ member conn thread rfl).1
  · intro loop
    rw [List.count_eq_zero]
    intro member
    exact unborn ((orderly.loops loop).due _ member).1

theorem establish (orderly : Orderly state) {conn : Nat} {thread : LoopRef} (born : conn < state.created)
    (home : (state.connections conn).loop_ = thread) (first : state.log.countP (Happening.establishes conn) = 0)
    (alone : (state.loops thread).loop.waiting.count (.connectEstablished conn) = 0) :
    Orderly (state.record (.established conn thread)) where
  registered := orderly.registered.record fun conn => by simp
  addressed := orderly.addressed
  loops loop := by
    apply (orderly.loops loop).carry (extends_record state (.established conn thread))
    intro other alive own
    change (state.log ++ [_]).countP _ + (state.loops loop).loop.waiting.count _ ≤ 1
    rw [List.countP_append]
    by_cases same : other = conn
    · subst same
      obtain rfl : thread = loop := home.symm.trans own
      rw [first, alone]
      simp [Happening.establishes]
    · have silent : [Happening.established conn thread].countP (Happening.establishes other) = 0 := by
        simp [Happening.establishes, Ne.symm same]
      rw [silent]
      exact (orderly.loops loop).once other alive own
  placed := by
    refine List.forall_mem_append.mpr ⟨orderly.placed, List.forall_mem_singleton.mpr fun other loop place => ?_⟩
    obtain ⟨rfl, rfl⟩ := Prod.mk.inj (Option.some.inj place)
    exact ⟨born, home⟩
  ordered := justified_snoc.mpr ⟨orderly.ordered, trivial⟩

theorem connectEstablished (orderly : Orderly state) {conn : Nat} {thread : LoopRef} (born : conn < state.created)
    (home : (state.connections conn).loop_ = thread) (first : state.log.countP (Happening.establishes conn) = 0)
    (alone : (state.loops thread).loop.waiting.count (.connectEstablished conn) = 0) :
    Orderly (state.connectEstablished thread conn) := by
  have tied : Tied (state.record (.established conn thread)) thread conn :=
    ⟨born, home, thread, List.mem_append_right _ (List.mem_singleton_self _)⟩
  have readied := ((orderly.establish born home first alone).setState conn .kConnected).tie conn
  exact readied.enableReading ((tied.extend (extends_setState _ _ _)).extend (extends_tie _ _)).self

theorem connectDestroyed (orderly : Orderly state) {conn : Nat} {thread : LoopRef} (tied : Tied state thread conn)
    (removed : .removed conn ∈ state.log) : Orderly (state.connectDestroyed thread conn) := by
  have entered : Orderly (state.record (.destroyed conn thread)) := by
    refine orderly.record (.destroyed conn thread) rfl ⟨tied.established, removed⟩ fun other loop place => ?_
    obtain ⟨rfl, rfl⟩ := Prod.mk.inj (Option.some.inj place)
    exact ⟨tied.born, tied.home⟩
  have still := tied.extend (extends_record state (.destroyed conn thread))
  unfold ConnectionRegistry.connectDestroyed
  dsimp only
  split
  · have left := still.extend (extends_setState _ conn .kDisconnected)
    have disabled := (entered.setState conn .kDisconnected).disableAll left.self
    exact disabled.remove (left.extend (extends_disableAll _ conn)).self
  · exact entered.remove still.self

theorem erase (orderly : Orderly state) {conn : Nat} (born : conn < state.created) :
    Orderly ({ state with connections_ := state.connections_.erase (state.connections conn).name_ }.record
      (.removed conn)) where
  registered := orderly.registered.erase born
  addressed := orderly.addressed
  loops loop := by
    apply (orderly.loops loop).extend (extends_erase state conn) rfl
    intro other
    simp [ConnectionRegistry.record, List.countP_append, Happening.establishes]
  placed := by
    refine List.forall_mem_append.mpr ⟨orderly.placed, List.forall_mem_singleton.mpr fun other loop place => ?_⟩
    cases place
  ordered := justified_snoc.mpr ⟨orderly.ordered, trivial⟩

theorem removeConnectionInLoop (orderly : Orderly state) {conn : Nat} (thread : LoopRef)
    (tied : Tied state (state.connections conn).loop_ conn) : Orderly (state.removeConnectionInLoop thread conn) := by
  refine (orderly.erase tied.born).queueInLoop thread ⟨?_, ?_⟩ fun other same => ?_
  · exact tied.extend (extends_erase state conn)
  · exact List.mem_append_right _ (List.mem_singleton_self _)
  · cases same

theorem execute (orderly : Orderly state) {thread : LoopRef} {cb : ServerFunctor} (due : Due state thread cb)
    (first : ∀ conn, cb = .connectEstablished conn →
      state.log.countP (Happening.establishes conn) + (state.loops thread).loop.waiting.count cb = 0) :
    Orderly (state.execute thread cb) := by
  cases cb with
  | connectEstablished conn =>
    obtain ⟨none, alone⟩ := Nat.add_eq_zero_iff.mp (first conn rfl)
    exact orderly.connectEstablished due.1 due.2 none alone
  | connectDestroyed conn => exact orderly.connectDestroyed due.1 due.2
  | removeConnectionInLoop conn => exact orderly.removeConnectionInLoop thread due.2

theorem runInLoop (orderly : Orderly state) (thread : LoopRef) {loop : LoopRef} {cb : ServerFunctor} (due : Due state loop cb)
    (first : ∀ conn, cb = .connectEstablished conn →
      state.log.countP (Happening.establishes conn) + (state.loops loop).loop.waiting.count cb = 0) :
    Orderly (state.runInLoop thread loop cb) := by
  unfold ConnectionRegistry.runInLoop
  split
  next same =>
    subst same
    exact orderly.execute due first
  next => exact orderly.queueInLoop thread due first

theorem handleClose (orderly : Orderly state) {conn : Nat} {thread : LoopRef} (tied : Tied state thread conn) :
    Orderly (state.handleClose thread conn) := by
  have left := tied.extend (extends_setState state conn .kDisconnected)
  have disabled := (orderly.setState conn .kDisconnected).disableAll left.self
  have due := (left.extend (extends_disableAll _ conn)).self
  refine disabled.runInLoop thread ⟨rfl, due⟩ fun other same => ?_
  cases same

theorem insert (orderly : Orderly state) {connection : Connection}
    (name : connection.name_ = state.name_ ++ buf state.ipPort_ state.nextConnId_)
    (address : connection.channel_.address = state.created) : Orderly (state.insert connection) where
  registered := orderly.registered.insert name
  addressed conn born := by
    by_cases last : conn = state.created
    · subst last
      simpa only [ConnectionRegistry.insert, Function.update_self] using address
    · simp only [ConnectionRegistry.insert, Function.update_of_ne last]
      exact orderly.addressed conn (Nat.lt_of_le_of_ne (Nat.le_of_lt_succ born) last)
  loops loop := by
    have step := extends_insert state connection
    apply (orderly.loops loop).carry step
    intro conn born own
    have same : (state.insert connection).log.countP (Happening.establishes conn) =
        state.log.countP (Happening.establishes conn) := by
      simp [ConnectionRegistry.insert, List.countP_append, Happening.establishes]
    change (state.insert connection).log.countP _ + (state.loops loop).loop.waiting.count _ ≤ 1
    rw [same]
    by_cases old : conn < state.created
    · exact (orderly.loops loop).once conn old ((step.home conn old).symm.trans own)
    · obtain ⟨none, alone⟩ := orderly.unborn old
      rw [none, alone loop]
      exact Nat.zero_le _
  placed := by
    refine List.forall_mem_append.mpr ⟨fun entry old conn thread place => ?_,
      List.forall_mem_singleton.mpr fun conn thread place => ?_⟩
    · obtain ⟨born, own⟩ := orderly.placed entry old conn thread place
      exact ⟨Nat.lt_succ_of_lt born, ((extends_insert state connection).home conn born).trans own⟩
    · cases place
  ordered := justified_snoc.mpr ⟨orderly.ordered, trivial⟩

theorem accepted (orderly : Orderly state) (ioLoop : LoopRef) (sockfd : Nat) :
    Orderly (state.accepted ioLoop sockfd) := by
  have inserted := @insert _ orderly (state.made ioLoop sockfd) rfl rfl
  obtain ⟨none, alone⟩ := orderly.unborn (Nat.lt_irrefl state.created)
  refine inserted.runInLoop .baseLoop ⟨Nat.lt_succ_self _, ?_⟩ fun conn same => ?_
  · simp only [ConnectionRegistry.insert, Function.update_self]
  · cases same
    rw [Nat.add_eq_zero_iff]
    refine ⟨?_, alone ioLoop⟩
    simpa [ConnectionRegistry.insert, List.countP_append, Happening.establishes] using none

theorem entered (orderly : Orderly state) {loop : LoopRef} {conn : Nat} {revents : Mask} {rest : List (Nat × Mask)}
    (first : (state.loops loop).activeChannels_ = (conn, revents) :: rest) :
    Orderly (state.entered loop conn revents rest) ∧ Tied (state.entered loop conn revents rest) loop conn := by
  have sound := orderly.loops loop
  have tied : Tied state loop conn := sound.active (conn, revents) (by rw [first]; exact List.mem_cons_self)
  have popped := orderly.onLoop loop
    (fun serverLoop => { serverLoop with activeChannels_ := rest, current := some (conn, revents) })
    ⟨sound.due, sound.once, fun event member => sound.active event (by rw [first]; exact List.mem_cons_of_mem _ member),
      fun event here => (by cases here; exact tied), sound.polled⟩
  have inside := tied.extend (extends_onLoop state loop fun serverLoop =>
    { serverLoop with activeChannels_ := rest, current := some (conn, revents) })
  refine ⟨popped.record (.handled conn loop) rfl inside.established fun other thread place => ?_,
    inside.extend (extends_record _ _)⟩
  obtain ⟨rfl, rfl⟩ := Prod.mk.inj (Option.some.inj place)
  exact ⟨inside.born, inside.home⟩

theorem left (orderly : Orderly state) (loop : LoopRef) : Orderly (state.left loop) := by
  have sound := orderly.loops loop
  exact orderly.onLoop loop (fun serverLoop => { serverLoop with current := none })
    ⟨sound.due, sound.once, sound.active, fun event here => (by cases here), sound.polled⟩

theorem executed (orderly : Orderly state) {loop : LoopRef} {cb : ServerFunctor} {rest : List ServerFunctor}
    (queue : (state.loops loop).loop.functors = cb :: rest) : Orderly ((state.popped loop rest).execute loop cb) := by
  have sound := orderly.loops loop
  have waiting : (state.loops loop).loop.waiting = cb :: (rest ++ (state.loops loop).loop.pendingFunctors_) := by
    rw [EventLoop.waiting, queue]
    rfl
  have popped := orderly.onLoop loop
    (fun serverLoop => { serverLoop with loop := { serverLoop.loop with functors := rest } })
    (sound.fewer (by rw [waiting]; exact List.sublist_cons_self _ _) rfl)
  have due : Due state loop cb := sound.due cb (by rw [waiting]; exact List.mem_cons_self)
  apply popped.execute (due.extend (extends_onLoop _ _ _))
  intro conn same
  subst same
  have once := sound.once conn due.1 due.2
  rw [waiting, List.count_cons_self] at once
  simp only [ConnectionRegistry.onLoop, Function.update_self]
  change _ + (rest ++ (state.loops loop).loop.pendingFunctors_).count _ = 0
  omega

theorem step (orderly : Orderly state) {event : RegistryEvent} {next : ConnectionRegistry}
    (stepped : machine.step event state = some next) : Orderly next := by
  cases step_cases stepped with
  | accepts sockfd _ ioLoop => exact orderly.accepted ioLoop sockfd
  | polls loop active _ _ reported =>
    have sound := orderly.loops loop
    exact orderly.onLoop loop _ ⟨sound.due, sound.once, fun event member => sound.polled _ _ (reported event member).1,
      sound.current, sound.polled⟩
  | enters loop conn revents rest _ first => exact (orderly.entered first).1
  | closes loop conn revents rest _ first =>
    obtain ⟨entered, tied⟩ := orderly.entered first
    exact entered.handleClose tied
  | leaves loop => exact orderly.left loop
  | ends loop closed conn revents inside =>
    have tied : Tied state loop conn := (orderly.loops loop).current _ inside
    exact (orderly.left loop).handleClose (tied.extend (extends_onLoop _ _ _))
  | swaps loop =>
    refine orderly.onLoop loop _ ((orderly.loops loop).fewer ?_ rfl)
    rw [EventLoop.swapFunctors, EventLoop.waiting, List.append_nil]
    exact List.sublist_append_right _ _
  | runs loop cb rest queue => exact orderly.executed queue
  | finishes loop => exact orderly.onLoop loop _ ((orderly.loops loop).fewer (List.Sublist.refl _) rfl)

/-- Fewer than 2^31 connections live as they should. -/
theorem lifecycle (orderly : Orderly state) (few : state.created < 2147483648) : Lifecycle state where
  kept := orderly.registered.kept few
  registered := orderly.registered.registered few
  once conn := by
    by_cases born : conn < state.created
    · exact Nat.le_trans (Nat.le_add_right _ _) ((orderly.loops _).once conn born rfl)
    · rw [(orderly.unborn born).1]
      exact Nat.zero_le _
  placed := orderly.placed
  ordered := orderly.ordered

end Orderly

theorem new_registered (listenAddr : InetAddress) (nameArg : String) (threadPool : EventLoopThreadPool) :
    Registered (new listenAddr nameArg threadPool) where
  short := listenAddr.toIpPort_length
  numbered := rfl
  named _ born := absurd born (Nat.not_lt_zero _)
  removed _ member := by cases member
  kept _ _ member := by cases member
  registered _ key conn := iff_of_false (fun found => by cases found) fun parts => absurd parts.1 (Nat.not_lt_zero _)

theorem new_sound (listenAddr : InetAddress) (nameArg : String) (threadPool : EventLoopThreadPool) (loop : LoopRef) :
    Sound (new listenAddr nameArg threadPool) loop ((new listenAddr nameArg threadPool).loops loop) where
  due _ member := by cases member
  once _ born := absurd born (Nat.not_lt_zero _)
  active _ member := by cases member
  current _ member := by cases member
  polled _ _ mapped := by cases mapped

theorem new_orderly (listenAddr : InetAddress) (nameArg : String) (threadPool : EventLoopThreadPool) :
    Orderly (new listenAddr nameArg threadPool) where
  registered := new_registered listenAddr nameArg threadPool
  addressed _ born := absurd born (Nat.not_lt_zero _)
  loops := new_sound listenAddr nameArg threadPool
  placed _ member := by cases member
  ordered := justified_nil _

/-- In every run of a server that has accepted fewer than 2^31 connections, each of
them lives as it should. -/
theorem connections_live (listenAddr : InetAddress) (nameArg : String) (threadPool : EventLoopThreadPool)
    (events : List RegistryEvent) (final : ConnectionRegistry)
    (reached : machine.run events (new listenAddr nameArg threadPool) = some final) (few : final.created < 2147483648) :
    Lifecycle final := by
  have preserved : ∀ event (before after : ConnectionRegistry), Orderly before →
      machine.step event before = some after → Orderly after :=
    fun _ _ _ orderly stepped => orderly.step stepped
  have orderly := Machine.run_preserves preserved reached (new_orderly listenAddr nameArg threadPool)
  exact orderly.lifecycle few

/-- Two connections on the loop of one thread; the first is closed and destroyed. -/
theorem connections_live_closed : ∃ final : ConnectionRegistry,
    machine.run [.newConnection 8 ⟨10, 0, 0, 1, 4000⟩, .newConnection 9 ⟨10, 0, 0, 2, 4001⟩, .swapFunctors (.subLoop 0),
      .runFunctor (.subLoop 0), .runFunctor (.subLoop 0), .endFunctors (.subLoop 0), .poll (.subLoop 0) [(0, EPOLLHUP)],
      .handleEvent (.subLoop 0), .handleRead (.subLoop 0) false, .swapFunctors .baseLoop, .runFunctor .baseLoop,
      .endFunctors .baseLoop, .swapFunctors (.subLoop 0), .runFunctor (.subLoop 0), .endFunctors (.subLoop 0)]
      (new ⟨127, 0, 0, 1, 8080⟩ "http" ((EventLoopThreadPool.new "http" fun _ => 0).setThreadNum 1).start) = some final ∧
    final.log = [.created 0 false, .created 1 false, .established 0 (.subLoop 0), .established 1 (.subLoop 0),
      .handled 0 (.subLoop 0), .removed 0, .destroyed 0 (.subLoop 0)] ∧ Lifecycle final := by
  have computed : (machine.run [.newConnection 8 ⟨10, 0, 0, 1, 4000⟩, .newConnection 9 ⟨10, 0, 0, 2, 4001⟩,
      .swapFunctors (.subLoop 0), .runFunctor (.subLoop 0), .runFunctor (.subLoop 0), .endFunctors (.subLoop 0),
      .poll (.subLoop 0) [(0, EPOLLHUP)], .handleEvent (.subLoop 0), .handleRead (.subLoop 0) false, .swapFunctors .baseLoop,
      .runFunctor .baseLoop, .endFunctors .baseLoop, .swapFunctors (.subLoop 0), .runFunctor (.subLoop 0),
      .endFunctors (.subLoop 0)] (new ⟨127, 0, 0, 1, 8080⟩ "http"
        ((EventLoopThreadPool.new "http" fun _ => 0).setThreadNum 1).start)).map (fun final => (final.log, final.created)) =
      some ([.created 0 false, .created 1 false, .established 0 (.subLoop 0), .established 1 (.subLoop 0),
        .handled 0 (.subLoop 0), .removed 0, .destroyed 0 (.subLoop 0)], 2) := by
    decide +kernel
  obtain ⟨final, reached, seen⟩ := Option.map_eq_some_iff.mp computed
  obtain ⟨log, created⟩ := Prod.mk.inj seen
  exact ⟨final, reached, log, connections_live _ _ _ _ final reached (by rw [created]; decide)⟩

end ConnectionRegistry
end Webserver
