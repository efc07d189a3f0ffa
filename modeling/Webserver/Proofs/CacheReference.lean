import Mathlib.Data.Int.Order.Basic
import Webserver.Proofs.CacheEviction

/-! The cache against the policy that it is named for: while nothing decays, it evicts
the entry with the fewest accesses, and of those the one not accessed for longest. -/

namespace Webserver
open Library

universe u v

structure Entry (Key : Type u) (Value : Type v) where
  key : Key
  value : Value
  count : Int

/-- The reference cache; its entries stand in the order of their last access. -/
structure Reference (Key : Type u) (Value : Type v) where
  capacity : Nat
  entries : List (Entry Key Value)

namespace Reference
variable {Key : Type u} {Value : Type v} [DecidableEq Key]

def new (capacity : Nat) : Reference Key Value := ⟨capacity, []⟩

def find (reference : Reference Key Value) (key : Key) : Option (Entry Key Value) :=
  reference.entries.find? fun entry => entry.key = key

def remove (reference : Reference Key Value) (key : Key) : Reference Key Value :=
  { reference with entries := reference.entries.filter fun entry => entry.key ≠ key }

def add (reference : Reference Key Value) (entry : Entry Key Value) : Reference Key Value :=
  { reference with entries := reference.entries ++ [entry] }

def access (reference : Reference Key Value) (entry : Entry Key Value) : Reference Key Value :=
  (reference.remove entry.key).add { entry with count := entry.count + 1 }

/-- The least count, and of those the least recent access. -/
def victim (reference : Reference Key Value) : Option (Entry Key Value) :=
  reference.entries.find? fun entry => reference.entries.all fun other => entry.count ≤ other.count

def evict (reference : Reference Key Value) : Reference Key Value :=
  match reference.victim with
  | some entry => reference.remove entry.key
  | none => reference

def get (reference : Reference Key Value) (key : Key) : Option Value × Reference Key Value :=
  match reference.find key with
  | some entry => (some entry.value, reference.access entry)
  | none => (none, reference)

def put (reference : Reference Key Value) (key : Key) (value : Value) : Reference Key Value :=
  match reference.find key with
  | some entry => reference.access { entry with value := value }
  | none =>
    let room := if reference.entries.length = reference.capacity then reference.evict else reference
    room.add ⟨key, value, 1⟩

def apply (reference : Reference Key Value) (event : RLfuCache.CacheEvent Key Value) : Reference Key Value :=
  match event with
  | .put key value _ => reference.put key value
  | .get key _ => (reference.get key).2
  | .purge => { reference with entries := [] }

end Reference

namespace RLfuCache
variable {Key : Type u} {Value : Type v} {before after : RLfuCache Key Value} {recency : List NodePtr}
  {node : NodePtr}

def entry (cache : RLfuCache Key Value) (node : NodePtr) : Entry Key Value :=
  ⟨(cache.nodes node).key, (cache.nodes node).value, cache.freq node⟩

section Events
variable [DecidableEq Key]

theorem Linked.same_key (linked : Linked before recency) {other : NodePtr} (member : node ∈ recency)
    (inside : other ∈ recency) : (before.nodes other).key = (before.nodes node).key ↔ other = node := by
  constructor
  · intro same
    have first := linked.lookup (linked.resident.mem_iff.mp inside)
    rw [same, linked.lookup (linked.resident.mem_iff.mp member)] at first
    exact (Option.some.inj first).symm
  · rintro rfl
    rfl

theorem Linked.find_recency (linked : Linked before recency) (key : Key) :
    (recency.find? fun node => (before.nodes node).key = key) = before.nodeMap_.lookup key := by
  cases looked : before.nodeMap_.lookup key with
  | none =>
    rw [List.find?_eq_none]
    intro node member same
    have found := linked.lookup (linked.resident.mem_iff.mp member)
    rw [of_decide_eq_true same, looked] at found
    cases found
  | some node =>
    obtain ⟨member, keyed⟩ := linked.lookup_iff.mp looked
    have some : (recency.find? fun node => (before.nodes node).key = key).isSome := by
      rw [List.find?_isSome]
      exact ⟨node, linked.resident.mem_iff.mpr member, by simp [keyed]⟩
    obtain ⟨other, found⟩ := Option.isSome_iff_exists.mp some
    rw [found]
    have same : (before.nodes other).key = key := by simpa using List.find?_some found
    have again := linked.lookup (linked.resident.mem_iff.mp (List.mem_of_find?_eq_some found))
    rw [same, looked] at again
    exact again.symm

variable {reference : Reference Key Value}

private theorem mirror_find (linked : Linked before recency) (same : reference.entries = recency.map before.entry)
    (key : Key) :
    reference.find key = (before.nodeMap_.lookup key).map before.entry := by
  rw [Reference.find, same, List.find?_map, ← linked.find_recency]
  rfl

private theorem mirror_remove (linked : Linked before recency) (same : reference.entries = recency.map before.entry)
    (member : node ∈ recency) :
    (reference.remove (before.nodes node).key).entries = (recency.erase node).map before.entry := by
  simp only [Reference.remove]
  rw [same, List.filter_map, linked.filed.nodup.erase_eq_filter]
  apply congrArg
  apply List.filter_congr
  intro other inside
  have keys := linked.same_key member inside
  rw [Bool.eq_iff_iff]
  simp [entry, keys]

private theorem mirror_access {value : Value} (linked : Linked before recency)
    (same : reference.entries = recency.map before.entry) (member : node ∈ before.residents)
    (access : Touched before node value recency after) :
    (reference.access { before.entry node with value := value }).entries =
      (recency.erase node ++ [node]).map after.entry := by
  have active := linked.resident.mem_iff.mpr member
  have removed := mirror_remove linked same active
  have last : after.entry node = ⟨(before.nodes node).key, value, before.freq node + 1⟩ := by
    rw [entry, access.freq_apply, if_pos rfl, access.nodes]
    simp
  have others : ∀ other ∈ recency.erase node, after.entry other = before.entry other := by
    intro other inside
    have different : other ≠ node := by
      rintro rfl
      exact linked.filed.nodup.not_mem_erase inside
    rw [entry, entry, access.freq_apply, if_neg different, access.nodes, Function.update_of_ne different]
  rw [List.map_append, List.map_congr_left others, List.map_singleton, last, ← removed]
  rfl

private theorem mirror_evict {victim : NodePtr} {rest : List NodePtr} (linked : Linked before recency) (lower : Lower before)
    (same : reference.entries = recency.map before.entry) (first : before.bucket before.minFreq_ = victim :: rest) :
    reference.evict.entries = (recency.erase victim).map before.entry := by
  have least := linked.filed.first_least (fun other inside => lower.below other (linked.resident.mem_iff.mp inside)) first
  have found : reference.victim = some (before.entry victim) := by
    rw [Reference.victim, same, List.find?_map]
    simp only [List.all_map]
    exact congrArg (Option.map before.entry) least
  have member : victim ∈ recency := (linked.filed.mem.mp (by rw [first]; exact List.mem_cons_self)).1
  rw [Reference.evict, found]
  exact mirror_remove linked same member

/-- The cache and its reference hold the same entries, in one order of access. -/
structure Mirrors (cache : RLfuCache Key Value) (reference : Reference Key Value) : Prop where
  sound : Sound cache
  entries : ∃ recency, Linked cache recency ∧ reference.entries = recency.map cache.entry
  capacity : reference.capacity = cache.capacity_
  positive : cache.capacity_ ≠ 0

private theorem mirror_room {freed : RLfuCache Key Value} {rest : List NodePtr} (linked : Linked before recency)
    (lower : Lower before) (same : reference.entries = recency.map before.entry)
    (capacity : reference.capacity = before.capacity_) (room : Room before recency freed rest) :
    (if reference.entries.length = reference.capacity then reference.evict else reference).entries =
      rest.map before.entry := by
  have sizes : reference.entries.length = before.size := by
    rw [same, List.length_map, linked.resident.length_eq, length_residents]
  rw [sizes, capacity]
  cases room with
  | spare free => rw [if_neg free, same]
  | evicted full first => rw [if_pos full, mirror_evict linked lower same first]

private theorem evict_capacity (reference : Reference Key Value) : reference.evict.capacity = reference.capacity := by
  rw [Reference.evict]
  split <;> rfl

private theorem mirror_insert {freed : RLfuCache Key Value} {rest : List NodePtr} {key : Key} (value : Value)
    (linked : Linked before recency) (lower : Lower before) (same : reference.entries = recency.map before.entry)
    (capacity : reference.capacity = before.capacity_) (absent : before.nodeMap_.lookup key = none)
    (room : Room before recency freed rest) :
    (reference.put key value).entries = (rest ++ [freed.allocated]).map (freed.insertNode key value).entry ∧
      (reference.put key value).capacity = before.capacity_ := by
  have missed : reference.find key = none := by rw [mirror_find linked same, absent]; rfl
  have kept := mirror_room linked lower same capacity room
  have counts := insertNode_freq freed key value
  have nodes : (freed.insertNode key value).nodes = Function.update freed.nodes freed.allocated ⟨1, key, value⟩ := rfl
  have last : (freed.insertNode key value).entry freed.allocated = ⟨key, value, 1⟩ := by
    rw [entry, counts, nodes]
    simp
  have others : ∀ node ∈ rest, (freed.insertNode key value).entry node = before.entry node := by
    intro node inside
    have unlinked := room.linked linked
    have old : node ≠ freed.allocated := Nat.ne_of_lt (unlinked.fresh node (unlinked.resident.mem_iff.mp inside))
    rw [entry, entry, counts, nodes, Function.update_of_ne old, Function.update_of_ne old, room.nodes, RLfuCache.freq,
      room.nodes]
    rfl
  rw [List.map_append, List.map_congr_left others, List.map_singleton, last, ← kept]
  simp only [Reference.put, missed]
  refine ⟨rfl, ?_⟩
  simp only [Reference.add]
  split
  next => rw [evict_capacity, capacity]
  next => exact capacity

/-- Nothing that a caller of the cache sees tells it from its reference. -/
structure Agree (cache : RLfuCache Key Value) (reference : Reference Key Value) : Prop where
  residents : ∀ key, key ∈ cache.nodeMap_ ↔ ∃ entry ∈ reference.entries, entry.key = key
  values : ∀ key, cache.find key = (reference.find key).map Entry.value
  results : ∀ key order, (cache.get order key).map Prod.fst = some (reference.get key).1

theorem Mirrors.agree (mirrors : Mirrors before reference) : Agree before reference := by
  obtain ⟨recency, linked, same⟩ := mirrors.entries
  have values : ∀ key, before.find key = (reference.find key).map Entry.value := by
    intro key
    rw [mirror_find linked same, find, Option.map_map]
    rfl
  refine ⟨?_, values, ?_⟩
  · intro key
    rw [← AList.lookup_isSome, ← Option.isSome_map (f := before.entry), ← mirror_find linked same, Reference.find,
      List.find?_isSome]
    simp
  · intro key order
    obtain ⟨after, got⟩ := get_find linked key order
    rw [got, values, Reference.get]
    cases reference.find key <;> rfl

variable [Inhabited Key] {event : CacheEvent Key Value}

theorem step_mirrors (mirrors : Mirrors before reference) (stepped : step event before = some after)
    (calm : after.curAverageNum_ ≤ after.maxAverageNum_) : Mirrors after (reference.apply event) := by
  obtain ⟨sound, ⟨recency, linked, same⟩, capacity, positive⟩ := mirrors
  have change := step_change linked stepped
  have config := (change.config (sound.evictable event)).1
  have quiet : ∀ node ∈ hit event before, ¬ before.Overflows := by
    intro node found overflows
    obtain ⟨touched, access, count⟩ := change.of_hit found
    exact count.exceeds (access.overflows.mpr overflows) calm
  have result := step_sound sound (.inr calm) (fun node found overflows => absurd overflows (quiet node found)) stepped
  suffices mirror : (∃ order, Linked after order ∧ (reference.apply event).entries = order.map after.entry) ∧
      (reference.apply event).capacity = before.capacity_ from
    ⟨result, mirror.1, mirror.2.trans config.symm, config ▸ positive⟩
  cases change with
  | purged => exact ⟨⟨[], Linked.empty rfl rfl, rfl⟩, capacity⟩
  | @missed key order absent =>
    have missed : reference.find key = none := by rw [mirror_find linked same, absent]; rfl
    simp only [Reference.apply, Reference.get, missed]
    exact ⟨⟨recency, linked, same⟩, capacity⟩
  | ignored zero => exact absurd zero positive
  | @accessed _ node touched _ found access count =>
    have member := linked.hit_resident found
    have settled := count.calm fun overflows => quiet node found (access.overflows.mp overflows)
    have mirror := mirror_access linked same member access
    have applied : reference.apply event = reference.access { before.entry node with value := stored event node before } := by
      cases event with
      | put key value order =>
        have mirrored : reference.find key = some (before.entry node) := by
          rw [mirror_find linked same, (if_neg positive).symm.trans found]
          rfl
        simp only [Reference.apply, Reference.put, mirrored]
        rfl
      | get key order =>
        have mirrored : reference.find key = some (before.entry node) := by
          rw [mirror_find linked same, show before.nodeMap_.lookup key = some node from found]
          rfl
        simp only [Reference.apply, Reference.get, mirrored]
        rfl
      | purge => cases found
    rw [applied, settled]
    exact ⟨⟨_, access.linked.ticked, mirror⟩, capacity⟩
  | @inserted key value order freed counted rest _ absent room count =>
    have settled := count.calm fun overflows => count.exceeds overflows calm
    obtain ⟨mirror, sizes⟩ := mirror_insert value linked sound.lower same capacity absent room
    have inserted := insertNode_linked value (room.linked linked) (room.lookup absent)
    rw [settled]
    exact ⟨⟨_, inserted.ticked.least _, mirror⟩, sizes⟩
  | dummied evicts empty => exact absurd empty (sound.evictable _ evicts)

/-- The operation leaves an average within its limit. -/
def Calm (event : CacheEvent Key Value) (cache : RLfuCache Key Value) : Prop :=
  ∀ next ∈ step event cache, next.curAverageNum_ ≤ next.maxAverageNum_

instance (event : CacheEvent Key Value) (cache : RLfuCache Key Value) : Decidable (Calm event cache) :=
  inferInstanceAs (Decidable (∀ next ∈ step event cache, next.curAverageNum_ ≤ next.maxAverageNum_))

/-- While no average exceeds `maxAverageNum`, no operation goes through a null pointer, and
the cache is the least frequently used one. -/
theorem run_agrees [Inhabited Value] {capacity : Nat} (positive : 1 ≤ capacity) {maxAverageNum : Int}
    {events : List (CacheEvent Key Value)} (calm : machine.Along Calm events (new capacity maxAverageNum)) :
    ∃ cache, machine.run events (new capacity maxAverageNum) = some cache ∧
      Agree cache (events.foldl Reference.apply (Reference.new capacity)) := by
  have initial : Mirrors (new capacity maxAverageNum : RLfuCache Key Value) (Reference.new capacity) := by
    refine ⟨new_sound capacity maxAverageNum, ⟨[], Linked.empty rfl rfl, rfl⟩, rfl, ?_⟩
    show capacity ≠ 0
    omega
  have refines : ∀ event (before : RLfuCache Key Value) reference, Calm event before → Mirrors before reference →
      ∃ after, machine.step event before = some after ∧ Mirrors after (reference.apply event) := by
    intro event before reference calm mirrors
    obtain ⟨recency, linked⟩ := mirrors.sound.linked
    obtain ⟨after, stepped, _⟩ := step_spec event linked (mirrors.sound.evictable event)
    exact ⟨after, stepped, step_mirrors mirrors stepped (calm after stepped)⟩
  obtain ⟨cache, reached, mirrors⟩ := Machine.run_refines_along refines calm initial
  exact ⟨cache, reached, mirrors.agree⟩

/-- Two keys with one access each: the one accessed first goes. -/
theorem run_agrees_tie : ∃ cache : RLfuCache Nat Nat,
    machine.run [.put 1 7 default, .put 2 8 default, .put 3 9 default] (new 2 10) = some cache ∧
    cache.find 1 = none ∧ cache.find 2 = some 8 ∧
    Agree cache ([.put 1 7 default, .put 2 8 default, .put 3 9 default].foldl Reference.apply (Reference.new 2)) := by
  have calm : machine.Along Calm [.put 1 7 default, .put 2 8 default, .put 3 9 default] (new 2 10 : RLfuCache Nat Nat) := by
    decide +kernel
  obtain ⟨cache, reached, agree⟩ := run_agrees (by decide) calm
  have computed : (machine.run
    [.put 1 7 default, .put 2 8 default, .put 3 9 default] (new 2 10 : RLfuCache Nat Nat)).map
    (fun cache => (cache.find 1, cache.find 2)) = some (none, some 8) := by
    decide +kernel
  rw [reached] at computed
  simp only [Option.map_some, Option.some.injEq, Prod.mk.injEq] at computed
  exact ⟨cache, reached, computed.1, computed.2, agree⟩

end Events
end RLfuCache
end Webserver
