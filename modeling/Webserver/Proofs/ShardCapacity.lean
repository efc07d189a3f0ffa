import Mathlib.Algebra.Order.Group.Nat
import Webserver.HashLFU
import Webserver.Proofs.CacheIntegrity

/-! The shards of the cache together: each keeps to its own capacity, and the shards'
capacities may add up to more than that of the whole. -/

namespace Webserver
open Library

universe u v
variable {Key : Type u} {Value : Type v}

namespace RLfuCache
variable [DecidableEq Key] [Inhabited Key] {before after : RLfuCache Key Value} {event : CacheEvent Key Value}

/-- A `put` of a key that is not there, into a cache that is not full. -/
def Enters (event : CacheEvent Key Value) (cache : RLfuCache Key Value) : Prop :=
  match event with
  | .put key _ _ => cache.nodeMap_.lookup key = none ∧ cache.size < cache.capacity_
  | _ => False

instance (event : CacheEvent Key Value) (cache : RLfuCache Key Value) : Decidable (Enters event cache) :=
  match event with
  | .put key _ _ => inferInstanceAs (Decidable (cache.nodeMap_.lookup key = none ∧ cache.size < cache.capacity_))
  | .get _ _ => isFalse id
  | .purge => isFalse id

def CacheEvent.key : CacheEvent Key Value → Option Key
  | .put key _ _ => some key
  | .get key _ => some key
  | .purge => none

theorem step_size (sound : Sound before) (stepped : step event before = some after) :
    (Enters event before → after.size = before.size + 1) ∧ (¬Enters event before → after.size ≤ before.size) := by
  obtain ⟨recency, linked⟩ := sound.linked
  cases step_change linked stepped with
  | purged => exact ⟨False.elim, fun _ => Nat.zero_le _⟩
  | missed => exact ⟨False.elim, fun _ => Nat.le_refl _⟩
  | ignored zero => exact ⟨fun enters => absurd enters.2 (by omega), fun _ => Nat.le_refl _⟩
  | accessed found access count =>
    have same : after.size = before.size := by rw [count.size, size, access.nodeMap_, size]
    refine ⟨fun enters => ?_, fun _ => Nat.le_of_eq same⟩
    cases event with
    | put key value order =>
      rw [hit] at found
      split at found
      · cases found
      · cases enters.1.symm.trans found
    | _ => cases enters
  | @inserted key value order freed counted rest positive absent room count =>
    have sizes : counted.size = freed.size + 1 := by rw [count.size, insertNode_size value (room.lookup absent)]
    change (Enters _ before → counted.size = before.size + 1) ∧ (¬Enters _ before → counted.size ≤ before.size)
    have bounded := sound.bounded
    cases room with
    | spare free =>
      refine ⟨fun _ => sizes, fun stays => absurd ⟨absent, ?_⟩ stays⟩
      omega
    | evicted full first left =>
      have lengths := left.residents.length_eq
      rw [List.length_cons, length_residents, length_residents] at lengths
      refine ⟨fun enters => absurd enters.2 (by omega), fun _ => ?_⟩
      omega
  | dummied evicts empty => exact absurd empty (sound.evictable _ evicts)

theorem step_keys (sound : Sound before) (stepped : step event before = some after) {key : Key}
    (member : key ∈ after.nodeMap_) : key ∈ before.nodeMap_ ∨ event.key = some key := by
  obtain ⟨recency, linked⟩ := sound.linked
  cases step_change linked stepped with
  | purged => exact absurd member (AList.notMem_empty key)
  | missed => exact .inl member
  | ignored => exact .inl member
  | accessed found access count =>
    rw [count.nodeMap_, access.nodeMap_] at member
    exact .inl member
  | @inserted other value order freed counted rest positive absent room count =>
    change key ∈ counted.nodeMap_ at member
    rw [count.nodeMap_] at member
    rcases AList.mem_insert _ |>.mp (show key ∈ freed.nodeMap_.insert other freed.allocated from member) with same | inside
    · exact .inr (congrArg some same.symm)
    · cases room with
      | spare => exact .inl inside
      | evicted _ _ left =>
        rw [left.nodeMap_] at inside
        exact .inl (AList.mem_erase.mp inside).2
  | dummied evicts empty => exact absurd empty (sound.evictable _ evicts)

end RLfuCache

namespace RHashLfuCache
variable {before : RHashLfuCache Key Value}

def Resident (cache : RHashLfuCache Key Value) (key : Key) (i : Nat) : Prop :=
  ∃ slice, cache.lfuSliceCaches_[i]? = some slice ∧ key ∈ slice.nodeMap_

/-- What is asked of every state. -/
structure Respects (cache : RHashLfuCache Key Value) : Prop where
  total : cache.total ≤ cache.capacity_.toNat
  apart : ∀ key i j, cache.Resident key i → cache.Resident key j → i = j

structure Sharded (sliceCapacity : Nat) (cache : RHashLfuCache Key Value) : Prop where
  length : cache.lfuSliceCaches_.length = cache.sliceNum_
  light : ∀ slice ∈ cache.lfuSliceCaches_, RLfuCache.Light slice ∧ slice.capacity_ = sliceCapacity
  placed : ∀ key i, cache.Resident key i → cache.sliceIndex key = i

theorem Sharded.apart {sliceCapacity : Nat} (sharded : Sharded sliceCapacity before) (key : Key) (i j : Nat)
    (first : before.Resident key i) (second : before.Resident key j) : i = j :=
  (sharded.placed key i first).symm.trans (sharded.placed key j second)

private theorem purge_total (cache : RHashLfuCache Key Value) : cache.purge.total = 0 := by
  apply List.sum_eq_zero
  intro size member
  simp only [purge, List.map_map, List.mem_map, Function.comp_apply] at member
  obtain ⟨slice, _, rfl⟩ := member
  rfl

private theorem purge_empty (cache : RHashLfuCache Key Value) (key : Key) (i : Nat) : ¬cache.purge.Resident key i := by
  intro ⟨slice, found, member⟩
  rw [purge, List.getElem?_map, Option.map_eq_some_iff] at found
  obtain ⟨old, _, rfl⟩ := found
  exact AList.notMem_empty key member

private theorem onSlice_total {i : Nat} {slice : RLfuCache Key Value} (found : before.lfuSliceCaches_[i]? = some slice)
    (next : RLfuCache Key Value) :
    total { before with lfuSliceCaches_ := before.lfuSliceCaches_.set i next } + slice.size = before.total + next.size := by
  have size : (before.lfuSliceCaches_.map RLfuCache.size)[i]? = some slice.size := by
    rw [List.getElem?_map, found, Option.map_some]
  rw [total, total, List.map_set]
  exact sum_set size next.size

theorem new_total [Inhabited Key] [Inhabited Value] (capacity : UInt64) (sliceNum : Int) (hardware_concurrency : Nat)
    (hashFunc : Key → SizeT) (maxAverageNum : Int) :
    (new capacity sliceNum hardware_concurrency hashFunc maxAverageNum : RHashLfuCache Key Value).total = 0 := by
  apply List.sum_eq_zero
  intro size member
  obtain ⟨slice, inside, rfl⟩ := List.mem_map.mp member
  rw [(List.mem_replicate.mp inside).2]
  rfl

section Runs
variable [DecidableEq Key] [Inhabited Key] {after : RHashLfuCache Key Value} {event : RLfuCache.CacheEvent Key Value}
  {sliceCapacity : Nat}

/-- A key enters its shard only while the shards together have room. -/
def Fits (event : RLfuCache.CacheEvent Key Value) (cache : RHashLfuCache Key Value) : Prop :=
  ∀ key ∈ event.key, ∀ slice ∈ cache.lfuSliceCaches_[cache.sliceIndex key]?,
    RLfuCache.Enters event slice → cache.total < cache.capacity_.toNat

instance (event : RLfuCache.CacheEvent Key Value) (cache : RHashLfuCache Key Value) : Decidable (Fits event cache) :=
  inferInstanceAs (Decidable (∀ key ∈ event.key, ∀ slice ∈ cache.lfuSliceCaches_[cache.sliceIndex key]?,
    RLfuCache.Enters event slice → cache.total < cache.capacity_.toNat))

inductive Turn (event : RLfuCache.CacheEvent Key Value) (before : RHashLfuCache Key Value) :
    RHashLfuCache Key Value → Prop where
  | purged (same : event = .purge) : Turn event before before.purge
  | onSlice (key : Key) (named : event.key = some key) (slice next : RLfuCache Key Value)
      (found : before.lfuSliceCaches_[before.sliceIndex key]? = some slice)
      (made : RLfuCache.step event slice = some next) :
      Turn event before { before with lfuSliceCaches_ := before.lfuSliceCaches_.set (before.sliceIndex key) next }

theorem step_cases (stepped : machine.step event before = some after) : Turn event before after := by
  have sliced (key : Key) (named : event.key = some key) (result : before.onSlice key event = some after) :
      Turn event before after := by
    obtain ⟨slice, found, rest⟩ := Option.bind_eq_some_iff.mp result
    obtain ⟨next, made, same⟩ := Option.bind_eq_some_iff.mp rest
    cases same
    exact .onSlice key named slice next found made
  cases event with
  | put key value order => exact sliced key rfl stepped
  | get key order => exact sliced key rfl stepped
  | purge =>
    cases stepped
    exact .purged rfl

theorem Sharded.step (sharded : Sharded sliceCapacity before) (stepped : machine.step event before = some after) :
    Sharded sliceCapacity after ∧ after.capacity_ = before.capacity_ ∧ after.sliceNum_ = before.sliceNum_ := by
  cases step_cases stepped with
  | purged same =>
    have length : before.purge.lfuSliceCaches_.length = before.sliceNum_ := List.length_map _ |>.trans sharded.length
    refine ⟨⟨length, fun slice member => ?_, fun key i inside => absurd inside (purge_empty before key i)⟩, rfl, rfl⟩
    obtain ⟨old, inside, rfl⟩ := List.mem_map.mp member
    have purged : RLfuCache.step .purge old = some old.purge := rfl
    exact ⟨RLfuCache.step_light (sharded.light old inside).1 purged, (sharded.light old inside).2⟩
  | onSlice key named slice next found made =>
    obtain ⟨light, capacity⟩ := sharded.light slice (List.mem_of_getElem? found)
    refine ⟨⟨List.length_set.trans sharded.length, fun other member => ?_, fun other i inside => ?_⟩, rfl, rfl⟩
    · rcases List.mem_or_eq_of_mem_set member with old | rfl
      · exact sharded.light other old
      · obtain ⟨recency, linked⟩ := light.sound.linked
        have config := (RLfuCache.step_change linked made).config (light.sound.evictable event)
        exact ⟨RLfuCache.step_light light made, config.1.trans capacity⟩
    · obtain ⟨holder, held, member⟩ := inside
      change before.sliceIndex other = i
      rw [List.getElem?_set] at held
      split at held
      next here =>
        subst here
        split at held
        · cases held
          rcases RLfuCache.step_keys light.sound made member with old | same
          · exact sharded.placed other _ ⟨slice, found, old⟩
          · rw [named] at same
            cases same
            rfl
        · cases held
      next elsewhere => exact sharded.placed other i ⟨holder, held, member⟩

/-- Exactly when an operation takes the total over the capacity. -/
theorem Sharded.step_total (sharded : Sharded sliceCapacity before) (within : before.total ≤ before.capacity_.toNat)
    (stepped : machine.step event before = some after) : after.total ≤ before.capacity_.toNat ↔ Fits event before := by
  cases step_cases stepped with
  | purged same =>
    subst same
    rw [purge_total]
    apply iff_of_true (Nat.zero_le _)
    intro key named
    cases named
  | onSlice key named slice next found made =>
    have sound := (sharded.light slice (List.mem_of_getElem? found)).1.sound
    obtain ⟨grows, stays⟩ := RLfuCache.step_size sound made
    have sum := onSlice_total found next
    have fits : Fits event before ↔ (RLfuCache.Enters event slice → before.total < before.capacity_.toNat) := by
      simp only [Fits, named, Option.mem_def, Option.some.injEq, forall_eq', found]
    rw [fits]
    by_cases enters : RLfuCache.Enters event slice
    · have size := grows enters
      refine ⟨fun _ _ => by omega, fun room => ?_⟩
      have less := room enters
      omega
    · have size := stays enters
      exact iff_of_true (by omega) fun entering => absurd entering enters

theorem new_sharded [Inhabited Value] (capacity : UInt64) (sliceNum : Int) (hardware_concurrency : Nat)
    (hashFunc : Key → SizeT) :
    Sharded (narrowed (sliceSize capacity (if sliceNum > 0 then sliceNum.toNat else hardware_concurrency)))
      (new capacity sliceNum hardware_concurrency hashFunc 10 : RHashLfuCache Key Value) := by
  refine ⟨List.length_replicate, fun slice member => ?_, fun key i inside => ?_⟩
  · rw [(List.mem_replicate.mp member).2]
    have capacity (room : Nat) : (RLfuCache.new room 10 : RLfuCache Key Value).capacity_ = room := rfl
    exact ⟨(RLfuCache.new_kept _ (by omega) (by omega)).light, capacity _⟩
  · obtain ⟨slice, found, member⟩ := inside
    rw [(List.mem_replicate.mp (List.mem_of_getElem? found)).2] at member
    exact absurd member (AList.notMem_empty key)

/-- After each operation the shards together keep to the capacity, and no key is in two
of them, if and only if keys enter only while the shards together have room. -/
theorem capacity_respected_iff [Inhabited Value] (capacity : UInt64) (sliceNum : Int)
    (hardware_concurrency : Nat) (hashFunc : Key → SizeT) (events : List (RLfuCache.CacheEvent Key Value))
    (final : RHashLfuCache Key Value)
    (reached : machine.run events (new capacity sliceNum hardware_concurrency hashFunc 10) = some final) :
    machine.Along (fun event cache => ∀ next, machine.step event cache = some next → next.Respects) events
        (new capacity sliceNum hardware_concurrency hashFunc 10) ↔
      machine.Along Fits events (new capacity sliceNum hardware_concurrency hashFunc 10) := by
  have agree : ∀ event (before after : RHashLfuCache Key Value),
      (∃ sliceCapacity, Sharded sliceCapacity before) ∧ before.total ≤ before.capacity_.toNat →
      machine.step event before = some after →
      ((∀ next, machine.step event before = some next → next.Respects) ↔ Fits event before) := by
    intro event before after ⟨⟨sliceCapacity, sharded⟩, within⟩ stepped
    obtain ⟨next, same, _⟩ := sharded.step stepped
    rw [Machine.forall_next stepped, ← sharded.step_total within stepped]
    exact ⟨fun respects => same ▸ respects.total, fun total => ⟨same ▸ total, next.apart⟩⟩
  have preserved : ∀ event (before after : RHashLfuCache Key Value),
      (∀ next, machine.step event before = some next → next.Respects) →
      (∃ sliceCapacity, Sharded sliceCapacity before) ∧ before.total ≤ before.capacity_.toNat →
      machine.step event before = some after →
      (∃ sliceCapacity, Sharded sliceCapacity after) ∧ after.total ≤ after.capacity_.toNat := by
    intro event before after respects ⟨⟨sliceCapacity, sharded⟩, within⟩ stepped
    exact ⟨⟨sliceCapacity, (sharded.step stepped).1⟩, (respects after stepped).total⟩
  refine Machine.along_iff agree preserved reached ⟨⟨_, new_sharded capacity sliceNum hardware_concurrency hashFunc⟩, ?_⟩
  rw [new_total]
  exact Nat.zero_le _

theorem capacity_respected_even : machine.Along
    (fun event (cache : RHashLfuCache Nat Nat) => ∀ next, machine.step event cache = some next → next.Respects)
    [.put 4 1 default, .put 6 1 default, .put 5 1 default, .get 5 default] (new 2 2 8 (Fin.ofNat UInt64.size) 10) := by
  have computed : (machine.run [.put 4 1 default, .put 6 1 default, .put 5 1 default, .get 5 default]
      (new 2 2 8 (Fin.ofNat UInt64.size) 10 : RHashLfuCache Nat Nat)).map total = some 2 := by
    decide +kernel
  obtain ⟨final, reached, _⟩ := Option.map_eq_some_iff.mp computed
  exact (capacity_respected_iff 2 2 8 _ _ final reached).mpr (by decide +kernel)

/-- The size of a shard is rounded up: one entry in all becomes one in each of two shards. -/
theorem shards_exceed_capacity : ∃ final : RHashLfuCache Nat Nat,
    machine.run [.put 4 1 default, .put 5 1 default] (new 1 2 8 (Fin.ofNat UInt64.size) 10) = some final ∧
    final.capacity_ = 1 ∧ final.total = 2 ∧ ¬final.Respects := by
  have computed : (machine.run [.put 4 1 default, .put 5 1 default]
      (new 1 2 8 (Fin.ofNat UInt64.size) 10 : RHashLfuCache Nat Nat)).map (fun cache => (cache.capacity_, cache.total)) =
        some (1, 2) := by
    decide +kernel
  obtain ⟨final, reached, seen⟩ := Option.map_eq_some_iff.mp computed
  simp only [Prod.mk.injEq] at seen
  refine ⟨final, reached, seen.1, seen.2, fun respects => ?_⟩
  have total := respects.total
  rw [seen.1, seen.2] at total
  exact absurd total (by decide)

/-- No run exceeds the capacity when the shards' capacities add up to no more. -/
theorem total_le_of_exact [Inhabited Value] {capacity : UInt64} {sliceNum : Int} (positive : 1 ≤ sliceNum)
    (exact : sliceNum.toNat * narrowed (sliceSize capacity sliceNum.toNat) ≤ capacity.toNat)
    {hardware_concurrency : Nat} {hashFunc : Key → SizeT} {events : List (RLfuCache.CacheEvent Key Value)}
    {final : RHashLfuCache Key Value}
    (reached : machine.run events (new capacity sliceNum hardware_concurrency hashFunc 10) = some final) :
    final.total ≤ capacity.toNat := by
  have start := @new_sharded Key Value _ _ _ capacity sliceNum hardware_concurrency hashFunc
  rw [if_pos (by omega)] at start
  have preserved : ∀ event (before after : RHashLfuCache Key Value),
      Sharded (narrowed (sliceSize capacity sliceNum.toNat)) before ∧ before.sliceNum_ = sliceNum.toNat →
      machine.step event before = some after →
      Sharded (narrowed (sliceSize capacity sliceNum.toNat)) after ∧ after.sliceNum_ = sliceNum.toNat := by
    intro event before after ⟨sharded, slices⟩ stepped
    obtain ⟨next, _, same⟩ := sharded.step stepped
    exact ⟨next, same.trans slices⟩
  obtain ⟨sharded, slices⟩ := Machine.run_preserves preserved reached ⟨start, if_pos (by omega)⟩
  have each : ∀ size ∈ final.lfuSliceCaches_.map RLfuCache.size, size ≤ narrowed (sliceSize capacity sliceNum.toNat) := by
    intro size member
    obtain ⟨slice, inside, rfl⟩ := List.mem_map.mp member
    obtain ⟨light, same⟩ := sharded.light slice inside
    exact same ▸ light.sound.bounded
  have sum := List.sum_le_card_nsmul _ _ each
  rw [List.length_map, sharded.length, slices, nsmul_eq_mul, Nat.cast_id] at sum
  exact Nat.le_trans sum exact

end Runs

end RHashLfuCache
end Webserver
