import Mathlib.Data.List.OfFn
import Webserver.HashLFU
import Webserver.Library.Copies

/-! The sharded cache is so many caches beside one another: each behaves as it would
alone, with the operations on its own keys. -/

namespace Webserver
open Library

universe u v
variable {Key : Type u} {Value : Type v}

namespace RHashLfuCache
variable {n : Nat} {capacity : UInt64} {hashFunc : Key → SizeT}

def ofShards (capacity : UInt64) (hashFunc : Key → SizeT) (shards : Fin n → RLfuCache Key Value) :
    RHashLfuCache Key Value := ⟨capacity, n, List.ofFn shards, hashFunc⟩

/-- An operation on a key is one of its shard, and `purge` is one of every shard. -/
def reaches (hashFunc : Key → SizeT) (i : Fin n) : RLfuCache.CacheEvent Key Value → Bool
  | .put key _ _ => (hashFunc key).val % n = i
  | .get key _ => (hashFunc key).val % n = i
  | .purge => true

private theorem ofShards_set (shards : Fin n → RLfuCache Key Value) (i : Fin n) (slice : RLfuCache Key Value) :
    { ofShards capacity hashFunc shards with lfuSliceCaches_ := (List.ofFn shards).set i slice } =
      ofShards capacity hashFunc (Function.update shards i slice) := by
  have same : (List.ofFn shards).set i slice = List.ofFn (Function.update shards i slice) := by
    apply List.ext_getElem (by simp)
    intro j first last
    rw [List.getElem_set, List.getElem_ofFn, List.getElem_ofFn]
    split
    next here =>
      subst here
      rw [Function.update_self]
    next other => rw [Function.update_of_ne fun here => other (congrArg Fin.val here).symm]
  rw [ofShards, ofShards, same]

def home [NeZero n] (hashFunc : Key → SizeT) (key : Key) : Fin n := ⟨(hashFunc key).val % n, Nat.mod_lt _ (Nat.pos_of_neZero n)⟩

theorem new_ofShards [Inhabited Key] [Inhabited Value] {sliceNum : Int} {hardware_concurrency : Nat} {maxAverageNum : Int}
    (slices : (new capacity sliceNum hardware_concurrency hashFunc maxAverageNum : RHashLfuCache Key Value).sliceNum_ = n) :
    (new capacity sliceNum hardware_concurrency hashFunc maxAverageNum : RHashLfuCache Key Value) =
      ofShards capacity hashFunc fun _ : Fin n => .new (narrowed (sliceSize capacity n)) maxAverageNum := by
  subst slices
  rw [ofShards, List.ofFn_const]
  rfl

variable [NeZero n]

private theorem ofShards_slice (shards : Fin n → RLfuCache Key Value) (key : Key) :
    (ofShards capacity hashFunc shards).lfuSliceCaches_[(ofShards capacity hashFunc shards).sliceIndex key]? =
      some (shards (home hashFunc key)) := by
  have inside : (hashFunc key).val % n < n := (home hashFunc key : Fin n).isLt
  change (List.ofFn shards)[(hashFunc key).val % n]? = _
  rw [List.getElem?_ofFn, dif_pos inside]
  rfl

variable [DecidableEq Key]

private theorem ofShards_get (order : RLfuCache.Order) (key : Key) (shards : Fin n → RLfuCache Key Value) :
    ((ofShards capacity hashFunc shards).get order key).map Prod.fst =
      ((shards (home hashFunc key)).get order key).map Prod.fst := by
  rw [get, ofShards_slice]
  cases found : (shards (home hashFunc key)).get order key with
  | none =>
    simp only [Option.bind_eq_bind, Option.bind_some, found]
    rfl
  | some result =>
    simp only [Option.bind_eq_bind, Option.bind_some, found]
    rfl

variable [Inhabited Key]

private theorem ofShards_onSlice (shards : Fin n → RLfuCache Key Value) (key : Key) (event : RLfuCache.CacheEvent Key Value) :
    (ofShards capacity hashFunc shards).onSlice key event =
      (RLfuCache.step event (shards (home hashFunc key))).map fun slice =>
        ofShards capacity hashFunc (Function.update shards (home hashFunc key) slice) := by
  rw [onSlice, ofShards_slice]
  cases made : RLfuCache.step event (shards (home hashFunc key)) with
  | none =>
    simp only [Option.bind_eq_bind, Option.bind_some, made]
    rfl
  | some slice =>
    simp only [Option.bind_eq_bind, Option.bind_some, made]
    exact congrArg some (ofShards_set shards (home hashFunc key) slice)

/-- A step of the cache is one of the copies. -/
private theorem ofShards_step (event : RLfuCache.CacheEvent Key Value) (shards : Fin n → RLfuCache Key Value) :
    machine.step event (ofShards capacity hashFunc shards) =
      ((RLfuCache.machine.copies (reaches hashFunc)).step event shards).map (ofShards capacity hashFunc) := by
  have sliced (key : Key) (one : ∀ j : Fin n, reaches hashFunc j event = true ↔ j = home hashFunc key) :
      (ofShards capacity hashFunc shards).onSlice key event =
        ((RLfuCache.machine.copies (reaches hashFunc)).step event shards).map (ofShards capacity hashFunc) := by
    rw [ofShards_onSlice, Machine.copies_step_one one, Option.map_map]
    rfl
  cases event with
  | put key value order => exact sliced key fun j => by simp [reaches, home, Fin.ext_iff, eq_comm]
  | get key order => exact sliced key fun j => by simp [reaches, home, Fin.ext_iff, eq_comm]
  | purge =>
    have purged : (RLfuCache.machine.copies (reaches hashFunc)).step .purge shards = some fun i => (shards i).purge :=
      Machine.copies_step.mpr fun i => rfl
    rw [purged]
    change some (purge _) = some _
    rw [purge, ofShards, ofShards, List.map_ofFn]
    rfl

private theorem ofShards_run (events : List (RLfuCache.CacheEvent Key Value)) (shards : Fin n → RLfuCache Key Value) :
    machine.run events (ofShards capacity hashFunc shards) =
      ((RLfuCache.machine.copies (reaches hashFunc)).run events shards).map (ofShards capacity hashFunc) :=
  Machine.run_map ofShards_step events shards

/-- After any operations each shard is what its own operations alone make of a cache of
its size, and a key is found as it is there. Operations for different shards may trade
places: what the shards come to is the same. -/
theorem shards_independent [Inhabited Value] (sliceNum : Int) (hardware_concurrency : Nat) (maxAverageNum : Int)
    (events : List (RLfuCache.CacheEvent Key Value)) (final : RHashLfuCache Key Value)
    (slices : (new capacity sliceNum hardware_concurrency hashFunc maxAverageNum : RHashLfuCache Key Value).sliceNum_ = n)
    (reached : machine.run events (new capacity sliceNum hardware_concurrency hashFunc maxAverageNum) = some final) :
    (∀ i : Fin n, RLfuCache.machine.run (events.filter (reaches hashFunc i))
      (.new (narrowed (sliceSize capacity n)) maxAverageNum) = final.lfuSliceCaches_[i]?) ∧
    (∀ order key, (final.get order key).map Prod.fst =
      ((RLfuCache.machine.run (events.filter (reaches hashFunc (home hashFunc key : Fin n)))
        (.new (narrowed (sliceSize capacity n)) maxAverageNum)).bind (RLfuCache.get order key)).map Prod.fst) ∧
    ∀ others, (∀ i : Fin n, events.filter (reaches hashFunc i) = others.filter (reaches hashFunc i)) →
      machine.run others (new capacity sliceNum hardware_concurrency hashFunc maxAverageNum) = some final := by
  rw [new_ofShards slices, ofShards_run, Option.map_eq_some_iff] at reached
  obtain ⟨shards, ran, rfl⟩ := reached
  have each := Machine.copies_run.mp ran
  refine ⟨fun i => ?_, fun order key => ?_, fun others same => ?_⟩
  · rw [each i]
    exact (List.getElem?_ofFn.trans (dif_pos i.isLt)).symm
  · rw [ofShards_get, each, Option.bind_some]
  · rw [new_ofShards slices, ofShards_run, ← Machine.copies_run_congr same, ran, Option.map_some]

/-- The two operations on the second shard may come before those on the first. -/
theorem shards_independent_two : ∃ final : RHashLfuCache Nat Nat,
    machine.run [.put 4 1 default, .put 5 2 default, .put 6 3 default, .get 5 default]
      (new 4 2 8 (Fin.ofNat UInt64.size) 10) = some final ∧
    machine.run [.put 5 2 default, .get 5 default, .put 4 1 default, .put 6 3 default]
      (new 4 2 8 (Fin.ofNat UInt64.size) 10) = some final ∧
    (final.get default 5).map Prod.fst = some (some 2) := by
  have runs : (machine.run [.put 4 1 default, .put 5 2 default, .put 6 3 default, .get 5 default]
      (new 4 2 8 (Fin.ofNat UInt64.size) 10 : RHashLfuCache Nat Nat)).isSome := by
    decide +kernel
  obtain ⟨final, reached⟩ := Option.isSome_iff_exists.mp runs
  obtain ⟨_, found, commute⟩ := shards_independent 2 8 10 _ final (rfl : _ = 2) reached
  refine ⟨final, reached, commute _ fun | 0 => rfl | 1 => rfl, ?_⟩
  rw [found]
  decide +kernel

end RHashLfuCache
end Webserver
