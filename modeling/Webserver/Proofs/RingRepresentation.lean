import Mathlib.Data.List.Nodup
import Webserver.Proofs.RingLookup

/-! The two containers of the ring. They stay in step as long as each addition brings
hashes that are new: a removal takes one copy of a hash from the list. -/

namespace Webserver
open Library

namespace ConsistentHash

/-- The list is the sorted form of the map's keys, so that each position found has an owner. -/
structure Represented (ring : ConsistentHash) : Prop where
  strict : ring.sortedHashes_.Pairwise (· < ·)
  aligned : Aligned ring
  owned : ∀ key hash, ring.getNode key = .ok hash → ∃ node, ring.circle_.lookup hash = some node

/-- The operation leaves a ring that represents its nodes. -/
def RingEvent.KeepsRepresented (event : RingEvent) (before : ConsistentHash) : Prop :=
  ∀ after, machine.step event before = some after → after.Represented

/-- An addition brings virtual nodes with different hashes, none of which is on the ring. -/
def RingEvent.AddsFresh (event : RingEvent) (before : ConsistentHash) : Prop :=
  match event with
  | .addNode node => ((List.range before.numReplicas_).map (before.replicaHash node)).Nodup ∧
      ∀ i < before.numReplicas_, before.replicaHash node i ∉ before.sortedHashes_
  | .removeNode _ => True

private theorem strict_iff (ring : ConsistentHash) : ring.sortedHashes_.Pairwise (· < ·) ↔ ring.sortedHashes_.Nodup := by
  constructor
  · exact List.Pairwise.imp ne_of_lt
  · intro once
    exact ring.sorted.imp₂ (fun _ _ => lt_of_le_of_ne) once

private theorem getNode_mem {ring : ConsistentHash} {key : String} {hash : SizeT} (found : ring.getNode key = .ok hash) :
    hash ∈ ring.sortedHashes_ := by
  rw [getNode] at found
  split at found
  · cases found
  · split at found
    next other next =>
      cases found
      have occupied : ring.sortedHashes_ ≠ [] := by
        intro empty
        rw [empty] at next
        cases next
      obtain ⟨_, member, same, _⟩ := nextOnRing_spec ring.sorted occupied (ring.hashFunction_ key)
      rw [next] at same
      cases same
      exact member
    next => cases found

private theorem represented_of {ring : ConsistentHash} (once : ring.sortedHashes_.Nodup) (aligned : Aligned ring) :
    Represented ring where
  strict := (strict_iff ring).mpr once
  aligned := aligned
  owned _ hash found := Option.isSome_iff_exists.mp (AList.lookup_isSome.mpr ((aligned hash).mpr (getNode_mem found)))

theorem new_represented (numReplicas : Nat) (hashFunc : String → SizeT) : Represented (new numReplicas hashFunc) :=
  represented_of List.nodup_nil (new_aligned _ _)

/-- Sorting does not remove what is there twice. -/
private theorem addNode_represented_iff {ring : ConsistentHash} (represented : Represented ring) (node : String) :
    Represented (ring.addNode node) ↔ (RingEvent.addNode node).AddsFresh ring := by
  have added : (ring.addNode node).sortedHashes_.Nodup ↔
      (ring.sortedHashes_ ++ (List.range ring.numReplicas_).map (ring.replicaHash node)).Nodup :=
    (List.perm_insertionSort _ _).nodup_iff
  have split : (ring.addNode node).sortedHashes_.Nodup ↔ (RingEvent.addNode node).AddsFresh ring := by
    rw [added, List.nodup_append']
    constructor
    · intro ⟨_, different, apart⟩
      refine ⟨different, fun i inside present => ?_⟩
      exact apart present (List.mem_map.mpr ⟨i, List.mem_range.mpr inside, rfl⟩)
    · intro ⟨different, absent⟩
      refine ⟨(strict_iff ring).mp represented.strict, different, fun hash present new => ?_⟩
      obtain ⟨i, inside, rfl⟩ := List.mem_map.mp new
      exact absent i (List.mem_range.mp inside) present
  rw [← split]
  constructor
  · intro kept
    exact (strict_iff _).mp kept.strict
  · intro once
    exact represented_of once (represented.aligned.addNode node)

private theorem eraseHash_represented {ring : ConsistentHash} (represented : Represented ring) (hash : SizeT) :
    Represented (ring.eraseHash hash) := by
  have once := (strict_iff ring).mp represented.strict
  apply represented_of (once.erase hash)
  intro other
  simp only [eraseHash, AList.mem_erase, once.mem_erase_iff, represented.aligned other]

private theorem removeNode_represented {ring : ConsistentHash} (represented : Represented ring) (node : String) :
    Represented (ring.removeNode node) := by
  have erased (replicas : List Nat) (rest : ConsistentHash) (kept : Represented rest) :
      Represented (replicas.foldl (fun rest i => rest.eraseHash (ring.removedHash node i)) rest) := by
    induction replicas generalizing rest with
    | nil => exact kept
    | cons i replicas ih => exact ih _ (eraseHash_represented kept _)
  exact erased _ ring represented

theorem step_represented_iff {event : RingEvent} {before after : ConsistentHash} (represented : Represented before)
    (stepped : machine.step event before = some after) : event.KeepsRepresented before ↔ event.AddsFresh before := by
  have keeps : event.KeepsRepresented before ↔ Represented after := Machine.forall_next stepped
  rw [keeps]
  cases event <;> cases stepped
  case addNode node => exact addNode_represented_iff represented node
  case removeNode node => exact iff_of_true (removeNode_represented represented node) trivial

theorem run_total (events : List RingEvent) (ring : ConsistentHash) : ∃ final, machine.run events ring = some final := by
  induction events generalizing ring with
  | nil => exact ⟨ring, rfl⟩
  | cons event events ih =>
    cases event with
    | addNode node => exact ih (ring.addNode node)
    | removeNode node => exact ih (ring.removeNode node)

/-- The two containers agree after each operation of a run if and only if each of its
additions brings new hashes, whatever is removed. -/
theorem ring_represented_iff (numReplicas : Nat) (hashFunc : String → SizeT) (events : List RingEvent) :
    machine.Along RingEvent.KeepsRepresented events (new numReplicas hashFunc) ↔
      machine.Along RingEvent.AddsFresh events (new numReplicas hashFunc) := by
  obtain ⟨final, reached⟩ := run_total events (new numReplicas hashFunc)
  have agree : ∀ event (before after : ConsistentHash), Represented before → machine.step event before = some after →
      (event.KeepsRepresented before ↔ event.AddsFresh before) :=
    fun event before after represented stepped => step_represented_iff represented stepped
  have preserved : ∀ event (before after : ConsistentHash), event.KeepsRepresented before → Represented before →
      machine.step event before = some after → Represented after :=
    fun event before after keeps _ stepped => keeps after stepped
  exact Machine.along_iff agree preserved reached (new_represented _ _)

/-- A node that is added twice is on the list twice, and stays there when its hash is erased. -/
theorem added_twice_diverges :
    ¬machine.Along RingEvent.KeepsRepresented [.addNode "a", .addNode "a"]
      (new 1 fun label => Fin.ofNat UInt64.size label.length) ∧
    ∃ final, machine.run [.addNode "a", .addNode "a", .addNode "bc", .removeNode "a_0"]
        (new 1 fun label => Fin.ofNat UInt64.size label.length) = some final ∧
      final.getNode "key" = .ok 4 ∧ final.circle_.lookup 4 = none := by
  refine ⟨fun kept => ?_, _, rfl, by decide +kernel, by decide +kernel⟩
  have twice := (((kept.2 _ rfl).1) _ rfl).strict
  revert twice
  decide +kernel

end ConsistentHash
end Webserver
