import Webserver.Proofs.RingLookup

/-! A ring that grows: the lookups that change all go to the new node. -/

namespace Webserver
open Library

namespace ConsistentHash

/-- Entries of the list may be stale or repeated, but every key of the map is in it. -/
structure Covered (numReplicas : Nat) (hashFunc : String → SizeT) (ring : ConsistentHash) : Prop where
  numReplicas_ : ring.numReplicas_ = numReplicas
  hashFunction_ : ring.hashFunction_ = hashFunc
  covers : ∀ hash ∈ ring.circle_, hash ∈ ring.sortedHashes_

variable {numReplicas : Nat} {hashFunc : String → SizeT} {ring : ConsistentHash}

theorem new_covered (numReplicas : Nat) (hashFunc : String → SizeT) : Covered numReplicas hashFunc (new numReplicas hashFunc) :=
  ⟨rfl, rfl, fun hash member => absurd member (AList.notMem_empty hash)⟩

theorem Covered.addNode (covered : Covered numReplicas hashFunc ring) (node : String) :
    Covered numReplicas hashFunc (ring.addNode node) where
  numReplicas_ := covered.numReplicas_
  hashFunction_ := covered.hashFunction_
  covers hash member := by
    rw [mem_addNode_circle] at member
    exact (mem_addNode_sorted ring node hash).mpr (member.imp_left (covered.covers hash))

theorem Covered.eraseHash (covered : Covered numReplicas hashFunc ring) (hash : SizeT) :
    Covered numReplicas hashFunc (ring.eraseHash hash) where
  numReplicas_ := covered.numReplicas_
  hashFunction_ := covered.hashFunction_
  covers other member := by
    obtain ⟨apart, present⟩ := AList.mem_erase.mp member
    exact (List.mem_erase_of_ne apart).mpr (covered.covers other present)

theorem Covered.removeNode (covered : Covered numReplicas hashFunc ring) (node : String) :
    Covered numReplicas hashFunc (ring.removeNode node) := by
  have erased (replicas : List Nat) (rest : ConsistentHash) (kept : Covered numReplicas hashFunc rest) :
      Covered numReplicas hashFunc
        (replicas.foldl (fun rest i => rest.eraseHash (ring.removedHash node i)) rest) := by
    induction replicas generalizing rest with
    | nil => exact kept
    | cons i replicas ih => exact ih _ (kept.eraseHash _)
  exact erased _ ring covered

theorem run_covered {events : List RingEvent} (reached : machine.run events (new numReplicas hashFunc) = some ring) :
    Covered numReplicas hashFunc ring := by
  have preserved : ∀ event (before after : ConsistentHash), Covered numReplicas hashFunc before →
      machine.step event before = some after → Covered numReplicas hashFunc after := by
    intro event before after covered stepped
    cases event <;> cases stepped
    case addNode node => exact covered.addNode node
    case removeNode node => exact covered.removeNode node
  exact Machine.run_preserves preserved reached (new_covered numReplicas hashFunc)

/-- A lookup on a covered ring that is not empty stays inside the list. -/
theorem Covered.getNode (covered : Covered numReplicas hashFunc ring) (occupied : ring.circle_.keys ≠ []) (key : String) :
    ∃ hash ∈ ring.sortedHashes_, nextOnRing ring.sortedHashes_ (hashFunc key) = some hash ∧ ring.getNode key = .ok hash := by
  obtain ⟨first, inside⟩ := List.exists_mem_of_ne_nil _ occupied
  have listed : ring.sortedHashes_ ≠ [] := List.ne_nil_of_mem (covered.covers first (AList.mem_keys.mpr inside))
  obtain ⟨hash, member, found, _⟩ := nextOnRing_spec ring.sorted listed (hashFunc key)
  refine ⟨hash, member, found, ?_⟩
  rw [ConsistentHash.getNode, if_neg occupied, covered.hashFunction_, found]

private theorem addNode_occupied (occupied : ring.circle_.keys ≠ []) (node : String) :
    (ring.addNode node).circle_.keys ≠ [] := by
  obtain ⟨first, inside⟩ := List.exists_mem_of_ne_nil _ occupied
  exact List.ne_nil_of_mem (AList.mem_keys.mp ((mem_addNode_circle ring node first).mpr (.inl (AList.mem_keys.mpr inside))))

/-- A lookup returns a position of the ring. After a node is added it returns what it did
before, or a virtual node of the new node. -/
theorem growth_redistributes (numReplicas : Nat) (hashFunc : String → SizeT) (events : List RingEvent)
    (ring : ConsistentHash) (reached : machine.run events (new numReplicas hashFunc) = some ring)
    (occupied : ring.circle_.keys ≠ []) (node key : String) :
    ∃ position ∈ ring.sortedHashes_, ∃ moved ∈ (ring.addNode node).sortedHashes_,
      ring.getNode key = .ok position ∧ (ring.addNode node).getNode key = .ok moved ∧
      (moved = position ∨ ∃ i < numReplicas, moved = hashFunc (node ++ "_0" ++ toString i)) := by
  have covered := run_covered reached
  obtain ⟨position, among, found, result⟩ := covered.getNode occupied key
  obtain ⟨moved, member, next, grown⟩ := (covered.addNode node).getNode (addNode_occupied occupied node) key
  refine ⟨position, among, moved, member, result, grown, ?_⟩
  rcases (mem_addNode_sorted ring node moved).mp member with old | ⟨i, inside, same⟩
  · have subset : ring.sortedHashes_ ⊆ (ring.addNode node).sortedHashes_ :=
      fun hash present => (mem_addNode_sorted ring node hash).mpr (.inl present)
    have unmoved := nextOnRing_of_subset ring.sorted (ring.addNode node).sorted subset next old
    rw [found] at unmoved
    cases unmoved
    exact .inl rfl
  · rw [covered.numReplicas_] at inside
    rw [replicaHash, covered.hashFunction_] at same
    exact .inr ⟨i, inside, same.symm⟩

/-- The new node takes over the key, whose hash is 3: the ring was at 11 only, and 4 is new. -/
theorem growth_redistributes_second : ∃ ring : ConsistentHash, ∃ position ∈ ring.sortedHashes_,
    ∃ moved ∈ (ring.addNode "b").sortedHashes_,
    machine.run [.addNode "10.0.0.1"] (new 2 fun label => Fin.ofNat UInt64.size label.length) = some ring ∧
    ring.getNode "key" = .ok position ∧ (ring.addNode "b").getNode "key" = .ok moved ∧ moved ≠ position ∧
    ∃ i < 2, moved = Fin.ofNat UInt64.size ("b" ++ "_0" ++ toString i).length := by
  obtain ⟨ring, reached, occupied, differ⟩ : ∃ ring : ConsistentHash,
      machine.run [.addNode "10.0.0.1"] (new 2 fun label => Fin.ofNat UInt64.size label.length) = some ring ∧
      ring.circle_.keys ≠ [] ∧ (ring.addNode "b").getNode "key" ≠ ring.getNode "key" :=
    ⟨_, rfl, by decide +kernel, by decide +kernel⟩
  obtain ⟨position, among, moved, member, found, later, near⟩ := growth_redistributes 2 _ _ ring reached occupied "b" "key"
  have apart : moved ≠ position := by
    rintro rfl
    exact differ (later.trans found.symm)
  exact ⟨ring, position, among, moved, member, reached, found, later, apart, near.resolve_left apart⟩

end ConsistentHash
end Webserver
