import Webserver.Proofs.RingGrowth
import Webserver.Proofs.RingMembership

/-! A ring that shrinks, and one to which several nodes are added: what a removal erases
moves only the keys that were there, and the order of additions does not matter. -/

namespace Webserver
open Library

namespace ConsistentHash
variable {numReplicas : Nat} {hashFunc : String → SizeT} {ring : ConsistentHash}

private theorem addNode_perm (ring : ConsistentHash) (node : String) : (ring.addNode node).sortedHashes_.Perm
    (ring.sortedHashes_ ++ (List.range ring.numReplicas_).map (ring.replicaHash node)) :=
  List.perm_insertionSort _ _

private theorem foldl_addNode_perm (ring : ConsistentHash) (nodes : List String) :
    (nodes.foldl addNode ring).sortedHashes_.Perm (ring.sortedHashes_ ++
      nodes.flatMap fun node => (List.range ring.numReplicas_).map (ring.replicaHash node)) := by
  induction nodes generalizing ring with
  | nil => simp
  | cons node nodes ih =>
    have later := ih (ring.addNode node)
    rw [List.foldl_cons, List.flatMap_cons, ← List.append_assoc]
    exact later.trans ((addNode_perm ring node).append_right _)

private theorem mem_foldl_addNode_circle (ring : ConsistentHash) (nodes : List String) (hash : SizeT) :
    hash ∈ (nodes.foldl addNode ring).circle_ ↔
      hash ∈ ring.circle_ ∨ ∃ node ∈ nodes, ∃ i < ring.numReplicas_, ring.replicaHash node i = hash := by
  induction nodes generalizing ring with
  | nil => simp
  | cons node nodes ih =>
    rw [List.foldl_cons, ih, mem_addNode_circle, or_assoc]
    simp only [List.mem_cons, exists_eq_or_imp]
    rfl

private theorem foldl_addNode_hashFunction_ (ring : ConsistentHash) (nodes : List String) :
    (nodes.foldl addNode ring).hashFunction_ = ring.hashFunction_ := by
  induction nodes generalizing ring with
  | nil => rfl
  | cons node nodes ih => exact ih (ring.addNode node)

/-- Nodes may be added in any order, even where their hashes collide: every lookup is
the same. -/
theorem additions_commute (ring : ConsistentHash) {nodes others : List String} (same : nodes.Perm others) (key : String) :
    (nodes.foldl addNode ring).getNode key = (others.foldl addNode ring).getNode key := by
  have lists : (nodes.foldl addNode ring).sortedHashes_ = (others.foldl addNode ring).sortedHashes_ := by
    apply List.Perm.eq_of_pairwise' (nodes.foldl addNode ring).sorted (others.foldl addNode ring).sorted
    exact (foldl_addNode_perm ring nodes).trans
      (((same.flatMap_right _).append_left _).trans (foldl_addNode_perm ring others).symm)
  have empty : (nodes.foldl addNode ring).circle_.keys = [] ↔ (others.foldl addNode ring).circle_.keys = [] := by
    simp only [List.eq_nil_iff_forall_not_mem, ← AList.mem_keys, mem_foldl_addNode_circle, same.mem_iff]
  simp only [getNode, empty, lists, foldl_addNode_hashFunction_]

/-- The second virtual node of `a` collides with that of `b`. -/
theorem additions_commute_two :
    (["a", "b"].foldl addNode (new 2 fun label => Fin.ofNat UInt64.size label.length)).getNode "key" =
      (["b", "a"].foldl addNode (new 2 fun label => Fin.ofNat UInt64.size label.length)).getNode "key" :=
  additions_commute _ (.swap _ _ _) "key"

/-- What a removal leaves on the list: nothing new, and all that it does not erase. -/
private theorem removeNode_sorted (ring : ConsistentHash) (node : String) :
    (ring.removeNode node).sortedHashes_ ⊆ ring.sortedHashes_ ∧
    ∀ hash ∈ ring.sortedHashes_, (∀ i < ring.numReplicas_, ring.removedHash node i ≠ hash) →
      hash ∈ (ring.removeNode node).sortedHashes_ := by
  have erased (replicas : List Nat) (rest : ConsistentHash) :
      (replicas.foldl (fun rest i => rest.eraseHash (ring.removedHash node i)) rest).sortedHashes_ ⊆ rest.sortedHashes_ ∧
      ∀ hash ∈ rest.sortedHashes_, (∀ i ∈ replicas, ring.removedHash node i ≠ hash) →
        hash ∈ (replicas.foldl (fun rest i => rest.eraseHash (ring.removedHash node i)) rest).sortedHashes_ := by
    induction replicas generalizing rest with
    | nil => exact ⟨fun _ member => member, fun _ member _ => member⟩
    | cons i replicas ih =>
      obtain ⟨fewer, kept⟩ := ih (rest.eraseHash (ring.removedHash node i))
      refine ⟨fun hash member => List.erase_subset (fewer member), fun hash member missed => ?_⟩
      apply kept hash
      · exact (List.mem_erase_of_ne (missed i List.mem_cons_self).symm).mpr member
      · exact fun j inside => missed j (List.mem_cons_of_mem _ inside)
  obtain ⟨fewer, kept⟩ := erased (List.range ring.numReplicas_) ring
  exact ⟨fewer, fun hash member missed => kept hash member fun i inside => missed i (List.mem_range.mp inside)⟩

private theorem mem_of_mem_removeNode {node : String} {hash : SizeT} (member : hash ∈ (ring.removeNode node).circle_) :
    hash ∈ ring.circle_ := by
  obtain ⟨gone, kept⟩ := lookup_removeNode ring node hash
  rw [← AList.lookup_isSome] at member ⊢
  by_cases erased : ∃ i < ring.numReplicas_, ring.removedHash node i = hash
  · rw [gone erased] at member
    cases member
  · rwa [kept erased] at member

/-- After a node is removed a lookup returns what it did before, unless the removal has
erased the position that it returned. -/
theorem removal_redistributes (numReplicas : Nat) (hashFunc : String → SizeT) (events : List RingEvent)
    (ring : ConsistentHash) (reached : machine.run events (new numReplicas hashFunc) = some ring) (node key : String)
    (occupied : (ring.removeNode node).circle_.keys ≠ []) :
    ∃ position ∈ ring.sortedHashes_, ∃ moved ∈ (ring.removeNode node).sortedHashes_,
      ring.getNode key = .ok position ∧ (ring.removeNode node).getNode key = .ok moved ∧
      (moved = position ∨ ∃ i < numReplicas, position = hashFunc (node ++ toString i)) := by
  have covered := run_covered reached
  obtain ⟨moved, member, next, result⟩ := (covered.removeNode node).getNode occupied key
  obtain ⟨fewer, kept⟩ := removeNode_sorted ring node
  have before : ring.circle_.keys ≠ [] := by
    obtain ⟨first, inside⟩ := List.exists_mem_of_ne_nil _ occupied
    exact List.ne_nil_of_mem (AList.mem_keys.mp (mem_of_mem_removeNode (AList.mem_keys.mpr inside)))
  obtain ⟨position, among, found, looked⟩ := covered.getNode before key
  refine ⟨position, among, moved, member, looked, result, ?_⟩
  by_cases missed : ∀ i < ring.numReplicas_, ring.removedHash node i ≠ position
  · have same := nextOnRing_of_subset (ring.removeNode node).sorted ring.sorted fewer found (kept position among missed)
    exact .inl (Option.some.inj (next.symm.trans same))
  · obtain ⟨i, hit⟩ := not_forall.mp missed
    obtain ⟨inside, same⟩ := Classical.not_imp.mp hit
    rw [not_not] at same
    refine .inr ⟨i, covered.numReplicas_ ▸ inside, ?_⟩
    rw [← same, removedHash, covered.hashFunction_]

/-- The label that the removal of `bcd` builds has the hash of the virtual node of `a`. -/
theorem removal_redistributes_second : ∃ (ring : ConsistentHash) (position moved : SizeT),
    machine.run [.addNode "a", .addNode "bc"] (new 1 fun label => Fin.ofNat UInt64.size label.length) = some ring ∧
    ring.getNode "key" = .ok position ∧ (ring.removeNode "bcd").getNode "key" = .ok moved ∧ moved ≠ position := by
  obtain ⟨ring, reached, occupied, differ⟩ : ∃ ring : ConsistentHash,
      machine.run [.addNode "a", .addNode "bc"] (new 1 fun label => Fin.ofNat UInt64.size label.length) = some ring ∧
      (ring.removeNode "bcd").circle_.keys ≠ [] ∧ (ring.removeNode "bcd").getNode "key" ≠ ring.getNode "key" :=
    ⟨_, rfl, by decide +kernel, by decide +kernel⟩
  obtain ⟨position, _, moved, _, found, later, _⟩ := removal_redistributes 1 _ _ ring reached "bcd" "key" occupied
  refine ⟨ring, position, moved, reached, found, later, ?_⟩
  rintro rfl
  exact differ (later.trans found.symm)

end ConsistentHash
end Webserver
