import Mathlib.Data.List.Induction
import Webserver.ConsistentHash

/-! The contents of a ring that was built by `addNode`, and what `getNode` finds on it. -/

namespace Webserver
open Library

namespace ConsistentHash

/-- The keys of the map are the elements of the sorted list. -/
def Aligned (ring : ConsistentHash) : Prop := ∀ hash, hash ∈ ring.circle_ ↔ hash ∈ ring.sortedHashes_

theorem new_aligned (numReplicas : Nat) (hashFunc : String → SizeT) : Aligned (new numReplicas hashFunc) := by
  intro hash
  simp [new]

theorem mem_addNode_sorted (ring : ConsistentHash) (node : String) (hash : SizeT) :
    hash ∈ (ring.addNode node).sortedHashes_ ↔
      hash ∈ ring.sortedHashes_ ∨ ∃ i < ring.numReplicas_, ring.replicaHash node i = hash := by
  simp [addNode]

private theorem mem_foldl_insert {hashes : Nat → SizeT} {node : String} (replicas : List Nat)
    (circle : AList fun _ : SizeT => String) (hash : SizeT) :
    hash ∈ replicas.foldl (fun circle i => circle.insert (hashes i) node) circle ↔
      hash ∈ circle ∨ ∃ i ∈ replicas, hashes i = hash := by
  induction replicas generalizing circle with
  | nil => simp
  | cons i replicas ih =>
    rw [List.foldl_cons, ih, AList.mem_insert]
    simp only [List.mem_cons, exists_eq_or_imp, eq_comm (a := hash)]
    tauto

theorem mem_addNode_circle (ring : ConsistentHash) (node : String) (hash : SizeT) :
    hash ∈ (ring.addNode node).circle_ ↔
      hash ∈ ring.circle_ ∨ ∃ i < ring.numReplicas_, ring.replicaHash node i = hash := by
  simp [addNode, mem_foldl_insert]

theorem Aligned.addNode {ring : ConsistentHash} (aligned : Aligned ring) (node : String) : Aligned (ring.addNode node) := by
  intro hash
  rw [mem_addNode_circle, mem_addNode_sorted, aligned hash]

theorem Aligned.empty_iff {ring : ConsistentHash} (aligned : Aligned ring) :
    ring.circle_.keys = [] ↔ ring.sortedHashes_ = [] := by
  simp only [List.eq_nil_iff_forall_not_mem, ← AList.mem_keys, aligned _]

/-- On an aligned ring that is not empty the lookup is that of the sorted list. -/
theorem Aligned.getNode {ring : ConsistentHash} (aligned : Aligned ring) (occupied : ring.sortedHashes_ ≠ []) (key : String) :
    ∃ hash ∈ ring.sortedHashes_, nextOnRing ring.sortedHashes_ (ring.hashFunction_ key) = some hash ∧
      ring.getNode key = .ok hash := by
  obtain ⟨hash, member, found, _⟩ := nextOnRing_spec ring.sorted occupied (ring.hashFunction_ key)
  refine ⟨hash, member, found, ?_⟩
  rw [ConsistentHash.getNode, if_neg (fun empty => occupied (aligned.empty_iff.mp empty)), found]

/-- The hashes of the virtual nodes of some nodes. -/
def virtualHashes (numReplicas : Nat) (hashFunc : String → SizeT) (nodes : List String) : List SizeT :=
  nodes.flatMap fun node => (List.range numReplicas).map fun i => hashFunc (node ++ "_0" ++ toString i)

structure Built (numReplicas : Nat) (hashFunc : String → SizeT) (nodes : List String) (ring : ConsistentHash) : Prop where
  numReplicas_ : ring.numReplicas_ = numReplicas
  hashFunction_ : ring.hashFunction_ = hashFunc
  aligned : Aligned ring
  hashes : ∀ hash, hash ∈ ring.sortedHashes_ ↔ hash ∈ virtualHashes numReplicas hashFunc nodes

private theorem addNode_built {numReplicas : Nat} {hashFunc : String → SizeT} {nodes : List String} {ring : ConsistentHash}
    (built : Built numReplicas hashFunc nodes ring) (node : String) :
    Built numReplicas hashFunc (nodes ++ [node]) (ring.addNode node) where
  numReplicas_ := built.numReplicas_
  hashFunction_ := built.hashFunction_
  aligned := built.aligned.addNode node
  hashes hash := by
    rw [mem_addNode_sorted, built.hashes]
    simp [virtualHashes, replicaHash, built.numReplicas_, built.hashFunction_]

private theorem built (numReplicas : Nat) (hashFunc : String → SizeT) (nodes : List String) :
    Built numReplicas hashFunc nodes (nodes.foldl addNode (new numReplicas hashFunc)) := by
  induction nodes using List.reverseRecOn with
  | nil => exact ⟨rfl, rfl, new_aligned _ _, fun hash => by simp [new, virtualHashes]⟩
  | append_singleton nodes node ih =>
    rw [List.foldl_append]
    exact addNode_built ih node

/-- The lookup is as documented exactly when the key's hash is not on the ring, or
when no other hash is. -/
theorem getNode_first_iff (numReplicas : Nat) (hashFunc : String → SizeT) (nodes : List String) (key : String)
    (occupied : virtualHashes numReplicas hashFunc nodes ≠ []) :
    (∃ hash, (nodes.foldl addNode (new numReplicas hashFunc)).getNode key = .ok hash ∧
      FirstFrom (virtualHashes numReplicas hashFunc nodes) (hashFunc key) hash) ↔
    hashFunc key ∉ virtualHashes numReplicas hashFunc nodes ∨
      ∀ hash ∈ virtualHashes numReplicas hashFunc nodes, hash = hashFunc key := by
  have built := built numReplicas hashFunc nodes
  generalize nodes.foldl addNode (new numReplicas hashFunc) = ring at built
  obtain ⟨first, inside⟩ := List.exists_mem_of_ne_nil _ occupied
  obtain ⟨hash, _, next, found⟩ := built.aligned.getNode (List.ne_nil_of_mem ((built.hashes first).mpr inside)) key
  rw [built.hashFunction_] at next
  have spec := nextOnRing_firstFrom_iff ring.sorted next
  simp only [FirstFrom, built.hashes] at spec
  simp only [found, Except.ok.injEq, exists_eq_left']
  exact spec

/-- The virtual nodes have the hashes 4, 5 and 6 and the key has 7: the lookup wraps to the least. -/
theorem getNode_first_wrapped : ∃ hash, ([("a" : String), "ab", "abc"].foldl addNode
      (new 1 fun label => Fin.ofNat UInt64.size label.length)).getNode "longer+" = .ok hash ∧
    FirstFrom (virtualHashes 1 (fun label => Fin.ofNat UInt64.size label.length) ["a", "ab", "abc"]) 7 hash ∧ hash = 4 := by
  obtain ⟨hash, found, first⟩ := (getNode_first_iff 1 (fun label => Fin.ofNat UInt64.size label.length) ["a", "ab", "abc"]
    "longer+" (by decide +kernel)).mpr (.inl (by decide +kernel))
  have looked : ([("a" : String), "ab", "abc"].foldl addNode
      (new 1 fun label => Fin.ofNat UInt64.size label.length)).getNode "longer+" = .ok 4 := by decide +kernel
  exact ⟨hash, found, first, Except.ok.inj (found.symm.trans looked)⟩

/-- The key's hash is that of the only virtual node of `a`, and the lookup returns that of `bc`. -/
theorem getNode_passes_equal : ([("a" : String), "bc"].foldl addNode
      (new 1 fun label => Fin.ofNat UInt64.size label.length)).getNode "four" = .ok 5 ∧
    ¬FirstFrom (virtualHashes 1 (fun label => Fin.ofNat UInt64.size label.length) ["a", "bc"]) 4 5 := by
  refine ⟨by decide +kernel, fun first => ?_⟩
  have same := first.of_mem (by decide)
  revert same
  decide

end ConsistentHash
end Webserver
