import Webserver.EventLoopThreadPool
import Webserver.Proofs.RingLookup

/-! Where a connection is placed: the position on the ring that the lookup returns
is a hash, which the pool takes for the index of a loop. -/

namespace Webserver
open Library

namespace EventLoopThreadPool

def virtualHashes (name : String) (hashFunc : String → SizeT) (numThreads : Nat) : List SizeT :=
  (List.range numThreads).flatMap fun thread =>
    (List.range numReplicas).map fun i => hashFunc (threadName name thread ++ "_0" ++ toString i)

/-- A started pool: its loops are those of its threads, on a ring of their virtual nodes. -/
structure Started (name : String) (hashFunc : String → SizeT) (numThreads : Nat) (pool : EventLoopThreadPool) : Prop where
  name_ : pool.name_ = name
  loops_ : pool.loops_ = (List.range numThreads).map .subLoop
  hashFunction_ : pool.hash_.hashFunction_ = hashFunc
  numReplicas_ : pool.hash_.numReplicas_ = numReplicas
  aligned : pool.hash_.Aligned
  hashes : ∀ hash, hash ∈ pool.hash_.sortedHashes_ ↔ hash ∈ virtualHashes name hashFunc numThreads

private theorem startThread_started {name : String} {hashFunc : String → SizeT} {numThreads : Nat} {pool : EventLoopThreadPool}
    (started : Started name hashFunc numThreads pool) :
    Started name hashFunc (numThreads + 1) (pool.startThread numThreads) where
  name_ := started.name_
  loops_ := by simp [startThread, started.loops_, List.range_succ]
  hashFunction_ := started.hashFunction_
  numReplicas_ := started.numReplicas_
  aligned := started.aligned.addNode _
  hashes hash := by
    have replica (i : Nat) : pool.hash_.replicaHash (threadName name numThreads) i =
        hashFunc (threadName name numThreads ++ "_0" ++ toString i) := by
      rw [ConsistentHash.replicaHash, started.hashFunction_]
    simp only [startThread, started.name_, ConsistentHash.mem_addNode_sorted, started.hashes, started.numReplicas_, replica]
    simp [virtualHashes, List.range_succ]

private theorem start_started (name : String) (hashFunc : String → SizeT) (numThreads : Nat) :
    Started name hashFunc numThreads (((new name hashFunc).setThreadNum numThreads).start) := by
  have threads (count : Nat) : Started name hashFunc count
      ((List.range count).foldl startThread { (new name hashFunc).setThreadNum numThreads with started_ := true }) := by
    induction count with
    | zero =>
      refine ⟨rfl, rfl, rfl, rfl, ConsistentHash.new_aligned _ _, ?_⟩
      intro hash
      simp [virtualHashes, new, setThreadNum, ConsistentHash.new]
    | succ count ih =>
      rw [List.range_succ, List.foldl_append]
      exact startThread_started ih
  exact threads numThreads

private theorem virtualHashes_ne_nil (name : String) (hashFunc : String → SizeT) {numThreads : Nat} (some : 1 ≤ numThreads) :
    virtualHashes name hashFunc numThreads ≠ [] := by
  obtain ⟨others, rfl⟩ := Nat.exists_eq_add_of_le' some
  simp [virtualHashes, List.range_succ, numReplicas]

/-- A connection is placed as intended exactly when there is a thread and the next
virtual node after the key has a hash that happens to be the index of a loop. -/
theorem connection_placement (name : String) (hashFunc : String → SizeT) (numThreads : Nat) (key : String) :
    (∃ loop, (((new name hashFunc).setThreadNum numThreads).start).getNextLoop key = .ok loop ∧
      (1 ≤ numThreads → loop ∈ (((new name hashFunc).setThreadNum numThreads).start).loops_) ∧
      (numThreads = 0 → loop = .baseLoop)) ↔
    1 ≤ numThreads ∧
      ((∃ hash ∈ virtualHashes name hashFunc numThreads, hashFunc key < hash ∧ hash.val < numThreads) ∨
        (∀ hash ∈ virtualHashes name hashFunc numThreads, hash ≤ hashFunc key) ∧
          ∃ hash ∈ virtualHashes name hashFunc numThreads, hash.val < numThreads) := by
  have started := start_started name hashFunc numThreads
  generalize (((new name hashFunc).setThreadNum numThreads).start) = pool at started
  rcases Nat.eq_zero_or_pos numThreads with none | some
  · subst none
    have empty : pool.hash_.circle_.keys = [] := by
      refine started.aligned.empty_iff.mpr (List.eq_nil_iff_forall_not_mem.mpr ?_)
      intro hash member
      simpa [virtualHashes] using (started.hashes hash).mp member
    simp [getNextLoop, ConsistentHash.getNode, empty]
  · have occupied : pool.hash_.sortedHashes_ ≠ [] := by
      obtain ⟨hash, member⟩ := List.exists_mem_of_ne_nil _ (virtualHashes_ne_nil name hashFunc some)
      exact List.ne_nil_of_mem ((started.hashes hash).mpr member)
    obtain ⟨index, _, found, result⟩ := started.aligned.getNode occupied key
    have below := nextOnRing_below pool.hash_.sorted found (fun hash => hash.val < numThreads)
      (fun first second less low => lt_of_le_of_lt less low)
    simp only [started.hashes, started.hashFunction_] at below
    rw [← below]
    have length : pool.loops_.length = numThreads := by simp [started.loops_]
    have next : pool.getNextLoop key = .ok (if index.val < numThreads then .subLoop index.val else .baseLoop) := by
      simp only [getNextLoop, result, length]
      split
      next low => simp [started.loops_]
      next high => rfl
    rw [next]
    split
    next low => exact iff_of_true ⟨_, rfl, fun _ => by simpa [started.loops_] using low, by omega⟩ ⟨some, low⟩
    next high =>
      refine iff_of_false ?_ fun both => high both.2
      rintro ⟨loop, same, inside, _⟩
      cases same
      simpa [started.loops_] using inside some

/-- Without threads the lookup throws; with one thread and the hash 5 everywhere the
connection stays on the base loop. -/
theorem placement_misses_loops :
    (((new "server" fun _ => 5).setThreadNum 0).start).getNextLoop "10.0.0.1" =
      .error (.runtime_error "No nodes in consistent hash") ∧
    (((new "server" fun _ => 5).setThreadNum 1).start).getNextLoop "10.0.0.1" = .ok .baseLoop ∧
    LoopRef.baseLoop ∉ (((new "server" fun _ => 5).setThreadNum 1).start).loops_ := by
  refine ⟨rfl, ?_, ?_⟩
  · decide +kernel
  · decide +kernel

end EventLoopThreadPool
end Webserver
