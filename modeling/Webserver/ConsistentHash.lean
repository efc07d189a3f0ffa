import Mathlib.Data.List.AList
import Webserver.Library.Machine
import Webserver.Library.Ring

/-! The ring of `ConsistenHash.h`. A value of the type carries the order of its
list, which `std::upper_bound` needs. -/

namespace Webserver
open Library

/-- `size_t` on the 64-bit platforms that the code is written for. -/
abbrev SizeT := Fin UInt64.size

structure ConsistentHash where
  numReplicas_ : Nat
  hashFunction_ : String → SizeT
  circle_ : AList fun _ : SizeT => String
  sortedHashes_ : List SizeT
  sorted : sortedHashes_.Pairwise (· ≤ ·)

/-- `getNode` throws on an empty ring. On a ring with an empty list it would read
past the end of that list. -/
inductive RingError where
  | runtime_error (what : String)
  | pastEnd
  deriving DecidableEq

namespace ConsistentHash

def new (numReplicas : Nat) (hashFunc : String → SizeT) : ConsistentHash :=
  ⟨numReplicas, hashFunc, ∅, [], .nil⟩

/-- The hash of one virtual node. -/
def replicaHash (ring : ConsistentHash) (node : String) (i : Nat) : SizeT :=
  ring.hashFunction_ (node ++ "_0" ++ toString i)

def addNode (ring : ConsistentHash) (node : String) : ConsistentHash where
  numReplicas_ := ring.numReplicas_
  hashFunction_ := ring.hashFunction_
  circle_ := (List.range ring.numReplicas_).foldl (fun circle i => circle.insert (ring.replicaHash node i) node) ring.circle_
  sortedHashes_ := (ring.sortedHashes_ ++ (List.range ring.numReplicas_).map (ring.replicaHash node)).insertionSort (· ≤ ·)
  sorted := List.pairwise_insertionSort _ _

/-- The labels that `removeNode` hashes lack the separator of those that `addNode` hashes. -/
def removedHash (ring : ConsistentHash) (node : String) (i : Nat) : SizeT :=
  ring.hashFunction_ (node ++ toString i)

def eraseHash (ring : ConsistentHash) (hash : SizeT) : ConsistentHash where
  numReplicas_ := ring.numReplicas_
  hashFunction_ := ring.hashFunction_
  circle_ := ring.circle_.erase hash
  sortedHashes_ := ring.sortedHashes_.erase hash
  sorted := ring.sorted.sublist List.erase_sublist

def removeNode (ring : ConsistentHash) (node : String) : ConsistentHash :=
  (List.range ring.numReplicas_).foldl (fun rest i => rest.eraseHash (ring.removedHash node i)) ring

def getNode (ring : ConsistentHash) (key : String) : Except RingError SizeT :=
  if ring.circle_.keys = [] then .error (.runtime_error "No nodes in consistent hash")
  else
    match nextOnRing ring.sortedHashes_ (ring.hashFunction_ key) with
    | some hash => .ok hash
    | none => .error .pastEnd

inductive RingEvent where
  | addNode (node : String)
  | removeNode (node : String)

def step (event : RingEvent) (ring : ConsistentHash) : Option ConsistentHash :=
  match event with
  | .addNode node => some (ring.addNode node)
  | .removeNode node => some (ring.removeNode node)

def machine : Machine ConsistentHash RingEvent := ⟨step⟩

end ConsistentHash
end Webserver
