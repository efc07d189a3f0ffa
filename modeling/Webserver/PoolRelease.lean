import Webserver.HashBucket

/-! The heap under the pools: what `operator new` gives them and their clients, and what
comes back to `operator delete`, up to the destructors of the pools. -/

namespace Webserver
open Library

universe u

/-- What `operator new` has returned and `operator delete` has not been given. -/
abbrev Heap := List UInt64

/-- Only what is allocated may be deleted. -/
def Heap.delete (pointer : UInt64) (heap : Heap) : Option Heap :=
  if pointer ∈ heap then some (heap.erase pointer) else none

/-- The loop of the destructor from `cur` on. The link of a block is read just before the
block is deleted, and both want the block to be allocated. -/
def MemoryPool.destroy (memory : Memory) : Nat → UInt64 → Heap → Option Heap
  | 0, _, _ => none
  | fuel + 1, cur, heap =>
    if cur = nullptr then some heap
    else
      let next := memory cur
      (heap.delete cur).bind (destroy memory fuel next)

namespace HashBucket
variable {θ : Type u}

/-- What `operator new` returns in a step. -/
def obtained (event : PoolEvent θ) (state : HashBucket θ) : List UInt64 :=
  match event with
  | .useMemory _ size newBlock => if MAX_SLOT_SIZE < size then [newBlock] else []
  | .takeSlot thread newBlock =>
    match state.calls thread with
    | .bumping request => if (state.memoryPool request.pool).exhausted then [newBlock] else []
    | _ => []
  | _ => []

/-- A step of the clients and the pools, on the heap. -/
def heapStep (event : PoolEvent θ) (state : HashBucket θ) (heap : Heap) : Option Heap :=
  match event with
  | .freeMemory ptr size => if ptr ≠ MemoryPool.nullptr ∧ MAX_SLOT_SIZE < size then heap.delete ptr else some heap
  | event => some (obtained event state ++ heap)

def heapMachine [DecidableEq θ] : Machine (HashBucket θ × Heap) (PoolEvent θ) where
  step event state := (step event state.1).bind fun next => (heapStep event state.1 state.2).map fun heap => (next, heap)

/-- The destructors of the static pools, the last pool first. -/
def destroyPools (fuel : Nat) (state : HashBucket θ) (heap : Heap) : Option Heap :=
  (List.finRange MEMORY_POOL_NUM).reverse.foldlM
    (fun heap i => MemoryPool.destroy state.memory fuel (state.memoryPool i).firstBlock_ heap) heap

end HashBucket
end Webserver
