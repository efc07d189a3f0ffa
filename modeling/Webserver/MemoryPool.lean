import Mathlib.Logic.Function.Basic

/-! One pool of `memoryPool.cc`. The block that `operator new` returns is an argument,
and the memory is what the pool links its blocks and its free slots in. -/

namespace Webserver

/-- The words of the memory, each at the address where it starts. -/
abbrev Memory := UInt64 → UInt64

/-- A test of listed addresses looks at these only, not at all addresses there are. -/
instance decidableListed (addresses : List UInt64) (good : UInt64 → Prop) [DecidablePred good] :
    Decidable (∀ address ∈ addresses, good address) :=
  List.decidableBAll good addresses

structure MemoryPool where
  BlockSize_ : UInt64
  SlotSize_ : UInt64
  firstBlock_ : UInt64
  curSlot_ : UInt64
  freeList_ : UInt64
  lastSlot_ : UInt64

namespace MemoryPool

def nullptr : UInt64 := 0

/-- `sizeof(Slot)` and `sizeof(Slot*)`. -/
def sizeofSlot : UInt64 := 8

/-- A pool of the default block size, after `init`. -/
def init (size : UInt64) : MemoryPool := ⟨4096, size, nullptr, nullptr, nullptr, nullptr⟩

def padPointer (p align : UInt64) : UInt64 := (align - p) % align

/-- `allocateNewBlock` up to its last statement. -/
def linkBlock (newBlock : UInt64) (pool : MemoryPool) : MemoryPool :=
  let body := newBlock + sizeofSlot
  let paddingSize := padPointer body pool.SlotSize_
  { pool with
    firstBlock_ := newBlock
    curSlot_ := body + paddingSize
    lastSlot_ := newBlock + pool.BlockSize_ - pool.SlotSize_ + 1 }

/-- Its last statement. -/
def clearFreeList (pool : MemoryPool) : MemoryPool := { pool with freeList_ := nullptr }

/-- The link of the new block to the one before. -/
def storeLink (newBlock : UInt64) (pool : MemoryPool) (memory : Memory) : Memory :=
  Function.update memory newBlock pool.firstBlock_

def allocateNewBlock (newBlock : UInt64) (memory : Memory) (pool : MemoryPool) : Memory × MemoryPool :=
  (pool.storeLink newBlock memory, (pool.linkBlock newBlock).clearFreeList)

/-- The current block has no slot left. -/
def exhausted (pool : MemoryPool) : Bool := pool.curSlot_ ≥ pool.lastSlot_

/-- `temp = curSlot_` and the step of `curSlot_` in units of a `Slot`. -/
def takeSlot (pool : MemoryPool) : UInt64 × MemoryPool :=
  (pool.curSlot_, { pool with curSlot_ := pool.curSlot_ + pool.SlotSize_ / sizeofSlot * sizeofSlot })

/-- The section of `allocate` under `mutexForFreeList_`, when the list is not empty. -/
def popFreeList (memory : Memory) (pool : MemoryPool) : UInt64 × MemoryPool :=
  (pool.freeList_, { pool with freeList_ := memory pool.freeList_ })

/-- The section of `deallocate`, which has tested `ptr`. -/
def pushFreeList (ptr : UInt64) (memory : Memory) (pool : MemoryPool) : Memory × MemoryPool :=
  (Function.update memory ptr pool.freeList_, { pool with freeList_ := ptr })

end MemoryPool

end Webserver
