import Webserver.MemoryPool
import Webserver.Library.Machine
import Webserver.Library.Region
import Mathlib.Data.Fintype.Basic

/-! The pools of `HashBucket` under any number of threads, with the sections under each
mutex as single steps. A step that calls `operator new` is labelled with its result. -/

namespace Webserver
open Library

universe u

namespace HashBucket

abbrev MEMORY_POOL_NUM : Nat := 64
abbrev SLOT_BASE_SIZE : UInt64 := 8
abbrev MAX_SLOT_SIZE : UInt64 := 512

/-- The argument of `getMemoryPool`. -/
def poolIndex (size : UInt64) : Nat := ((size + 7) / SLOT_BASE_SIZE - 1).toNat

theorem poolIndex_eq {size : UInt64} (positive : 0 < size) (small : size ≤ MAX_SLOT_SIZE) :
    poolIndex size = (size.toNat + 7) / 8 - 1 := by
  have some : 0 < size.toNat := UInt64.lt_iff_toNat_lt.mp positive
  have bound : size.toNat ≤ 512 := UInt64.le_iff_toNat_le.mp small
  have sum : (size + 7).toNat = size.toNat + 7 := by
    rw [UInt64.toNat_add]
    exact Nat.mod_eq_of_lt (Nat.lt_of_le_of_lt (Nat.add_le_add_right bound _) (by decide))
  have quotient : ((size + 7) / SLOT_BASE_SIZE).toNat = (size.toNat + 7) / 8 := by
    rw [UInt64.toNat_div, sum]
    rfl
  have one : 1 ≤ (size + 7) / SLOT_BASE_SIZE := by
    rw [UInt64.le_iff_toNat_le, quotient]
    change 1 ≤ _
    omega
  rw [poolIndex, UInt64.toNat_sub_of_le _ _ one, quotient]
  rfl

theorem poolIndex_lt {size : UInt64} (positive : 0 < size) (small : size ≤ MAX_SLOT_SIZE) : poolIndex size < MEMORY_POOL_NUM := by
  have bound : size.toNat ≤ 512 := UInt64.le_iff_toNat_le.mp small
  rw [poolIndex_eq positive small]
  change _ < 64
  omega

/-- The pool that serves a size, where `useMemory` and `freeMemory` ask for one. -/
def poolOf (size : UInt64) : Option (Fin MEMORY_POOL_NUM) :=
  if served : 0 < size ∧ size ≤ MAX_SLOT_SIZE then some ⟨poolIndex size, poolIndex_lt served.1 served.2⟩ else none

/-- What `initMemoryPool` gives to `init`. -/
def slotSize (i : Fin MEMORY_POOL_NUM) : UInt64 := UInt64.ofNat (i + 1) * SLOT_BASE_SIZE

/-- A call of `useMemory` that a pool serves. -/
structure Request where
  size : UInt64
  pool : Fin MEMORY_POOL_NUM
  served : poolOf size = some pool

/-- Where a thread stands in `useMemory`: it has seen slots on the free list, or it has
found none and goes to the current block. -/
inductive Call where
  | idle
  | popping (request : Request)
  | bumping (request : Request)

/-- What a client has been given and has not freed. -/
structure Allocation where
  pointer : UInt64
  size : UInt64
deriving DecidableEq, Repr

/-- The bytes that the client asked for. -/
def Allocation.region (allocation : Allocation) : Region := ⟨allocation.pointer.toNat, allocation.size.toNat⟩

end HashBucket

open HashBucket in
/-- `blocks` are the blocks that each pool has got from `operator new`. -/
structure HashBucket (θ : Type u) where
  memoryPool : Fin MEMORY_POOL_NUM → MemoryPool
  memory : Memory
  calls : θ → Call
  live : List Allocation
  blocks : Fin MEMORY_POOL_NUM → List UInt64

namespace HashBucket
variable {θ : Type u}

/-- After `initMemoryPool`. -/
def initMemoryPool (memory : Memory) : HashBucket θ where
  memoryPool i := .init (slotSize i)
  memory := memory
  calls _ := .idle
  live := []
  blocks _ := []

def blockRegion (block : UInt64) : Region := ⟨block.toNat, 4096⟩

/-- What `operator new` may return: aligned memory that does not end past the last
address and that nothing else uses. -/
structure Fresh (state : HashBucket θ) (pointer : UInt64) (bytes : Nat) : Prop where
  aligned : 8 ∣ pointer.toNat
  positive : 0 < pointer.toNat
  bounded : pointer.toNat + bytes < UInt64.size
  blocks : ∀ i, ∀ block ∈ state.blocks i, (blockRegion block).Apart ⟨pointer.toNat, bytes⟩
  direct : ∀ allocation ∈ state.live, poolOf allocation.size = none → allocation.region.Apart ⟨pointer.toNat, bytes⟩

theorem fresh_iff {state : HashBucket θ} {pointer : UInt64} {bytes : Nat} :
    state.Fresh pointer bytes ↔ 8 ∣ pointer.toNat ∧ 0 < pointer.toNat ∧ pointer.toNat + bytes < UInt64.size ∧
      (∀ i, ∀ block ∈ state.blocks i, (blockRegion block).Apart ⟨pointer.toNat, bytes⟩) ∧
      ∀ allocation ∈ state.live, poolOf allocation.size = none → allocation.region.Apart ⟨pointer.toNat, bytes⟩ :=
  ⟨fun fresh => ⟨fresh.aligned, fresh.positive, fresh.bounded, fresh.blocks, fresh.direct⟩,
    fun ⟨aligned, positive, bounded, blocks, direct⟩ => ⟨aligned, positive, bounded, blocks, direct⟩⟩

instance (state : HashBucket θ) (pointer : UInt64) (bytes : Nat) : Decidable (state.Fresh pointer bytes) :=
  decidable_of_iff _ fresh_iff.symm

inductive PoolEvent (θ : Type u) where
  | useMemory (thread : θ) (size newBlock : UInt64)
  | popSlot (thread : θ)
  | takeSlot (thread : θ) (newBlock : UInt64)
  | freeMemory (ptr size : UInt64)
  | store (address value : UInt64)

section Step
variable [DecidableEq θ]

def setCall (state : HashBucket θ) (thread : θ) (call : Call) : HashBucket θ :=
  { state with calls := Function.update state.calls thread call }

/-- `useMemory` up to the first mutex. -/
def useMemory (thread : θ) (size newBlock : UInt64) (state : HashBucket θ) : Option (HashBucket θ) :=
  if size = 0 then some state
  else match served : poolOf size with
    | none => if state.Fresh newBlock size.toNat then some { state with live := ⟨newBlock, size⟩ :: state.live } else none
    | some pool =>
      if (state.memoryPool pool).freeList_ ≠ MemoryPool.nullptr then some (state.setCall thread (.popping ⟨size, pool, served⟩))
      else some (state.setCall thread (.bumping ⟨size, pool, served⟩))

/-- The section under `mutexForFreeList_`. -/
def popSlot (thread : θ) (request : Request) (state : HashBucket θ) : HashBucket θ :=
  let pool := state.memoryPool request.pool
  if pool.freeList_ ≠ MemoryPool.nullptr then
    let (temp, pool) := pool.popFreeList state.memory
    { state.setCall thread .idle with
      memoryPool := Function.update state.memoryPool request.pool pool
      live := ⟨temp, request.size⟩ :: state.live }
  else state.setCall thread (.bumping request)

/-- `allocateNewBlock`, which `operator new` must have served. -/
def grow (i : Fin MEMORY_POOL_NUM) (newBlock : UInt64) (state : HashBucket θ) : HashBucket θ :=
  let (memory, pool) := (state.memoryPool i).allocateNewBlock newBlock state.memory
  { state with
    memory := memory
    memoryPool := Function.update state.memoryPool i pool
    blocks := Function.update state.blocks i (newBlock :: state.blocks i) }

/-- `curSlot_` is handed out. -/
def bump (thread : θ) (request : Request) (state : HashBucket θ) : HashBucket θ :=
  let (temp, pool) := (state.memoryPool request.pool).takeSlot
  { state.setCall thread .idle with
    memoryPool := Function.update state.memoryPool request.pool pool
    live := ⟨temp, request.size⟩ :: state.live }

/-- The section under `mutexForBlock_`. -/
def takeSlot (thread : θ) (request : Request) (newBlock : UInt64) (state : HashBucket θ) : Option (HashBucket θ) :=
  if (state.memoryPool request.pool).exhausted then
    if state.Fresh newBlock 4096 then some ((state.grow request.pool newBlock).bump thread request) else none
  else some (state.bump thread request)

/-- Only what is live is freed. -/
def freeMemory (ptr size : UInt64) (state : HashBucket θ) : Option (HashBucket θ) :=
  if ptr = MemoryPool.nullptr then some state
  else if ⟨ptr, size⟩ ∈ state.live then
    let freed := { state with live := state.live.erase ⟨ptr, size⟩ }
    match poolOf size with
    | none => some freed
    | some pool =>
      let (memory, pushed) := (state.memoryPool pool).pushFreeList ptr state.memory
      some { freed with memory := memory, memoryPool := Function.update state.memoryPool pool pushed }
  else none

/-- A client writes to what it has been given. -/
def store (address value : UInt64) (state : HashBucket θ) : Option (HashBucket θ) :=
  if 8 ∣ address.toNat ∧ ∃ allocation ∈ state.live, address.toNat ∈ allocation.region then
    some { state with memory := Function.update state.memory address value }
  else none

def step (event : PoolEvent θ) (state : HashBucket θ) : Option (HashBucket θ) :=
  match event with
  | .useMemory thread size newBlock =>
    match state.calls thread with
    | .idle => state.useMemory thread size newBlock
    | _ => none
  | .popSlot thread =>
    match state.calls thread with
    | .popping request => some (state.popSlot thread request)
    | _ => none
  | .takeSlot thread newBlock =>
    match state.calls thread with
    | .bumping request => state.takeSlot thread request newBlock
    | _ => none
  | .freeMemory ptr size => state.freeMemory ptr size
  | .store address value => state.store address value

def machine : Machine (HashBucket θ) (PoolEvent θ) := ⟨step⟩

end Step

end HashBucket
end Webserver
