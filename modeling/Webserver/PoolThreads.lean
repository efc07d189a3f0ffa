import Webserver.MemoryPool
import Webserver.Library.Machine
import Webserver.Library.Region

/-! One pool under any number of threads. The accesses of `freeList_` are single steps,
since `allocateNewBlock` writes it under the other mutex and `allocate` tests it under none. -/

namespace Webserver
open Library

universe u

namespace MemoryPool

/-- Where the holder of `mutexForFreeList_` stands: in `allocate` before the second test,
before `temp = freeList_`, before it reads `freeList_->next` and before it writes
`freeList_`; in `deallocate` before each of its two statements. -/
inductive ListSection where
  | testing
  | taking
  | taken (temp : UInt64)
  | popping (temp next : UInt64)
  | linking (ptr : UInt64)
  | publishing (ptr : UInt64)

/-- A thread wants `mutexForFreeList_` when it has seen a slot and `mutexForBlock_` when
it has seen none; it is `locked` in a section. -/
inductive Position where
  | idle
  | seen
  | wanting
  | locked
  | crashed
deriving DecidableEq

end MemoryPool

open MemoryPool in
/-- The holder of `mutexForBlock_` has linked a new block and has still to clear `freeList_`.
`live` are the slots that `allocate` has returned and that are not freed. -/
structure PoolThreads (θ : Type u) where
  pool : MemoryPool
  memory : Memory
  positions : θ → Position
  mutexForFreeList_ : Option (θ × ListSection)
  mutexForBlock_ : Option θ
  live : List UInt64
  blocks : List UInt64

namespace PoolThreads
open MemoryPool
variable {θ : Type u}

def init (size : UInt64) (memory : Memory) : PoolThreads θ where
  pool := .init size
  memory := memory
  positions _ := .idle
  mutexForFreeList_ := none
  mutexForBlock_ := none
  live := []
  blocks := []

/-- What `operator new` may return. -/
def Fresh (state : PoolThreads θ) (newBlock : UInt64) : Prop :=
  8 ∣ newBlock.toNat ∧ 0 < newBlock.toNat ∧ newBlock.toNat + 4096 < UInt64.size ∧
    ∀ block ∈ state.blocks, Region.Apart ⟨block.toNat, 4096⟩ ⟨newBlock.toNat, 4096⟩

instance (state : PoolThreads θ) (newBlock : UInt64) : Decidable (state.Fresh newBlock) :=
  inferInstanceAs (Decidable (_ ∧ _ ∧ _ ∧ _))

inductive ThreadEvent (θ : Type u) where
  | allocate (thread : θ)
  | lockFreeList (thread : θ)
  | deallocate (thread : θ) (ptr : UInt64)
  | advance (thread : θ)
  | lockBlock (thread : θ) (newBlock : UInt64)
  | clear (thread : θ)
  | store (address value : UInt64)

section Step
variable [DecidableEq θ]

def place (state : PoolThreads θ) (thread : θ) (position : Position) : PoolThreads θ :=
  { state with positions := Function.update state.positions thread position }

/-- The test of `allocate` that is made outside the mutex. -/
def allocate (thread : θ) (state : PoolThreads θ) : PoolThreads θ :=
  if state.pool.freeList_ ≠ nullptr then state.place thread .seen else state.place thread .wanting

def lockFreeList (thread : θ) (held : ListSection) (state : PoolThreads θ) : Option (PoolThreads θ) :=
  match state.mutexForFreeList_ with
  | none => some { state.place thread .locked with mutexForFreeList_ := some (thread, held) }
  | some _ => none

/-- Only what is live is freed; it is no longer live once the mutex is held. -/
def deallocate (thread : θ) (ptr : UInt64) (state : PoolThreads θ) : Option (PoolThreads θ) :=
  if ptr = nullptr then some state
  else if ptr ∈ state.live then
    { state with live := state.live.erase ptr }.lockFreeList thread (.linking ptr)
  else none

/-- The next statement of the holder of `mutexForFreeList_`. -/
def advance (thread : θ) (held : ListSection) (state : PoolThreads θ) : PoolThreads θ :=
  match held with
  | .testing =>
    if state.pool.freeList_ ≠ nullptr then { state with mutexForFreeList_ := some (thread, .taking) }
    else { state.place thread .wanting with mutexForFreeList_ := none }
  | .taking => { state with mutexForFreeList_ := some (thread, .taken state.pool.freeList_) }
  | .taken temp =>
    if state.pool.freeList_ = nullptr then state.place thread .crashed
    else { state with mutexForFreeList_ := some (thread, .popping temp (state.memory state.pool.freeList_)) }
  | .popping temp next =>
    { state.place thread .idle with
      pool := { state.pool with freeList_ := next }
      mutexForFreeList_ := none
      live := temp :: state.live }
  | .linking ptr =>
    { state with
      memory := Function.update state.memory ptr state.pool.freeList_
      mutexForFreeList_ := some (thread, .publishing ptr) }
  | .publishing ptr =>
    { state.place thread .idle with
      pool := { state.pool with freeList_ := ptr }
      mutexForFreeList_ := none }

/-- `temp = curSlot_` up to the end of the section. -/
def takeSlot (thread : θ) (state : PoolThreads θ) : PoolThreads θ :=
  { state.place thread .idle with
    pool := state.pool.takeSlot.2
    mutexForBlock_ := none
    live := state.pool.takeSlot.1 :: state.live }

/-- The section under `mutexForBlock_`, or its part before `freeList_` is cleared. -/
def lockBlock (thread : θ) (newBlock : UInt64) (state : PoolThreads θ) : Option (PoolThreads θ) :=
  match state.mutexForBlock_ with
  | some _ => none
  | none =>
    if state.pool.exhausted then
      if state.Fresh newBlock then
        some { state.place thread .locked with
          pool := state.pool.linkBlock newBlock
          memory := state.pool.storeLink newBlock state.memory
          mutexForBlock_ := some thread
          blocks := newBlock :: state.blocks }
      else none
    else some (state.takeSlot thread)

/-- The rest of that section. -/
def clear (thread : θ) (state : PoolThreads θ) : PoolThreads θ :=
  { state with pool := state.pool.clearFreeList }.takeSlot thread

/-- A client writes to a slot that it has been given. -/
def store (address value : UInt64) (state : PoolThreads θ) : Option (PoolThreads θ) :=
  if 8 ∣ address.toNat ∧ ∃ slot ∈ state.live, address.toNat ∈ Region.mk slot.toNat state.pool.SlotSize_.toNat then
    some { state with memory := Function.update state.memory address value }
  else none

def step (event : ThreadEvent θ) (state : PoolThreads θ) : Option (PoolThreads θ) :=
  match event with
  | .allocate thread => if state.positions thread = .idle then some (state.allocate thread) else none
  | .lockFreeList thread => if state.positions thread = .seen then state.lockFreeList thread .testing else none
  | .deallocate thread ptr => if state.positions thread = .idle then state.deallocate thread ptr else none
  | .advance thread =>
    match state.mutexForFreeList_ with
    | some (holder, held) => if holder = thread ∧ state.positions thread = .locked then some (state.advance thread held) else none
    | none => none
  | .lockBlock thread newBlock => if state.positions thread = .wanting then state.lockBlock thread newBlock else none
  | .clear thread => if state.mutexForBlock_ = some thread then some (state.clear thread) else none
  | .store address value => state.store address value

def machine : Machine (PoolThreads θ) (ThreadEvent θ) := ⟨step⟩

def recordSection (held : ListSection) (freed : List UInt64) : List UInt64 :=
  match held with
  | .popping temp _ => freed.filter (· ≠ temp)
  | .publishing ptr => ptr :: freed
  | _ => freed

/-- The slots that were freed and that no `allocate` has taken since. -/
def record (event : ThreadEvent θ) (state : PoolThreads θ) (freed : List UInt64) : List UInt64 :=
  match event with
  | .advance _ => state.mutexForFreeList_.elim freed fun holder => recordSection holder.2 freed
  | _ => freed

def watched : Machine (PoolThreads θ × List UInt64) (ThreadEvent θ) := machine.watch record

end Step

end PoolThreads
end Webserver
