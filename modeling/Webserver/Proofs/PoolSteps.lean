import Webserver.HashBucket

/-! What one step of the clients and the pools does, said once: a constructor for each
branch that succeeds, with its guards. -/

namespace Webserver
open Library

universe u

namespace HashBucket
variable {θ : Type u}

abbrev newDirect (state : HashBucket θ) (pointer size : UInt64) : HashBucket θ :=
  { state with live := ⟨pointer, size⟩ :: state.live }

abbrev deleteDirect (state : HashBucket θ) (ptr size : UInt64) : HashBucket θ :=
  { state with live := state.live.erase ⟨ptr, size⟩ }

abbrev pushFreeList (state : HashBucket θ) (pool : Fin MEMORY_POOL_NUM) (ptr size : UInt64) : HashBucket θ :=
  { state with
    live := state.live.erase ⟨ptr, size⟩
    memory := ((state.memoryPool pool).pushFreeList ptr state.memory).1
    memoryPool := Function.update state.memoryPool pool ((state.memoryPool pool).pushFreeList ptr state.memory).2 }

abbrev write (state : HashBucket θ) (address value : UInt64) : HashBucket θ :=
  { state with memory := Function.update state.memory address value }

section Step
variable [DecidableEq θ]

abbrev popFreeList (state : HashBucket θ) (thread : θ) (request : Request) : HashBucket θ :=
  { state.setCall thread .idle with
    memoryPool := Function.update state.memoryPool request.pool ((state.memoryPool request.pool).popFreeList state.memory).2
    live := ⟨(state.memoryPool request.pool).freeList_, request.size⟩ :: state.live }

/-- A served request goes to the mutex of the free list when there is a slot on it. -/
inductive Move (before : HashBucket θ) : PoolEvent θ → HashBucket θ → Prop where
  | asksNothing (thread : θ) (newBlock : UInt64) (idle : before.calls thread = .idle) :
      Move before (.useMemory thread 0 newBlock) before
  | news (thread : θ) (size newBlock : UInt64) (idle : before.calls thread = .idle) (some : 0 < size)
      (large : poolOf size = none) (fresh : before.Fresh newBlock size.toNat) :
      Move before (.useMemory thread size newBlock) (before.newDirect newBlock size)
  | sees (thread : θ) (request : Request) (newBlock : UInt64) (idle : before.calls thread = .idle)
      (listed : (before.memoryPool request.pool).freeList_ ≠ MemoryPool.nullptr) :
      Move before (.useMemory thread request.size newBlock) (before.setCall thread (.popping request))
  | misses (thread : θ) (request : Request) (newBlock : UInt64) (idle : before.calls thread = .idle)
      (empty : (before.memoryPool request.pool).freeList_ = MemoryPool.nullptr) :
      Move before (.useMemory thread request.size newBlock) (before.setCall thread (.bumping request))
  | pops (thread : θ) (request : Request) (popping : before.calls thread = .popping request)
      (listed : (before.memoryPool request.pool).freeList_ ≠ MemoryPool.nullptr) :
      Move before (.popSlot thread) (before.popFreeList thread request)
  | comesLate (thread : θ) (request : Request) (popping : before.calls thread = .popping request)
      (empty : (before.memoryPool request.pool).freeList_ = MemoryPool.nullptr) :
      Move before (.popSlot thread) (before.setCall thread (.bumping request))
  | grows (thread : θ) (request : Request) (newBlock : UInt64) (bumping : before.calls thread = .bumping request)
      (exhausted : (before.memoryPool request.pool).exhausted = true) (fresh : before.Fresh newBlock 4096) :
      Move before (.takeSlot thread newBlock) ((before.grow request.pool newBlock).bump thread request)
  | bumps (thread : θ) (request : Request) (newBlock : UInt64) (bumping : before.calls thread = .bumping request)
      (room : (before.memoryPool request.pool).exhausted = false) :
      Move before (.takeSlot thread newBlock) (before.bump thread request)
  | freesNothing (size : UInt64) : Move before (.freeMemory MemoryPool.nullptr size) before
  | deletes (ptr size : UInt64) (some : ptr ≠ MemoryPool.nullptr) (member : ⟨ptr, size⟩ ∈ before.live)
      (large : poolOf size = none) : Move before (.freeMemory ptr size) (before.deleteDirect ptr size)
  | pushes (ptr size : UInt64) (pool : Fin MEMORY_POOL_NUM) (some : ptr ≠ MemoryPool.nullptr)
      (member : ⟨ptr, size⟩ ∈ before.live) (served : poolOf size = .some pool) :
      Move before (.freeMemory ptr size) (before.pushFreeList pool ptr size)
  | stores (address value : UInt64) (allocation : Allocation) (aligned : 8 ∣ address.toNat)
      (member : allocation ∈ before.live) (inside : address.toNat ∈ allocation.region) :
      Move before (.store address value) (before.write address value)

theorem useMemory_cases {thread : θ} {size newBlock : UInt64} {before after : HashBucket θ}
    (idle : before.calls thread = .idle) (stepped : before.useMemory thread size newBlock = some after) :
    Move before (.useMemory thread size newBlock) after := by
  unfold useMemory at stepped
  split at stepped
  next nothing =>
    cases stepped
    subst nothing
    exact .asksNothing thread newBlock idle
  next asked =>
    split at stepped
    next large =>
      obtain ⟨fresh, stepped⟩ := Option.ite_none_right_eq_some.mp stepped
      cases stepped
      exact .news thread size newBlock idle (UInt64.pos_iff_ne_zero.mpr asked) large fresh
    next pool served =>
      split at stepped
      next listed =>
        cases stepped
        exact .sees thread ⟨size, pool, served⟩ newBlock idle listed
      next empty =>
        cases stepped
        exact .misses thread ⟨size, pool, served⟩ newBlock idle (not_not.mp empty)

theorem popSlot_cases {thread : θ} {request : Request} {before : HashBucket θ}
    (popping : before.calls thread = .popping request) : Move before (.popSlot thread) (before.popSlot thread request) := by
  unfold popSlot
  dsimp only
  split
  next listed => exact .pops thread request popping listed
  next empty => exact .comesLate thread request popping (not_not.mp empty)

theorem takeSlot_cases {thread : θ} {request : Request} {newBlock : UInt64} {before after : HashBucket θ}
    (bumping : before.calls thread = .bumping request) (stepped : before.takeSlot thread request newBlock = some after) :
    Move before (.takeSlot thread newBlock) after := by
  unfold takeSlot at stepped
  split at stepped
  next exhausted =>
    obtain ⟨fresh, stepped⟩ := Option.ite_none_right_eq_some.mp stepped
    cases stepped
    exact .grows thread request newBlock bumping exhausted fresh
  next room =>
    cases stepped
    exact .bumps thread request newBlock bumping (eq_false_of_ne_true room)

theorem freeMemory_cases {ptr size : UInt64} {before after : HashBucket θ} (stepped : before.freeMemory ptr size = some after) :
    Move before (.freeMemory ptr size) after := by
  unfold freeMemory at stepped
  split at stepped
  next null =>
    cases stepped
    subst null
    exact .freesNothing size
  next some =>
    obtain ⟨member, stepped⟩ := Option.ite_none_right_eq_some.mp stepped
    split at stepped
    next large =>
      cases stepped
      exact .deletes ptr size some member large
    next pool served =>
      cases stepped
      exact .pushes ptr size pool some member served

theorem step_cases {event : PoolEvent θ} {before after : HashBucket θ} (stepped : machine.step event before = some after) :
    Move before event after := by
  cases event with
  | useMemory thread size newBlock =>
    simp only [machine, step] at stepped
    split at stepped
    next idle => exact useMemory_cases idle stepped
    next => cases stepped
  | popSlot thread =>
    simp only [machine, step] at stepped
    split at stepped
    next request popping =>
      cases stepped
      exact popSlot_cases popping
    next => cases stepped
  | takeSlot thread newBlock =>
    simp only [machine, step] at stepped
    split at stepped
    next request bumping => exact takeSlot_cases bumping stepped
    next => cases stepped
  | freeMemory ptr size => exact freeMemory_cases stepped
  | store address value =>
    obtain ⟨⟨aligned, allocation, member, inside⟩, stepped⟩ := Option.ite_none_right_eq_some.mp stepped
    cases stepped
    exact .stores address value allocation aligned member inside

end Step
end HashBucket
end Webserver
