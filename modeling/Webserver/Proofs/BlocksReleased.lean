import Webserver.PoolRelease
import Webserver.Proofs.PoolAllocations

/-! The pools give back what they have taken: nothing is deleted that is not allocated,
and after the destructors only the large allocations that no client has freed are left. -/

namespace Webserver
open Library

universe u

theorem MemoryPool.destroy_chain {memory : Memory} {cur : UInt64} {blocks heap rest : List UInt64}
    (chain : Chain memory nullptr cur blocks) (allocated : heap.Perm (blocks ++ rest)) {fuel : Nat}
    (enough : blocks.length < fuel) : ∃ left, destroy memory fuel cur heap = some left ∧ left.Perm rest := by
  induction blocks generalizing cur heap fuel with
  | nil =>
    obtain ⟨fuel, rfl⟩ := Nat.exists_eq_add_one.mpr enough
    obtain rfl : cur = nullptr := chain
    exact ⟨heap, rfl, allocated⟩
  | cons block blocks ih =>
    obtain ⟨fuel, rfl⟩ := Nat.exists_eq_add_one.mpr (Nat.lt_of_le_of_lt (Nat.zero_le _) enough)
    obtain ⟨rfl, some, tail⟩ := chain
    have member : cur ∈ heap := allocated.mem_iff.mpr List.mem_cons_self
    have erased : (heap.erase cur).Perm (blocks ++ rest) := by
      have without := allocated.erase cur
      rwa [List.cons_append, List.erase_cons_head] at without
    obtain ⟨left, deleted, same⟩ := ih tail erased (Nat.lt_of_succ_lt_succ enough)
    refine ⟨left, ?_, same⟩
    rw [destroy, if_neg some, Heap.delete, if_pos member]
    exact deleted

namespace HashBucket
variable {θ : Type u} {state : HashBucket θ} {heap : Heap} {free : Fin MEMORY_POOL_NUM → List UInt64}

def poolBlocks (state : HashBucket θ) : Heap := (List.finRange MEMORY_POOL_NUM).flatMap state.blocks

/-- The blocks hang together by links that nothing else overwrites, and they are, with
the large allocations, what is allocated. -/
structure Owned (state : HashBucket θ) (heap : Heap) : Prop where
  linked : ∀ i, Chain state.memory MemoryPool.nullptr (state.memoryPool i).firstBlock_ (state.blocks i)
  apart : ∀ i, (state.blocks i).Pairwise fun first second => (blockRegion first).Apart (blockRegion second)
  positive : ∀ allocation ∈ state.live, 0 < allocation.size
  allocated : heap.Perm (state.poolBlocks ++ (directs state.live).map Allocation.pointer)

theorem init_owned (memory : Memory) : Owned (initMemoryPool memory : HashBucket θ) [] where
  linked i := rfl
  apart i := .nil
  positive allocation member := by cases member
  allocated := by simp [poolBlocks, initMemoryPool, directs]

/-- What is live does not reach the link of a block. -/
theorem Allotted.header_apart (allotted : Allotted free state) (owned : Owned state heap) {allocation : Allocation}
    (member : allocation ∈ state.live) {address : UInt64} (inside : address.toNat ∈ allocation.footprint)
    (i : Fin MEMORY_POOL_NUM) : address ∉ state.blocks i := by
  intro among
  have start : address.toNat ∈ blockRegion address := ⟨Nat.le_refl _, Nat.lt_add_of_pos_right (Nat.succ_pos _)⟩
  by_cases served : poolOf allocation.size = some i
  · rw [Allocation.footprint_pooled served] at inside
    obtain ⟨block, own, placed⟩ := allotted.placed member served
    by_cases same : block = address
    · subst same
      have header := placed.header
      have low := (Region.mem_iff.mp inside).1
      change allocation.pointer.toNat ≤ _ at low
      omega
    · have symmetric : Std.Symm fun first second => (blockRegion first).Apart (blockRegion second) :=
        ⟨fun _ _ apart => apart.symm⟩
      have apart := (owned.apart i).forall own among same
      exact apart _ (placed.within _ inside) start
  · exact allotted.apart_of_within member served among (Region.within_refl _) _ inside start

private theorem block_ne {first second : UInt64} (apart : (blockRegion first).Apart (blockRegion second)) : first ≠ second :=
  fun same => apart.start_ne (Nat.succ_pos _) (Nat.succ_pos _) (congrArg UInt64.toNat same)

theorem Owned.nodup (owned : Owned state heap) (allotted : Allotted free state) : heap.Nodup := by
  have some : ∀ allocation ∈ directs state.live, 0 < allocation.region.bytes := fun allocation member =>
    UInt64.lt_iff_toNat_lt.mp (owned.positive allocation (mem_directs.mp member).1)
  rw [owned.allocated.nodup_iff, List.nodup_append']
  refine ⟨?_, ?_, ?_⟩
  · rw [poolBlocks, List.nodup_flatMap]
    refine ⟨fun i _ => (owned.apart i).imp block_ne, ?_⟩
    refine (List.nodup_finRange _).imp fun {i j} different block member other => ?_
    exact block_ne (allotted.blocks i j different block member block other) rfl
  · rw [List.Nodup, List.pairwise_map]
    refine allotted.apart.imp_of_mem fun {first second} one two apart same => ?_
    exact apart.start_ne (some first one) (some second two) (congrArg UInt64.toNat same)
  · intro pointer pooled large
    obtain ⟨i, _, member⟩ := List.mem_flatMap.mp pooled
    obtain ⟨allocation, live, rfl⟩ := List.mem_map.mp large
    exact ((allotted.direct allocation live).2 i _ member).start_ne (Nat.succ_pos _) (some allocation live) rfl

private theorem poolOf_eq_none {size : UInt64} (some : 0 < size) : poolOf size = none ↔ MAX_SLOT_SIZE < size := by
  unfold poolOf
  split
  next served => exact iff_of_false (by simp) (UInt64.not_lt.mpr served.2)
  next other => exact iff_of_true rfl (UInt64.not_le.mp fun small => other ⟨some, small⟩)

theorem Request.positive (request : Request) : 0 < request.size ∧ ¬MAX_SLOT_SIZE < request.size := by
  have served := request.served
  unfold poolOf at served
  split at served
  next range => exact ⟨range.1, UInt64.not_lt.mpr range.2⟩
  next => cases served

private theorem obtained_request (thread : θ) (request : Request) (newBlock : UInt64) (state : HashBucket θ) :
    obtained (.useMemory thread request.size newBlock) state = [] :=
  if_neg request.positive.2

private theorem flatMap_update {ι : Type} {α : Type} [DecidableEq ι] {keys : List ι} (nodup : keys.Nodup) {i : ι}
    (member : i ∈ keys) (family : ι → List α) (item : α) :
    (keys.flatMap (Function.update family i (item :: family i))).Perm (item :: keys.flatMap family) := by
  induction keys with
  | nil => cases member
  | cons key keys ih =>
    obtain ⟨fresh, nodup⟩ := List.nodup_cons.mp nodup
    rw [List.flatMap_cons, List.flatMap_cons]
    by_cases here : key = i
    · subst here
      have same : keys.flatMap (Function.update family key (item :: family key)) = keys.flatMap family :=
        List.flatMap_congr fun other among => Function.update_of_ne (by rintro rfl; exact fresh among) _ _
      rw [Function.update_self, same]
      exact .refl _
    · rw [Function.update_of_ne here]
      have later := ih nodup ((List.mem_cons.mp member).resolve_left (Ne.symm here))
      exact (later.append_left _).trans List.perm_middle

namespace Owned

theorem calls (owned : Owned state heap) (calls : θ → Call) : Owned { state with calls := calls } heap :=
  ⟨owned.linked, owned.apart, owned.positive, owned.allocated⟩

theorem write (owned : Owned state heap) {address : UInt64} (outside : ∀ i, address ∉ state.blocks i) (value : UInt64) :
    Owned (state.write address value) heap :=
  ⟨fun i => (owned.linked i).update (outside i) value, owned.apart, owned.positive, owned.allocated⟩

theorem change (owned : Owned state heap) (i : Fin MEMORY_POOL_NUM) {pool : MemoryPool} {live : List Allocation}
    (first : pool.firstBlock_ = (state.memoryPool i).firstBlock_) (some : ∀ allocation ∈ live, 0 < allocation.size)
    (same : (directs state.live).Perm (directs live)) :
    Owned { state with memoryPool := Function.update state.memoryPool i pool, live := live } heap := by
  refine ⟨fun j => ?_, owned.apart, some, owned.allocated.trans ((same.map _).append_left _)⟩
  by_cases here : j = i
  · subst here
    simp only [Function.update_self, first]
    exact owned.linked j
  · simp only [Function.update_of_ne here]
    exact owned.linked j

theorem hand (owned : Owned state heap) (request : Request) (pool : MemoryPool) (pointer : UInt64)
    (first : pool.firstBlock_ = (state.memoryPool request.pool).firstBlock_) :
    Owned { state with
      memoryPool := Function.update state.memoryPool request.pool pool
      live := ⟨pointer, request.size⟩ :: state.live } heap := by
  refine owned.change request.pool first ?_ ?_
  · rintro allocation (_ | ⟨_, old⟩)
    · exact request.positive.1
    · exact owned.positive allocation old
  · rw [directs_cons_other]
    simp [request.served]

/-- A new block leads to the one before, and every other link stays. -/
theorem grow (owned : Owned state heap) {newBlock : UInt64} (fresh : state.Fresh newBlock 4096) (i : Fin MEMORY_POOL_NUM) :
    Owned (state.grow i newBlock) (newBlock :: heap) := by
  have absent : ∀ j, newBlock ∉ state.blocks j := fun j member => block_ne (fresh.blocks j newBlock member) rfl
  have some : newBlock ≠ MemoryPool.nullptr := by
    rintro rfl
    exact absurd fresh.positive (Nat.lt_irrefl 0)
  refine ⟨fun j => ?_, fun j => ?_, owned.positive, ?_⟩
  · by_cases here : j = i
    · subst here
      simp only [HashBucket.grow, MemoryPool.allocateNewBlock, Function.update_self]
      exact (owned.linked j).push (absent j) some
    · simp only [HashBucket.grow, Function.update_of_ne here]
      exact (owned.linked j).update (absent j) _
  · by_cases here : j = i
    · subst here
      simp only [HashBucket.grow, Function.update_self]
      exact .cons (fun block member => (fresh.blocks j block member).symm) (owned.apart j)
    · simp only [HashBucket.grow, Function.update_of_ne here]
      exact owned.apart j
  · have grown : (state.grow i newBlock).poolBlocks.Perm (newBlock :: state.poolBlocks) :=
      flatMap_update (List.nodup_finRange _) (List.mem_finRange i) _ _
    exact (owned.allocated.cons _).trans (grown.append_right _).symm

theorem newDirect (owned : Owned state heap) {pointer size : UInt64} (some : 0 < size) (large : poolOf size = none) :
    Owned (state.newDirect pointer size) (pointer :: heap) := by
  refine ⟨owned.linked, owned.apart, ?_, ?_⟩
  · rintro allocation (_ | ⟨_, old⟩)
    · exact some
    · exact owned.positive allocation old
  · rw [directs_cons_self large]
    exact (owned.allocated.cons _).trans List.perm_middle.symm

theorem deleteDirect (owned : Owned state heap) {ptr size : UInt64} (member : ⟨ptr, size⟩ ∈ state.live)
    (large : poolOf size = none) : ∃ left, heap.delete ptr = some left ∧ Owned (state.deleteDirect ptr size) left := by
  have erased := directs_perm (List.perm_cons_erase member)
  rw [directs_cons_self large] at erased
  have whole : heap.Perm (ptr :: (state.poolBlocks ++ (directs (state.live.erase ⟨ptr, size⟩)).map Allocation.pointer)) :=
    owned.allocated.trans (((erased.map Allocation.pointer).append_left _).trans List.perm_middle)
  refine ⟨heap.erase ptr, if_pos (whole.mem_iff.mpr List.mem_cons_self), owned.linked, owned.apart, ?_, ?_⟩
  · exact fun allocation old => owned.positive allocation (List.erase_subset old)
  · have without := whole.erase ptr
    rwa [List.erase_cons_head] at without

theorem pushFreeList (owned : Owned state heap) (allotted : Allotted free state) {ptr size : UInt64}
    (member : ⟨ptr, size⟩ ∈ state.live) {pool : Fin MEMORY_POOL_NUM} (served : poolOf size = some pool) :
    Owned (state.pushFreeList pool ptr size) heap := by
  have start : ptr.toNat ∈ (⟨ptr, size⟩ : Allocation).footprint := by
    rw [Allocation.footprint_pooled served]
    exact MemoryPool.Laid.start_mem (slotSize_width pool) ptr
  have written := owned.write (allotted.header_apart owned member start) (state.memoryPool pool).freeList_
  refine written.change pool rfl (fun allocation old => owned.positive allocation (List.erase_subset old)) ?_
  exact (directs_perm (List.perm_cons_erase member)).trans (.of_eq (directs_cons_other (by simp [served])))

variable [DecidableEq θ]

theorem bump (owned : Owned state heap) (thread : θ) (request : Request) : Owned (state.bump thread request) heap :=
  (owned.hand request (state.memoryPool request.pool).takeSlot.2 _ rfl).calls _

/-- No step deletes what is not allocated. -/
theorem step (owned : Owned state heap) (allotted : Allotted free state) {event : PoolEvent θ} {next : HashBucket θ}
    (stepped : machine.step event state = some next) :
    ∃ left, heapStep event state heap = some left ∧ Owned next left := by
  cases step_cases stepped with
  | asksNothing => exact ⟨_, rfl, owned⟩
  | news thread size newBlock _ some large fresh =>
    refine ⟨_, rfl, ?_⟩
    rw [obtained, if_pos ((poolOf_eq_none some).mp large)]
    exact owned.newDirect some large
  | sees thread request newBlock | misses thread request newBlock =>
    refine ⟨_, rfl, ?_⟩
    rw [obtained_request]
    exact owned.calls _
  | pops thread request =>
    exact ⟨_, rfl, (owned.hand request ((state.memoryPool request.pool).popFreeList state.memory).2 _ rfl).calls _⟩
  | comesLate => exact ⟨_, rfl, owned.calls _⟩
  | grows thread request newBlock bumping exhausted fresh =>
    refine ⟨_, rfl, ?_⟩
    simp only [obtained, bumping, exhausted, if_true]
    exact (owned.grow fresh request.pool).bump thread request
  | bumps thread request newBlock bumping room =>
    refine ⟨_, rfl, ?_⟩
    simp only [obtained, bumping, room]
    exact owned.bump thread request
  | freesNothing size =>
    rw [heapStep, if_neg fun some => some.1 rfl]
    exact ⟨heap, rfl, owned⟩
  | deletes ptr size some member large =>
    rw [heapStep, if_pos ⟨some, (poolOf_eq_none (owned.positive _ member)).mp large⟩]
    exact owned.deleteDirect member large
  | pushes ptr size pool _ member served =>
    have small : ¬MAX_SLOT_SIZE < size := fun large => by
      rw [(poolOf_eq_none (owned.positive _ member)).mpr large] at served
      cases served
    rw [heapStep, if_neg fun both => small both.2]
    exact ⟨heap, rfl, owned.pushFreeList allotted member served⟩
  | stores address value allocation _ member inside =>
    exact ⟨_, rfl, owned.write (allotted.header_apart owned member (allocation.region_within _ inside)) value⟩

end Owned

theorem Owned.destroyPools (owned : Owned state heap) {pools : List (Fin MEMORY_POOL_NUM)} {before rest : Heap}
    (allocated : before.Perm (pools.flatMap state.blocks ++ rest)) {fuel : Nat} (enough : before.length < fuel) :
    ∃ left, pools.foldlM
      (fun heap i => MemoryPool.destroy state.memory fuel (state.memoryPool i).firstBlock_ heap) before = some left ∧
      left.Perm rest := by
  induction pools generalizing before with
  | nil => exact ⟨before, rfl, allocated⟩
  | cons pool pools ih =>
    rw [List.flatMap_cons, List.append_assoc] at allocated
    have length := allocated.length_eq
    rw [List.length_append] at length
    obtain ⟨between, destroyed, same⟩ := MemoryPool.destroy_chain (owned.linked pool) allocated (by omega : _ < fuel)
    have fewer := same.length_eq
    obtain ⟨left, others, remains⟩ := ih same (by omega)
    refine ⟨left, ?_, remains⟩
    rw [List.foldlM_cons, destroyed]
    exact others

section Run

def Served (state : HashBucket θ) (beside : HashBucket θ × Heap) : Prop :=
  beside.1 = state ∧ Owned state beside.2 ∧ ∃ free, Allotted free state

theorem init_served (memory : Memory) : Served (initMemoryPool memory : HashBucket θ) (initMemoryPool memory, []) :=
  ⟨rfl, init_owned memory, _, init_allotted memory⟩

variable [DecidableEq θ]

theorem Served.step {event : PoolEvent θ} {next : HashBucket θ} {beside : HashBucket θ × Heap}
    (served : Served state beside) (stepped : machine.step event state = some next) :
    ∃ after, heapMachine.step event beside = some after ∧ Served next after := by
  obtain ⟨same, owned, free, allotted⟩ := served
  obtain ⟨left, onHeap, still⟩ := owned.step allotted stepped
  refine ⟨(next, left), ?_, rfl, still, allotted.step stepped⟩
  have moved : HashBucket.step event beside.1 = some next := by rwa [same]
  change (HashBucket.step event beside.1).bind _ = _
  rw [moved, Option.bind_some, same, onHeap]
  rfl

theorem run_served {memory : Memory} {events : List (PoolEvent θ)} {final : HashBucket θ}
    (reached : machine.run events (initMemoryPool memory) = some final) :
    ∃ beside, heapMachine.run events (initMemoryPool memory, []) = some beside ∧ Served final beside :=
  Machine.run_matched (fun _ _ _ _ served stepped => served.step stepped) reached (init_served memory)

/-- For every order of the steps of clients and threads: `operator delete` is only ever
given what is allocated. The destructors then end, delete each block of the pools once
and leave the large allocations that no client has freed. -/
theorem blocks_released (memory : Memory) (events : List (PoolEvent θ)) (final : HashBucket θ)
    (reached : machine.run events (initMemoryPool memory) = some final) :
    ∃ heap, heapMachine.run events (initMemoryPool memory, []) = some (final, heap) ∧ heap.Nodup ∧
      ∀ fuel, heap.length < fuel → ∃ left, final.destroyPools fuel heap = some left ∧
        left.Perm ((directs final.live).map Allocation.pointer) := by
  obtain ⟨⟨_, heap⟩, along, rfl, owned, free, allotted⟩ := run_served reached
  refine ⟨heap, along, owned.nodup allotted, fun fuel enough => ?_⟩
  have reversed : (List.finRange MEMORY_POOL_NUM).Perm (List.finRange MEMORY_POOL_NUM).reverse :=
    (List.reverse_perm _).symm
  exact owned.destroyPools (owned.allocated.trans ((reversed.flatMap_right _).append_right _)) enough

/-- One large allocation is freed and another is not. -/
theorem blocks_released_two : ∃ (final : HashBucket Nat) (heap left : Heap),
    machine.run [.useMemory 0 24 0, .takeSlot 0 4096, .useMemory 1 600 8192, .useMemory 0 700 16384, .freeMemory 8192 600]
      (initMemoryPool fun _ => 0) = some final ∧
    final.live = [⟨16384, 700⟩, ⟨4120, 24⟩] ∧ final.destroyPools (heap.length + 1) heap = some left ∧ left = [16384] := by
  have computed : (machine.run [.useMemory 0 24 0, .takeSlot 0 4096, .useMemory 1 600 8192, .useMemory 0 700 16384,
      .freeMemory 8192 600] (initMemoryPool fun _ => 0 : HashBucket Nat)).map live = some [⟨16384, 700⟩, ⟨4120, 24⟩] := by
    decide +kernel
  obtain ⟨final, reached, live⟩ := Option.map_eq_some_iff.mp computed
  obtain ⟨heap, _, _, released⟩ := blocks_released _ _ final reached
  obtain ⟨left, destroyed, same⟩ := released _ (Nat.lt_succ_self _)
  have large : (directs final.live).map Allocation.pointer = [16384] := by
    rw [live]
    decide
  exact ⟨final, heap, left, reached, live, destroyed, List.perm_singleton.mp (large ▸ same)⟩

end Run
end HashBucket
end Webserver
