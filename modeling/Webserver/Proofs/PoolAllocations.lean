import Webserver.Proofs.PoolLayout
import Webserver.Proofs.PoolSteps

/-! Nothing that a `HashBucket` hands out overlaps anything else that is live, free or
still to be handed out, whichever pool or path it came from. -/

namespace Webserver
open Library

universe u

namespace HashBucket
variable {θ : Type u}

private theorem slotSize_toNat (i : Fin MEMORY_POOL_NUM) : (slotSize i).toNat = 8 * (i + 1) := by
  have bound : i.val < 64 := i.isLt
  rw [slotSize, UInt64.toNat_mul, UInt64.toNat_ofNat']
  change (i.val + 1) % 2 ^ 64 * 8 % 2 ^ 64 = _
  omega

theorem slotSize_width (i : Fin MEMORY_POOL_NUM) : MemoryPool.Width (slotSize i).toNat := by
  have bound : i.val < 64 := i.isLt
  rw [slotSize_toNat]
  exact ⟨Nat.dvd_mul_right _ _, by omega, by omega⟩

private theorem le_slotSize {size : UInt64} {i : Fin MEMORY_POOL_NUM} (served : poolOf size = some i) :
    size.toNat ≤ (slotSize i).toNat := by
  unfold poolOf at served
  split at served
  next range =>
    have index := poolIndex_eq range.1 range.2
    obtain rfl := Option.some.inj served
    rw [slotSize_toNat]
    change size.toNat ≤ 8 * (poolIndex size + 1)
    omega
  next => cases served

/-- The bytes that an allocation keeps: a whole slot of its pool. -/
def Allocation.footprint (allocation : Allocation) : Region :=
  match poolOf allocation.size with
  | some i => slotRegion (slotSize i).toNat allocation.pointer
  | none => allocation.region

theorem Allocation.footprint_pooled {allocation : Allocation} {i : Fin MEMORY_POOL_NUM}
    (served : poolOf allocation.size = some i) :
    allocation.footprint = slotRegion (slotSize i).toNat allocation.pointer := by
  rw [footprint, served]

theorem Allocation.footprint_direct {allocation : Allocation} (large : poolOf allocation.size = none) :
    allocation.footprint = allocation.region := by
  rw [footprint, large]

theorem Allocation.region_within (allocation : Allocation) : allocation.region.Within allocation.footprint := by
  cases served : poolOf allocation.size with
  | none =>
    rw [footprint_direct served]
    exact Region.within_refl _
  | some i =>
    rw [footprint_pooled served]
    exact Region.within_of_le (Nat.le_refl _) (Nat.add_le_add_left (le_slotSize served) _)

/-- What is live keeps to itself. -/
structure Separate (state : HashBucket θ) : Prop where
  aligned : ∀ allocation ∈ state.live, 8 ∣ allocation.pointer.toNat
  inside : ∀ allocation ∈ state.live, ∀ i, poolOf allocation.size = some i →
    ∃ block ∈ state.blocks i, MemoryPool.Placed (slotSize i).toNat allocation.pointer block
  live : state.live.Pairwise fun first second => first.footprint.Apart second.footprint
  bytes : state.live.Pairwise fun first second => first.region.Apart second.region
  free : ∀ i, ∃ nodes, Chain state.memory MemoryPool.nullptr (state.memoryPool i).freeList_ nodes ∧
    ∀ slot ∈ nodes, ∀ allocation ∈ state.live, allocation.footprint.Apart (slotRegion (slotSize i).toNat slot)
  unused : ∀ i, ∀ allocation ∈ state.live,
    allocation.footprint.Apart ((state.memoryPool i).unused (slotSize i).toNat)

def slots (live : List Allocation) (i : Fin MEMORY_POOL_NUM) : List UInt64 :=
  (live.filter fun allocation => poolOf allocation.size = some i).map Allocation.pointer

def directs (live : List Allocation) : List Allocation :=
  live.filter fun allocation => poolOf allocation.size = none

section Lists
variable {live : List Allocation} {i : Fin MEMORY_POOL_NUM} {pointer size : UInt64} {allocation : Allocation}

theorem mem_slots (member : allocation ∈ live) (served : poolOf allocation.size = some i) :
    allocation.pointer ∈ slots live i :=
  List.mem_map_of_mem (List.mem_filter.mpr ⟨member, decide_eq_true served⟩)

theorem mem_directs : allocation ∈ directs live ↔ allocation ∈ live ∧ poolOf allocation.size = none := by
  rw [directs, List.mem_filter, decide_eq_true_iff]

theorem slots_cons_self (served : poolOf size = some i) : slots (⟨pointer, size⟩ :: live) i = pointer :: slots live i := by
  simp [slots, served]

theorem slots_cons_other (other : poolOf size ≠ some i) : slots (⟨pointer, size⟩ :: live) i = slots live i := by
  simp [slots, other]

theorem directs_cons_self (large : poolOf size = none) : directs (⟨pointer, size⟩ :: live) = ⟨pointer, size⟩ :: directs live := by
  simp [directs, large]

theorem directs_cons_other (served : poolOf size ≠ none) : directs (⟨pointer, size⟩ :: live) = directs live := by
  simp [directs, served]

theorem slots_perm {other : List Allocation} (same : live.Perm other) (i : Fin MEMORY_POOL_NUM) :
    (slots live i).Perm (slots other i) :=
  (same.filter _).map _

theorem directs_perm {other : List Allocation} (same : live.Perm other) : (directs live).Perm (directs other) :=
  same.filter _

end Lists

/-- The blocks of different pools are apart, and each pool has laid out in its own what
is live and what is on its free list. -/
structure Allotted (free : Fin MEMORY_POOL_NUM → List UInt64) (state : HashBucket θ) : Prop where
  laid : ∀ i, MemoryPool.Laid (slotSize i).toNat (state.memoryPool i) (state.blocks i) (slots state.live i ++ free i)
  chained : ∀ i, Chain state.memory MemoryPool.nullptr (state.memoryPool i).freeList_ (free i)
  blocks : ∀ i j, i ≠ j → ∀ block ∈ state.blocks i, ∀ other ∈ state.blocks j,
    (blockRegion block).Apart (blockRegion other)
  direct : ∀ allocation ∈ directs state.live, 8 ∣ allocation.pointer.toNat ∧
    ∀ i, ∀ block ∈ state.blocks i, (blockRegion block).Apart allocation.region
  apart : (directs state.live).Pairwise fun first second => first.region.Apart second.region

theorem init_allotted (memory : Memory) : Allotted (fun _ => []) (initMemoryPool memory : HashBucket θ) where
  laid i := MemoryPool.init_laid
  chained i := rfl
  blocks i j different block member := by cases member
  direct allocation member := by cases member
  apart := .nil

private theorem mem_grow_blocks {state : HashBucket θ} {i j : Fin MEMORY_POOL_NUM} {newBlock block : UInt64} :
    block ∈ (state.grow i newBlock).blocks j ↔ j = i ∧ block = newBlock ∨ block ∈ state.blocks j := by
  by_cases here : j = i
  · subst here
    simp [HashBucket.grow]
  · simp [HashBucket.grow, here]

namespace Allotted
variable {free : Fin MEMORY_POOL_NUM → List UInt64} {state : HashBucket θ}

theorem placed (allotted : Allotted free state) {allocation : Allocation} (member : allocation ∈ state.live)
    {i : Fin MEMORY_POOL_NUM} (served : poolOf allocation.size = some i) :
    ∃ block ∈ state.blocks i, MemoryPool.Placed (slotSize i).toNat allocation.pointer block :=
  (allotted.laid i).placed _ (List.mem_append_left _ (mem_slots member served))

theorem apart_of_within (allotted : Allotted free state) {allocation : Allocation} (member : allocation ∈ state.live)
    {j : Fin MEMORY_POOL_NUM} (elsewhere : poolOf allocation.size ≠ some j) {block : UInt64} (among : block ∈ state.blocks j)
    {region : Region} (within : region.Within (blockRegion block)) : allocation.footprint.Apart region := by
  cases served : poolOf allocation.size with
  | none =>
    rw [Allocation.footprint_direct served]
    have apart := (allotted.direct allocation (mem_directs.mpr ⟨member, served⟩)).2 j block among
    exact (apart.within within (Region.within_refl _)).symm
  | some i =>
    rw [Allocation.footprint_pooled served]
    obtain ⟨own, mine, placed⟩ := allotted.placed member served
    have different : i ≠ j := by
      rintro rfl
      exact elsewhere served
    exact (allotted.blocks i j different own mine block among).within placed.within within

theorem free_apart (allotted : Allotted free state) {allocation : Allocation} (member : allocation ∈ state.live)
    {i : Fin MEMORY_POOL_NUM} {slot : UInt64} (listed : slot ∈ free i) :
    allocation.footprint.Apart (slotRegion (slotSize i).toNat slot) := by
  by_cases served : poolOf allocation.size = some i
  · rw [Allocation.footprint_pooled served]
    exact (List.pairwise_append.mp (allotted.laid i).apart).2.2 _ (mem_slots member served) slot listed
  · obtain ⟨block, among, placed⟩ := (allotted.laid i).placed slot (List.mem_append_right _ listed)
    exact allotted.apart_of_within member served among placed.within

theorem unused_apart (allotted : Allotted free state) {allocation : Allocation} (member : allocation ∈ state.live)
    (i : Fin MEMORY_POOL_NUM) : allocation.footprint.Apart ((state.memoryPool i).unused (slotSize i).toNat) := by
  by_cases served : poolOf allocation.size = some i
  · rw [Allocation.footprint_pooled served]
    exact (allotted.laid i).spare _ (List.mem_append_left _ (mem_slots member served))
  · cases room : (state.memoryPool i).exhausted with
    | true =>
      rw [Region.apart_iff, MemoryPool.unused, if_pos room]
      exact .inr (.inl rfl)
    | false =>
      obtain ⟨block, among, current⟩ := (allotted.laid i).current room
      exact allotted.apart_of_within member served among (current.unused_within room)

theorem separate (allotted : Allotted free state) : Separate state := by
  have live : state.live.Pairwise fun first second => first.footprint.Apart second.footprint := by
    apply pairwise_of_classes fun allocation => poolOf allocation.size
    · rintro (_ | i)
      · refine List.Pairwise.imp_of_mem ?_ allotted.apart
        intro first second one two apart
        rwa [Allocation.footprint_direct (mem_directs.mp one).2, Allocation.footprint_direct (mem_directs.mp two).2]
      · have apart := (List.pairwise_append.mp (allotted.laid i).apart).1
        refine List.Pairwise.imp_of_mem ?_ (List.pairwise_map.mp apart)
        intro first second one two apart
        rwa [Allocation.footprint_pooled (of_decide_eq_true (List.mem_filter.mp one).2),
          Allocation.footprint_pooled (of_decide_eq_true (List.mem_filter.mp two).2)]
    · intro first one second two different
      cases served : poolOf second.size with
      | some j =>
        rw [Allocation.footprint_pooled served]
        obtain ⟨block, among, placed⟩ := allotted.placed two served
        exact allotted.apart_of_within one (served ▸ different) among placed.within
      | none =>
        obtain ⟨i, other⟩ := Option.ne_none_iff_exists'.mp (served ▸ different)
        rw [Allocation.footprint_pooled other]
        obtain ⟨block, among, placed⟩ := allotted.placed one other
        have elsewhere : poolOf second.size ≠ some i := by simp [served]
        exact (allotted.apart_of_within two elsewhere among placed.within).symm
  refine ⟨?_, ?_, live, ?_, ?_, ?_⟩
  · intro allocation member
    cases served : poolOf allocation.size with
    | none => exact (allotted.direct allocation (mem_directs.mpr ⟨member, served⟩)).1
    | some i => exact (allotted.laid i).aligned _ (List.mem_append_left _ (mem_slots member served))
  · intro allocation member i served
    exact allotted.placed member served
  · exact live.imp fun {first second} apart => apart.within first.region_within second.region_within
  · intro i
    exact ⟨free i, allotted.chained i, fun slot listed allocation member => allotted.free_apart member listed⟩
  · intro i allocation member
    exact allotted.unused_apart member i

theorem calls (allotted : Allotted free state) (calls : θ → Call) : Allotted free { state with calls := calls } :=
  ⟨allotted.laid, allotted.chained, allotted.blocks, allotted.direct, allotted.apart⟩

theorem write (allotted : Allotted free state) {address : UInt64} (outside : ∀ i, address ∉ free i) (value : UInt64) :
    Allotted free (state.write address value) :=
  ⟨allotted.laid, fun i => (allotted.chained i).update (outside i) value, allotted.blocks, allotted.direct, allotted.apart⟩

theorem change (allotted : Allotted free state) (i : Fin MEMORY_POOL_NUM) {pool : MemoryPool} {live : List Allocation}
    {listed : List UInt64}
    (laid : MemoryPool.Laid (slotSize i).toNat pool (state.blocks i) (slots live i ++ listed))
    (chained : Chain state.memory MemoryPool.nullptr pool.freeList_ listed)
    (others : ∀ j, j ≠ i → (slots state.live j).Perm (slots live j)) (same : (directs state.live).Perm (directs live)) :
    Allotted (Function.update free i listed)
      { state with memoryPool := Function.update state.memoryPool i pool, live := live } where
  laid j := by
    by_cases here : j = i
    · subst here
      simp only [Function.update_self]
      exact laid
    · simp only [Function.update_of_ne here]
      exact (allotted.laid j).perm ((others j here).append_right _)
  chained j := by
    by_cases here : j = i
    · subst here
      simp only [Function.update_self]
      exact chained
    · simp only [Function.update_of_ne here]
      exact allotted.chained j
  blocks := allotted.blocks
  direct allocation member := allotted.direct allocation (same.mem_iff.mpr member)
  apart := (same.pairwise_iff fun apart => apart.symm).mp allotted.apart

theorem hand (allotted : Allotted free state) (request : Request) {pool : MemoryPool} {pointer : UInt64}
    {listed : List UInt64}
    (laid : MemoryPool.Laid (slotSize request.pool).toNat pool (state.blocks request.pool)
      (pointer :: (slots state.live request.pool ++ listed)))
    (chained : Chain state.memory MemoryPool.nullptr pool.freeList_ listed) :
    Allotted (Function.update free request.pool listed)
      { state with
        memoryPool := Function.update state.memoryPool request.pool pool
        live := ⟨pointer, request.size⟩ :: state.live } := by
  refine allotted.change request.pool ?_ chained ?_ ?_
  · rw [slots_cons_self request.served]
    exact laid
  · intro j different
    rw [slots_cons_other]
    rw [request.served]
    exact fun same => different (Option.some.inj same).symm
  · rw [directs_cons_other]
    simp [request.served]

theorem popFreeList (allotted : Allotted free state) (request : Request)
    (some : (state.memoryPool request.pool).freeList_ ≠ MemoryPool.nullptr) :
    ∃ listed, free request.pool = (state.memoryPool request.pool).freeList_ :: listed ∧
      Allotted (Function.update free request.pool listed)
        { state with
          memoryPool := Function.update state.memoryPool request.pool ((state.memoryPool request.pool).popFreeList state.memory).2
          live := ⟨(state.memoryPool request.pool).freeList_, request.size⟩ :: state.live } := by
  obtain ⟨rest, whole, chained⟩ := (allotted.chained request.pool).uncons some
  refine ⟨rest, whole, allotted.hand request ?_ chained⟩
  have laid := allotted.laid request.pool
  rw [whole] at laid
  exact (laid.perm List.perm_middle).setFreeList _

theorem bump (allotted : Allotted free state) (request : Request)
    (room : (state.memoryPool request.pool).exhausted = false) :
    Allotted (Function.update free request.pool (free request.pool))
      { state with
        memoryPool := Function.update state.memoryPool request.pool (state.memoryPool request.pool).takeSlot.2
        live := ⟨(state.memoryPool request.pool).curSlot_, request.size⟩ :: state.live } :=
  allotted.hand request ((allotted.laid request.pool).take (slotSize_width _) room) (allotted.chained request.pool)

/-- A new block costs the pool its free list. -/
theorem grow (allotted : Allotted free state) {newBlock : UInt64} (fresh : state.Fresh newBlock 4096)
    (i : Fin MEMORY_POOL_NUM) : Allotted (Function.update free i []) (state.grow i newBlock) where
  laid j := by
    by_cases here : j = i
    · subst here
      simp only [HashBucket.grow, MemoryPool.allocateNewBlock, Function.update_self]
      have linked := (allotted.laid j).link (slotSize_width j) fresh.aligned fresh.bounded (fresh.blocks j)
      exact (linked.setFreeList _).sublist ((List.nil_sublist _).append_left _)
    · simp only [HashBucket.grow, Function.update_of_ne here]
      exact allotted.laid j
  chained j := by
    by_cases here : j = i
    · subst here
      simp only [HashBucket.grow, Function.update_self]
      rfl
    · simp only [HashBucket.grow, Function.update_of_ne here]
      have absent := (allotted.laid j).not_held (slotSize_width j) (fresh.blocks j)
      exact (allotted.chained j).update (fun listed => absent (List.mem_append_right _ listed)) _
  blocks j k different block member other among := by
    rcases mem_grow_blocks.mp member with ⟨rfl, rfl⟩ | old
    · rcases mem_grow_blocks.mp among with ⟨same, _⟩ | known
      · exact absurd same.symm different
      · exact (fresh.blocks k other known).symm
    · rcases mem_grow_blocks.mp among with ⟨rfl, rfl⟩ | known
      · exact fresh.blocks j block old
      · exact allotted.blocks j k different block old other known
  direct allocation member := by
    obtain ⟨aligned, apart⟩ := allotted.direct allocation member
    refine ⟨aligned, fun j block among => ?_⟩
    rcases mem_grow_blocks.mp among with ⟨_, rfl⟩ | old
    · obtain ⟨live, large⟩ := mem_directs.mp member
      exact (fresh.direct allocation live large).symm
    · exact apart j block old
  apart := allotted.apart

theorem grow_room (allotted : Allotted free state) {newBlock : UInt64} (fresh : state.Fresh newBlock 4096)
    (i : Fin MEMORY_POOL_NUM) : ((state.grow i newBlock).memoryPool i).exhausted = false := by
  have linked := MemoryPool.linkBlock_spec (slotSize_width i) (allotted.laid i).sized fresh.aligned fresh.bounded
  simp only [HashBucket.grow, Function.update_self]
  exact linked.2

theorem newDirect (allotted : Allotted free state) {pointer size : UInt64} (large : poolOf size = none)
    (fresh : state.Fresh pointer size.toNat) : Allotted free (state.newDirect pointer size) where
  laid i := by
    rw [slots_cons_other (by simp [large])]
    exact allotted.laid i
  chained := allotted.chained
  blocks := allotted.blocks
  direct := by
    rw [directs_cons_self large]
    rintro allocation (_ | ⟨_, old⟩)
    · exact ⟨fresh.aligned, fresh.blocks⟩
    · exact allotted.direct allocation old
  apart := by
    rw [directs_cons_self large]
    refine .cons (fun allocation old => ?_) allotted.apart
    obtain ⟨live, other⟩ := mem_directs.mp old
    exact (fresh.direct allocation live other).symm

theorem not_listed (allotted : Allotted free state) {allocation : Allocation} (member : allocation ∈ state.live)
    {address : UInt64} (inside : address.toNat ∈ allocation.footprint) (i : Fin MEMORY_POOL_NUM) : address ∉ free i :=
  fun listed => allotted.free_apart member listed _ inside (MemoryPool.Laid.start_mem (slotSize_width i) address)

theorem pushFreeList (allotted : Allotted free state) {ptr size : UInt64} (member : ⟨ptr, size⟩ ∈ state.live)
    {i : Fin MEMORY_POOL_NUM} (served : poolOf size = some i) :
    Allotted (Function.update free i (ptr :: free i)) (state.pushFreeList i ptr size) := by
  have slot := mem_slots member served
  have start : ptr.toNat ∈ (⟨ptr, size⟩ : Allocation).footprint := by
    rw [Allocation.footprint_pooled served]
    exact MemoryPool.Laid.start_mem (slotSize_width i) ptr
  have erased := List.perm_cons_erase member
  have written := allotted.write (allotted.not_listed member start) (state.memoryPool i).freeList_
  refine written.change i ?_ ?_ ?_ ?_
  · have same : (slots state.live i ++ free i).Perm (slots (state.live.erase ⟨ptr, size⟩) i ++ ptr :: free i) := by
      apply ((slots_perm erased i).append_right _).trans
      rw [slots_cons_self served]
      exact List.perm_middle.symm
    exact ((allotted.laid i).perm same).setFreeList _
  · have absent := allotted.not_listed member start i
    exact (allotted.chained i).push absent ((allotted.laid i).ne_null (List.mem_append_left _ slot))
  · intro j different
    refine (slots_perm erased j).trans (.of_eq (slots_cons_other ?_))
    rw [served]
    exact fun same => different (Option.some.inj same).symm
  · exact (directs_perm erased).trans (.of_eq (directs_cons_other (by simp [served])))

theorem deleteDirect (allotted : Allotted free state) {ptr size : UInt64} (member : ⟨ptr, size⟩ ∈ state.live)
    (large : poolOf size = none) : Allotted free (state.deleteDirect ptr size) where
  laid i := by
    have same := slots_perm (List.perm_cons_erase member) i
    rw [slots_cons_other (by simp [large])] at same
    exact (allotted.laid i).perm (same.append_right _)
  chained := allotted.chained
  blocks := allotted.blocks
  direct allocation old := allotted.direct allocation ((List.erase_sublist.filter _).subset old)
  apart := allotted.apart.sublist (List.erase_sublist.filter _)

theorem step [DecidableEq θ] (allotted : Allotted free state) {event : PoolEvent θ} {next : HashBucket θ}
    (stepped : machine.step event state = some next) : ∃ free, Allotted free next := by
  cases step_cases stepped with
  | asksNothing | freesNothing => exact ⟨free, allotted⟩
  | news thread size newBlock _ _ large fresh => exact ⟨free, allotted.newDirect large fresh⟩
  | sees | misses | comesLate => exact ⟨free, allotted.calls _⟩
  | pops thread request _ listed =>
    obtain ⟨rest, _, popped⟩ := allotted.popFreeList request listed
    exact ⟨_, popped.calls _⟩
  | grows thread request newBlock _ _ fresh =>
    have grown := allotted.grow fresh request.pool
    exact ⟨_, (grown.bump request (allotted.grow_room fresh request.pool)).calls _⟩
  | bumps thread request newBlock _ room => exact ⟨_, (allotted.bump request room).calls _⟩
  | deletes ptr size _ member large => exact ⟨free, allotted.deleteDirect member large⟩
  | pushes ptr size pool _ member served => exact ⟨_, allotted.pushFreeList member served⟩
  | stores address value allocation _ member inside =>
    exact ⟨free, allotted.write (allotted.not_listed member (allocation.region_within _ inside)) value⟩

end Allotted

section Run
variable [DecidableEq θ]

private theorem reached_allotted {memory : Memory} {events : List (PoolEvent θ)} {final : HashBucket θ}
    (reached : machine.run events (initMemoryPool memory) = some final) : ∃ free, Allotted free final := by
  have preserved : ∀ event (before after : HashBucket θ), (∃ free, Allotted free before) →
      machine.step event before = some after → ∃ free, Allotted free after := by
    intro event before after ⟨free, allotted⟩ stepped
    exact allotted.step stepped
  exact Machine.run_preserves preserved reached ⟨_, init_allotted memory⟩

theorem useMemory_enters (state : HashBucket θ) (thread : θ) (newBlock : UInt64) (request : Request) :
    state.useMemory thread request.size newBlock =
      if (state.memoryPool request.pool).freeList_ ≠ MemoryPool.nullptr then some (state.setCall thread (.popping request))
      else some (state.setCall thread (.bumping request)) := by
  obtain ⟨size, pool, served⟩ := request
  unfold useMemory
  split
  next none =>
    subst none
    cases served
  next =>
    split
    next large =>
      rw [large] at served
      cases served
    next other same =>
      obtain rfl := Option.some.inj (same.symm.trans served)
      rfl

private theorem takeSlot_returns (state : HashBucket θ) (thread : θ) (request : Request) {newBlock : UInt64}
    (fresh : state.Fresh newBlock 4096) :
    ∃ next pointer, state.takeSlot thread request newBlock = some next ∧
      next.live = ⟨pointer, request.size⟩ :: state.live := by
  unfold takeSlot
  split
  · exact ⟨_, _, rfl, rfl⟩
  · exact ⟨_, _, rfl, rfl⟩

/-- A thread that waits for no mutex is given memory. -/
private theorem useMemory_returns (state : HashBucket θ) (thread : θ) (newBlock : UInt64) (request : Request)
    (idle : state.calls thread = .idle) (fresh : state.Fresh newBlock 4096) :
    ∃ events next pointer, machine.run events state = some next ∧ next.live = ⟨pointer, request.size⟩ :: state.live := by
  have entered : machine.step (.useMemory thread request.size newBlock) state =
      state.useMemory thread request.size newBlock := by
    simp only [machine, step, idle]
  rw [useMemory_enters] at entered
  by_cases some : (state.memoryPool request.pool).freeList_ ≠ MemoryPool.nullptr
  · rw [if_pos some] at entered
    have popped : machine.step (.popSlot thread) (state.setCall thread (.popping request)) =
        Option.some ((state.setCall thread (.popping request)).popSlot thread request) := by
      simp only [machine, step, setCall, Function.update_self]
    refine ⟨[.useMemory thread request.size newBlock, .popSlot thread], _, (state.memoryPool request.pool).freeList_,
      (Machine.run_cons _ _ _ _ _).mpr ⟨_, entered, (Machine.run_cons _ _ _ _ _).mpr ⟨_, popped, rfl⟩⟩, ?_⟩
    exact congrArg HashBucket.live (if_pos some)
  · rw [if_neg some] at entered
    have still : (state.setCall thread (.bumping request)).Fresh newBlock 4096 :=
      ⟨fresh.aligned, fresh.positive, fresh.bounded, fresh.blocks, fresh.direct⟩
    obtain ⟨next, pointer, taken, live⟩ := takeSlot_returns _ thread request still
    have stepped : machine.step (.takeSlot thread newBlock) (state.setCall thread (.bumping request)) = Option.some next := by
      simp only [machine, step, setCall, Function.update_self]
      exact taken
    exact ⟨[.useMemory thread request.size newBlock, .takeSlot thread newBlock], next, pointer,
      (Machine.run_cons _ _ _ _ _).mpr ⟨_, entered, (Machine.run_cons _ _ _ _ _).mpr ⟨_, stepped, rfl⟩⟩, live⟩

/-- In every state that is reached what is live keeps to itself, and a thread that asks
a pool for memory is given some. -/
theorem allocations_separate (memory : Memory) (events : List (PoolEvent θ)) (final : HashBucket θ)
    (reached : machine.run events (initMemoryPool memory) = some final) :
    Separate final ∧ ∀ thread size newBlock, final.calls thread = .idle → 0 < size → size ≤ MAX_SLOT_SIZE →
      final.Fresh newBlock 4096 →
      ∃ later next pointer, machine.run later final = some next ∧ next.live = ⟨pointer, size⟩ :: final.live := by
  obtain ⟨free, allotted⟩ := reached_allotted reached
  refine ⟨allotted.separate, ?_⟩
  intro thread size newBlock idle positive small fresh
  exact useMemory_returns final thread newBlock ⟨size, _, dif_pos ⟨positive, small⟩⟩ idle fresh

/-- One slot is used twice, the second comes from the block, and a third allocation is too large for a pool. -/
theorem allocations_separate_reused : ∃ final : HashBucket Nat,
    machine.run [.useMemory 0 24 0, .takeSlot 0 4096, .useMemory 1 20 0, .takeSlot 1 0, .freeMemory 4120 24,
      .useMemory 1 17 0, .popSlot 1, .store 4120 7, .useMemory 0 1000 8192] (initMemoryPool fun _ => 0) = some final ∧
    final.live = [⟨8192, 1000⟩, ⟨4120, 17⟩, ⟨4144, 20⟩] ∧ Separate final := by
  have computed : (machine.run [.useMemory 0 24 0, .takeSlot 0 4096, .useMemory 1 20 0, .takeSlot 1 0,
      .freeMemory 4120 24, .useMemory 1 17 0, .popSlot 1, .store 4120 7, .useMemory 0 1000 8192]
      (initMemoryPool fun _ => 0 : HashBucket Nat)).map live = some [⟨8192, 1000⟩, ⟨4120, 17⟩, ⟨4144, 20⟩] := by
    decide +kernel
  obtain ⟨final, reached, live⟩ := Option.map_eq_some_iff.mp computed
  exact ⟨final, reached, live, (allocations_separate _ _ final reached).1⟩

end Run
end HashBucket
end Webserver
