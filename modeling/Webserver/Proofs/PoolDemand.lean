import Webserver.Proofs.PoolAllocations

/-! The memory that the pools take. Whatever the order of the steps of all threads, a pool
gets no more blocks than it takes to hold the most slots that clients ever had at one time,
as long as no new block finds slots on the free list that it clears. -/

namespace Webserver
open Library

universe u

namespace MemoryPool

def left (width : Nat) (pool : MemoryPool) : Nat := (pool.lastSlot_.toNat - pool.curSlot_.toNat + (width - 1)) / width

/-- What a block has room for behind its link and the longest padding. -/
def leastSlots (width : Nat) : Nat := (4096 - width) / width

variable {width : Nat} {pool : MemoryPool}

theorem left_exhausted (range : Width width) (empty : pool.exhausted = true) : pool.left width = 0 := by
  have positive := range.positive
  rw [left, Nat.sub_eq_zero_of_le (exhausted_iff.mp empty), Nat.zero_add]
  exact Nat.div_eq_of_lt (Nat.sub_lt positive Nat.zero_lt_one)

theorem left_take (range : Width width) (sized : Sized width pool) {block : UInt64} (current : Current width pool block)
    (bounded : block.toNat + 4096 < UInt64.size) (room : pool.exhausted = false) :
    pool.left width = pool.takeSlot.2.left width + 1 := by
  have positive := range.positive
  have before := not_exhausted_iff.mp room
  have last : pool.takeSlot.2.lastSlot_ = pool.lastSlot_ := rfl
  rw [left, left, last, takeSlot_curSlot_ range sized current bounded room]
  rw [← Nat.add_div_right _ positive]
  by_cases final : pool.lastSlot_.toNat ≤ pool.curSlot_.toNat + width
  · rw [Nat.sub_eq_zero_of_le final]
    rw [Nat.div_eq_of_lt_le (k := 1) (by omega) (by omega), Nat.div_eq_of_lt_le (k := 1) (by omega) (by omega)]
  · congr 1
    omega

private theorem left_link (range : Width width) (sized : Sized width pool) {newBlock : UInt64} (aligned : 8 ∣ newBlock.toNat)
    (bounded : newBlock.toNat + 4096 < UInt64.size) : leastSlots width ≤ (pool.linkBlock newBlock).left width := by
  have multiple := range.multiple
  have positive := range.positive
  have body : (newBlock + sizeofSlot).toNat = newBlock.toNat + 8 := by
    rw [UInt64.toNat_add]
    exact Nat.mod_eq_of_lt (Nat.lt_of_le_of_lt (Nat.add_le_add_left (by decide) _) bounded)
  rw [← sized.slot] at multiple positive
  obtain ⟨padded, short⟩ := padPointer_spec (body ▸ (Nat.dvd_add_left (by decide)).mpr aligned) multiple positive
  rw [sized.slot] at multiple short
  have small := range.small
  have current : (pool.linkBlock newBlock).curSlot_.toNat ≤ newBlock.toNat + width := by
    change (newBlock + sizeofSlot + padPointer (newBlock + sizeofSlot) pool.SlotSize_).toNat ≤ _
    rw [UInt64.toNat_add, body]
    apply Nat.le_trans (Nat.mod_le _ _)
    omega
  have mark := (linkBlock_spec range sized aligned bounded).1.mark
  apply Nat.div_le_div_right
  omega

end MemoryPool

namespace HashBucket
variable {θ : Type u} {state next : HashBucket θ} {i : Fin MEMORY_POOL_NUM} {peak : Nat}
  {free : Fin MEMORY_POOL_NUM → List UInt64}

/-- The slots that the pool has ever cut from its blocks: clients have them, or they are free. -/
def carved (free : Fin MEMORY_POOL_NUM → List UInt64) (state : HashBucket θ) (i : Fin MEMORY_POOL_NUM) : Nat :=
  (slots state.live i).length + (free i).length

/-- Every block but the current one is used up, and the pool got none that the `peak` of
the slots in use did not call for. -/
structure Modest (i : Fin MEMORY_POOL_NUM) (peak : Nat) (free : Fin MEMORY_POOL_NUM → List UInt64) (state : HashBucket θ) :
    Prop where
  allotted : Allotted free state
  backed : (state.blocks i).length * MemoryPool.leastSlots (slotSize i).toNat ≤
    carved free state i + (state.memoryPool i).left (slotSize i).toNat
  bound : state.blocks i = [] ∨ ((state.blocks i).length - 1) * MemoryPool.leastSlots (slotSize i).toNat < peak

def Call.bumps (i : Fin MEMORY_POOL_NUM) : Call → Bool
  | .bumping request => request.pool = i
  | .idle | .popping _ => false

/-- A step that gets the pool a block finds its free list empty. -/
def GrowsEmpty (i : Fin MEMORY_POOL_NUM) (event : PoolEvent θ) (state : HashBucket θ) : Prop :=
  match event with
  | .takeSlot thread _ => (state.calls thread).bumps i = true → (state.memoryPool i).exhausted = true →
      (state.memoryPool i).freeList_ = MemoryPool.nullptr
  | .useMemory _ _ _ | .popSlot _ | .freeMemory _ _ | .store _ _ => True

section Conditions
variable [DecidableEq θ]

instance (i : Fin MEMORY_POOL_NUM) (event : PoolEvent θ) (state : HashBucket θ) : Decidable (GrowsEmpty i event state) :=
  match event with
  | .takeSlot _ _ => inferInstanceAs (Decidable (_ → _ → _))
  | .useMemory _ _ _ | .popSlot _ | .freeMemory _ _ | .store _ _ => isTrue trivial

/-- The step leaves no more than `peak` slots of the pool in use. -/
def Within (i : Fin MEMORY_POOL_NUM) (peak : Nat) (event : PoolEvent θ) (state : HashBucket θ) : Prop :=
  ∀ next, machine.step event state = some next → (slots next.live i).length ≤ peak

instance (i : Fin MEMORY_POOL_NUM) (peak : Nat) (event : PoolEvent θ) (state : HashBucket θ) :
    Decidable (Within i peak event state) :=
  inferInstanceAs (Decidable (∀ next ∈ machine.step event state, (slots next.live i).length ≤ peak))

end Conditions

namespace Modest

theorem init (i : Fin MEMORY_POOL_NUM) (peak : Nat) (memory : Memory) :
    Modest i peak (fun _ => []) (initMemoryPool memory : HashBucket θ) :=
  ⟨init_allotted memory, by simp [initMemoryPool], .inl rfl⟩

theorem same (modest : Modest i peak free state) {after : Fin MEMORY_POOL_NUM → List UInt64} (allotted : Allotted after next)
    (blocks : next.blocks i = state.blocks i) (cut : carved after next i = carved free state i)
    (left : (next.memoryPool i).left (slotSize i).toNat = (state.memoryPool i).left (slotSize i).toNat) :
    Modest i peak after next := by
  refine ⟨allotted, ?_, ?_⟩
  · rw [blocks, cut, left]
    exact modest.backed
  · rw [blocks]
    exact modest.bound

theorem calls (modest : Modest i peak free state) (calls : θ → Call) : Modest i peak free { state with calls := calls } :=
  modest.same (modest.allotted.calls calls) rfl rfl rfl

section Hand
variable {request : Request} {pool : MemoryPool} {pointer : UInt64} {listed : List UInt64}

theorem elsewhere (modest : Modest i peak free state) (other : request.pool ≠ i)
    (allotted : Allotted (Function.update free request.pool listed)
      { state with
        memoryPool := Function.update state.memoryPool request.pool pool
        live := ⟨pointer, request.size⟩ :: state.live }) :
    Modest i peak (Function.update free request.pool listed)
      { state with
        memoryPool := Function.update state.memoryPool request.pool pool
        live := ⟨pointer, request.size⟩ :: state.live } := by
  apply modest.same allotted rfl
  · rw [carved, carved, Function.update_of_ne (Ne.symm other)]
    dsimp only
    rw [slots_cons_other]
    rw [request.served]
    exact fun same => other (Option.some.inj same)
  · dsimp only
    rw [Function.update_of_ne (Ne.symm other)]

theorem popFreeList (modest : Modest i peak free state) (request : Request)
    (some : (state.memoryPool request.pool).freeList_ ≠ MemoryPool.nullptr) :
    ∃ free, Modest i peak free
      { state with
        memoryPool := Function.update state.memoryPool request.pool ((state.memoryPool request.pool).popFreeList state.memory).2
        live := ⟨(state.memoryPool request.pool).freeList_, request.size⟩ :: state.live } := by
  obtain ⟨listed, whole, popped⟩ := modest.allotted.popFreeList request some
  by_cases here : request.pool = i
  · subst here
    refine ⟨_, modest.same popped rfl ?_ ?_⟩
    · rw [carved, carved, Function.update_self, whole]
      dsimp only
      rw [slots_cons_self request.served, List.length_cons, List.length_cons]
      omega
    · dsimp only
      rw [Function.update_self]
      rfl
  · exact ⟨_, modest.elsewhere here popped⟩

theorem bump (modest : Modest i peak free state) (request : Request)
    (room : (state.memoryPool request.pool).exhausted = false) :
    Modest i peak (Function.update free request.pool (free request.pool))
      { state with
        memoryPool := Function.update state.memoryPool request.pool (state.memoryPool request.pool).takeSlot.2
        live := ⟨(state.memoryPool request.pool).curSlot_, request.size⟩ :: state.live } := by
  have bumped := modest.allotted.bump request room
  by_cases here : request.pool = i
  · subst here
    have laid := modest.allotted.laid request.pool
    obtain ⟨block, member, current⟩ := laid.current room
    have taken := MemoryPool.left_take (slotSize_width _) laid.sized current (laid.bounded block member) room
    have backed := modest.backed
    refine ⟨bumped, ?_, modest.bound⟩
    rw [carved] at backed ⊢
    dsimp only
    rw [Function.update_self, Function.update_self, slots_cons_self request.served, List.length_cons]
    omega
  · exact modest.elsewhere here bumped

end Hand

/-- A pool that has handed out all its slots, with less than `peak` in use, gets a block. -/
theorem grow (modest : Modest i peak free state) {newBlock : UInt64} (fresh : state.Fresh newBlock 4096)
    (pool : Fin MEMORY_POOL_NUM) (calledFor : pool = i → (state.memoryPool i).exhausted = true ∧
      (state.memoryPool i).freeList_ = MemoryPool.nullptr ∧ (slots state.live i).length < peak) :
    Modest i peak (Function.update free pool []) (state.grow pool newBlock) := by
  have grown := modest.allotted.grow fresh pool
  by_cases here : pool = i
  · subst here
    obtain ⟨exhausted, empty, fewer⟩ := calledFor rfl
    have none : free pool = [] := (modest.allotted.chained pool).null_iff.mp empty
    have backed := modest.backed
    rw [carved, none, MemoryPool.left_exhausted (slotSize_width _) exhausted] at backed
    have fresh := MemoryPool.left_link (slotSize_width _) (modest.allotted.laid pool).sized fresh.aligned fresh.bounded
    have blocks : (state.grow pool newBlock).blocks pool = newBlock :: state.blocks pool := Function.update_self _ _ _
    refine ⟨grown, ?_, .inr ?_⟩
    · have left : ((state.grow pool newBlock).memoryPool pool).left (slotSize pool).toNat =
          ((state.memoryPool pool).linkBlock newBlock).left (slotSize pool).toNat := by
        simp only [HashBucket.grow, Function.update_self]
        rfl
      rw [blocks, left, carved, Function.update_self, List.length_cons, Nat.succ_mul]
      change _ ≤ (slots state.live pool).length + 0 + _
      rw [List.length_nil] at backed
      omega
    · rw [blocks, List.length_cons, Nat.add_sub_cancel]
      exact Nat.lt_of_le_of_lt backed fewer
  · apply modest.same grown
    · exact Function.update_of_ne (Ne.symm here) _ _
    · rw [carved, carved, Function.update_of_ne (Ne.symm here)]
      rfl
    · simp only [HashBucket.grow, Function.update_of_ne (Ne.symm here)]

theorem pushFreeList (modest : Modest i peak free state) {ptr size : UInt64} (member : ⟨ptr, size⟩ ∈ state.live)
    {pool : Fin MEMORY_POOL_NUM} (served : poolOf size = some pool) :
    Modest i peak (Function.update free pool (ptr :: free pool)) (state.pushFreeList pool ptr size) := by
  have pushed := modest.allotted.pushFreeList member served
  have fewer := (slots_perm (List.perm_cons_erase member) i).length_eq
  by_cases here : pool = i
  · subst here
    rw [slots_cons_self served, List.length_cons] at fewer
    apply modest.same pushed rfl
    · change (slots (state.live.erase ⟨ptr, size⟩) pool).length + (Function.update free pool _ pool).length = _
      rw [carved, fewer, Function.update_self, List.length_cons]
      omega
    · dsimp only
      rw [Function.update_self]
      rfl
  · rw [slots_cons_other (by simp [served, here])] at fewer
    apply modest.same pushed rfl
    · rw [carved, carved, fewer, Function.update_of_ne (Ne.symm here)]
    · dsimp only
      rw [Function.update_of_ne (Ne.symm here)]

theorem step [DecidableEq θ] (modest : Modest i peak free state) {event : PoolEvent θ} (grows : GrowsEmpty i event state)
    (within : Within i peak event state) (stepped : machine.step event state = some next) : ∃ free, Modest i peak free next := by
  have kept := within next stepped
  cases step_cases stepped with
  | asksNothing | freesNothing => exact ⟨free, modest⟩
  | news thread size newBlock _ _ large fresh =>
    refine ⟨free, modest.same (modest.allotted.newDirect large fresh) rfl ?_ rfl⟩
    rw [carved, carved, slots_cons_other (by simp [large])]
  | sees | misses | comesLate => exact ⟨free, modest.calls _⟩
  | pops thread request _ listed =>
    obtain ⟨_, popped⟩ := modest.popFreeList request listed
    exact ⟨_, popped.calls _⟩
  | grows thread request newBlock bumping exhausted fresh =>
    have calledFor : request.pool = i → (state.memoryPool i).exhausted = true ∧
        (state.memoryPool i).freeList_ = MemoryPool.nullptr ∧ (slots state.live i).length < peak := by
      rintro rfl
      simp only [GrowsEmpty, bumping] at grows
      refine ⟨exhausted, grows (decide_eq_true rfl) exhausted, ?_⟩
      change (slots (⟨_, request.size⟩ :: state.live) request.pool).length ≤ peak at kept
      rwa [slots_cons_self request.served] at kept
    have grown := modest.grow fresh request.pool calledFor
    exact ⟨_, (grown.bump request (modest.allotted.grow_room fresh request.pool)).calls _⟩
  | bumps thread request newBlock _ room => exact ⟨_, (modest.bump request room).calls _⟩
  | deletes ptr size _ member large =>
    have same := (slots_perm (List.perm_cons_erase member) i).length_eq
    rw [slots_cons_other (by simp [large])] at same
    refine ⟨free, modest.same (modest.allotted.deleteDirect member large) rfl ?_ rfl⟩
    rw [carved, carved, same]
  | pushes ptr size pool _ member served => exact ⟨_, modest.pushFreeList member served⟩
  | stores address value allocation _ member inside =>
    have outside := modest.allotted.not_listed member (allocation.region_within _ inside)
    exact ⟨free, modest.same (modest.allotted.write outside value) rfl rfl rfl⟩

end Modest

section Run
variable [DecidableEq θ]

/-- For every order of the steps of clients and threads: a pool of which clients never have
more than `peak` slots at once gets blocks for these, and none beyond, provided that it
does not clear a free list with slots on it. -/
theorem blocks_bounded (i : Fin MEMORY_POOL_NUM) (peak : Nat) (memory : Memory) (events : List (PoolEvent θ))
    (final : HashBucket θ) (reached : machine.run events (initMemoryPool memory) = some final)
    (within : machine.Along (Within i peak) events (initMemoryPool memory))
    (grows : machine.Along (GrowsEmpty i) events (initMemoryPool memory)) :
    final.blocks i = [] ∨ ((final.blocks i).length - 1) * MemoryPool.leastSlots (slotSize i).toNat < peak := by
  have preserved : ∀ event (before after : HashBucket θ), Within i peak event before ∧ GrowsEmpty i event before →
      (∃ free, Modest i peak free before) → machine.step event before = some after → ∃ free, Modest i peak free after := by
    intro event before after ⟨within, grows⟩ ⟨free, modest⟩ stepped
    exact modest.step grows within stepped
  obtain ⟨free, modest⟩ := Machine.run_invariant preserved reached (within.and grows) ⟨_, Modest.init i peak memory⟩
  exact modest.bound

/-- A block has seven slots of 512 bytes, and eight are in use. -/
theorem blocks_bounded_two : ∃ final : HashBucket Nat,
    machine.run [.useMemory 0 512 0, .takeSlot 0 4096, .useMemory 0 512 0, .takeSlot 0 0, .useMemory 0 512 0, .takeSlot 0 0,
      .useMemory 0 512 0, .takeSlot 0 0, .useMemory 0 512 0, .takeSlot 0 0, .useMemory 0 512 0, .takeSlot 0 0,
      .useMemory 0 512 0, .takeSlot 0 0, .useMemory 0 512 0, .takeSlot 0 8192] (initMemoryPool fun _ => 0) = some final ∧
    final.blocks 63 = [8192, 4096] ∧ (final.blocks 63 = [] ∨ ((final.blocks 63).length - 1) * 7 < 8) := by
  have computed : (machine.run [.useMemory 0 512 0, .takeSlot 0 4096, .useMemory 0 512 0, .takeSlot 0 0, .useMemory 0 512 0,
      .takeSlot 0 0, .useMemory 0 512 0, .takeSlot 0 0, .useMemory 0 512 0, .takeSlot 0 0, .useMemory 0 512 0, .takeSlot 0 0,
      .useMemory 0 512 0, .takeSlot 0 0, .useMemory 0 512 0, .takeSlot 0 8192]
      (initMemoryPool fun _ => 0 : HashBucket Nat)).map (fun final => final.blocks 63) = some [8192, 4096] := by
    decide +kernel
  obtain ⟨final, reached, blocks⟩ := Option.map_eq_some_iff.mp computed
  exact ⟨final, reached, blocks, blocks_bounded 63 8 _ _ final reached (by decide +kernel) (by decide +kernel)⟩

end Run
end HashBucket
end Webserver
