import Webserver.Proofs.PoolDemand

/-! What the pools lose. A thread that waits for the current block gets a new one even when
slots have been freed meanwhile, and with it the pool forgets these. So no bound on the slots
in use bounds the blocks. -/

namespace Webserver
open Library

universe u

namespace MemoryPool

/-- What a block has room for behind its link. -/
def mostSlots (width : Nat) : Nat := 4088 / width

private theorem left_link_le {width : Nat} {pool : MemoryPool} (range : Width width) (sized : Sized width pool)
    {newBlock : UInt64} (aligned : 8 ∣ newBlock.toNat) (bounded : newBlock.toNat + 4096 < UInt64.size) :
    (pool.linkBlock newBlock).left width ≤ mostSlots width := by
  have current := (linkBlock_spec range sized aligned bounded).1
  have header := current.header
  have mark := current.mark
  have positive := range.positive
  have small := range.small
  apply Nat.div_le_div_right
  omega

end MemoryPool

namespace HashBucket
variable {θ : Type u} {thread : θ} {request : Request} {state next : HashBucket θ}

/-- Clients do not get more slots of the pool than one block has room for. -/
abbrev OneBlock [DecidableEq θ] (i : Fin MEMORY_POOL_NUM) (event : PoolEvent θ) (state : HashBucket θ) : Prop :=
  Within i (MemoryPool.mostSlots (slotSize i).toNat) event state

private theorem leads_step [DecidableEq θ] {i : Fin MEMORY_POOL_NUM} {event : PoolEvent θ}
    (few : next.live.length ≤ MemoryPool.mostSlots (slotSize i).toNat)
    (stepped : machine.step event state = some next) : machine.Leads (OneBlock i) state next := by
  refine (machine.leads_refl _ next).head ((Machine.forall_next stepped).mpr ?_) stepped
  rw [slots, List.length_map]
  exact Nat.le_trans (List.length_filter_le _ _) few

/-- The thread is in no call, no slot is free, and what is live and what can still be cut are
together one block's worth of slots. -/
structure Quiet (thread : θ) (request : Request) (state : HashBucket θ) : Prop where
  idle : state.calls thread = .idle
  empty : (state.memoryPool request.pool).freeList_ = MemoryPool.nullptr
  sized : ∀ allocation ∈ state.live, allocation.size = request.size
  few : state.live.length + (state.memoryPool request.pool).left (slotSize request.pool).toNat ≤
    MemoryPool.mostSlots (slotSize request.pool).toNat
  allotted : ∃ free, Allotted free state

namespace Quiet

theorem init (thread : θ) (request : Request) (memory : Memory) : Quiet thread request (initMemoryPool memory) where
  idle := rfl
  empty := rfl
  sized allocation member := by cases member
  few := by
    rw [MemoryPool.left_exhausted (slotSize_width _) rfl]
    exact Nat.zero_le _
  allotted := ⟨_, init_allotted memory⟩

variable [DecidableEq θ]

theorem useMemory (quiet : Quiet thread request state) :
    machine.Leads (OneBlock request.pool) state (state.setCall thread (.bumping request)) := by
  have stepped : machine.step (.useMemory thread request.size 0) state = some (state.setCall thread (.bumping request)) := by
    simp only [machine, step, quiet.idle]
    rw [useMemory_enters, if_neg (not_not.mpr quiet.empty)]
  exact leads_step (Nat.le_trans (Nat.le_add_right _ _) quiet.few) stepped

theorem takes (quiet : Quiet thread request state) (room : (state.memoryPool request.pool).exhausted = false) :
    ∃ next, machine.Leads (OneBlock request.pool) state next ∧ Quiet thread request next ∧ next.blocks = state.blocks ∧
      (state.memoryPool request.pool).left (slotSize request.pool).toNat =
        (next.memoryPool request.pool).left (slotSize request.pool).toNat + 1 := by
  obtain ⟨free, allotted⟩ := quiet.allotted
  have laid := allotted.laid request.pool
  obtain ⟨block, member, current⟩ := laid.current room
  have taken := MemoryPool.left_take (slotSize_width _) laid.sized current (laid.bounded block member) room
  have few := quiet.few
  rw [taken] at few
  have after : ((state.bump thread request).memoryPool request.pool) = (state.memoryPool request.pool).takeSlot.2 :=
    Function.update_self _ _ _
  refine ⟨state.bump thread request, ?_, ⟨?_, ?_, ?_, ?_, ?_⟩, rfl, ?_⟩
  · have again : (state.setCall thread (.bumping request)).bump thread request = state.bump thread request := by
      simp only [HashBucket.bump, setCall, Function.update_idem]
    have stepped : machine.step (.takeSlot thread 0) (state.setCall thread (.bumping request)) =
        some (state.bump thread request) := by
      simp only [machine, step, setCall, Function.update_self, HashBucket.takeSlot, room]
      exact congrArg some again
    apply quiet.useMemory.trans (leads_step ?_ stepped)
    change state.live.length + 1 ≤ _
    omega
  · exact Function.update_self _ _ _
  · rw [after]
    exact quiet.empty
  · rintro allocation (_ | ⟨_, old⟩)
    · rfl
    · exact quiet.sized allocation old
  · rw [after]
    change state.live.length + 1 + _ ≤ _
    omega
  · exact ⟨_, (allotted.bump request room).calls _⟩
  · rw [after]
    exact taken

theorem drains (quiet : Quiet thread request state) :
    ∃ next, machine.Leads (OneBlock request.pool) state next ∧ Quiet thread request next ∧ next.blocks = state.blocks ∧
      (next.memoryPool request.pool).exhausted = true := by
  induction cut : (state.memoryPool request.pool).left (slotSize request.pool).toNat generalizing state with
  | zero =>
    have exhausted : (state.memoryPool request.pool).exhausted = true := by
      by_contra room
      obtain ⟨_, _, _, _, fewer⟩ := quiet.takes (eq_false_of_ne_true room)
      omega
    exact ⟨state, machine.leads_refl _ _, quiet, rfl, exhausted⟩
  | succ left ih =>
    cases room : (state.memoryPool request.pool).exhausted with
    | true => exact ⟨state, machine.leads_refl _ _, quiet, rfl, room⟩
    | false =>
      obtain ⟨next, first, still, kept, fewer⟩ := quiet.takes room
      obtain ⟨final, rest, done, blocks, exhausted⟩ := ih still (by omega)
      exact ⟨final, first.trans rest, done, blocks.trans kept, exhausted⟩

end Quiet

variable [DecidableEq θ]

private theorem frees (request : Request) (state : HashBucket θ) (allotted : ∃ free, Allotted free state)
    (sized : ∀ allocation ∈ state.live, allocation.size = request.size)
    (few : state.live.length ≤ MemoryPool.mostSlots (slotSize request.pool).toNat) :
    ∃ next, machine.Leads (OneBlock request.pool) state next ∧ (∃ free, Allotted free next) ∧ next.live = [] ∧
      next.calls = state.calls ∧ next.blocks = state.blocks ∧
      (next.memoryPool request.pool).exhausted = (state.memoryPool request.pool).exhausted := by
  induction listed : state.live generalizing state with
  | nil => exact ⟨state, machine.leads_refl _ _, allotted, listed, rfl, rfl, rfl⟩
  | cons allocation rest ih =>
    obtain ⟨ptr, size⟩ := allocation
    have member : ⟨ptr, size⟩ ∈ state.live := by simp [listed]
    obtain rfl : size = request.size := sized _ member
    obtain ⟨free, allotted⟩ := allotted
    have some : ptr ≠ MemoryPool.nullptr :=
      (allotted.laid request.pool).ne_null (List.mem_append_left _ (mem_slots member request.served))
    have pushed := allotted.pushFreeList member request.served
    have erased : (state.pushFreeList request.pool ptr request.size).live = rest := by
      change state.live.erase _ = _
      rw [listed, List.erase_cons_head]
    have stepped : machine.step (.freeMemory ptr request.size) state =
        Option.some (state.pushFreeList request.pool ptr request.size) := by
      simp only [machine, step, HashBucket.freeMemory]
      rw [if_neg some, if_pos member, request.served]
    rw [listed, List.length_cons] at few
    have fewer := Nat.le_of_succ_le few
    rw [← erased] at fewer
    obtain ⟨next, later, final, none, calls, blocks, exhausted⟩ := ih _ ⟨_, pushed⟩
      (fun allocation old => sized allocation (List.erase_subset old)) fewer erased
    refine ⟨next, (leads_step fewer stepped).trans later, final, none, calls, blocks, ?_⟩
    rw [exhausted]
    dsimp only
    rw [Function.update_self]
    rfl

/-- A new block serves the thread, with nothing else in use. -/
theorem Quiet.grow {free : Fin MEMORY_POOL_NUM → List UInt64} (thread : θ) (request : Request) (allotted : Allotted free state)
    (none : state.live = []) {newBlock : UInt64} (fresh : state.Fresh newBlock 4096) :
    Quiet thread request ((state.grow request.pool newBlock).bump thread request) := by
  have grown := allotted.grow fresh request.pool
  have room := allotted.grow_room fresh request.pool
  have linked : (state.grow request.pool newBlock).memoryPool request.pool =
      ((state.memoryPool request.pool).linkBlock newBlock).clearFreeList := Function.update_self _ _ _
  have taken : ((state.grow request.pool newBlock).bump thread request).memoryPool request.pool =
      ((state.grow request.pool newBlock).memoryPool request.pool).takeSlot.2 := Function.update_self _ _ _
  have live : ∃ pointer, ((state.grow request.pool newBlock).bump thread request).live = [⟨pointer, request.size⟩] :=
    ⟨_, congrArg _ none⟩
  obtain ⟨pointer, live⟩ := live
  refine ⟨Function.update_self _ _ _, ?_, ?_, ?_, _, (grown.bump request room).calls _⟩
  · rw [taken, linked]
    rfl
  · simp [live]
  · have laid := grown.laid request.pool
    obtain ⟨block, member, current⟩ := laid.current room
    have before := MemoryPool.left_take (slotSize_width _) laid.sized current (laid.bounded block member) room
    have most := MemoryPool.left_link_le (slotSize_width _) (allotted.laid request.pool).sized fresh.aligned fresh.bounded
    change ((state.memoryPool request.pool).linkBlock newBlock).clearFreeList.left _ ≤ _ at most
    rw [← linked, before] at most
    rwa [live, taken, List.length_singleton, Nat.add_comm]

/-- The thread finds the block used up, all slots are freed before it gets a new block, and
the new block costs the pool all of them. -/
theorem Quiet.loses (quiet : Quiet thread request state) {newBlock : UInt64} (aligned : 8 ∣ newBlock.toNat)
    (positive : 0 < newBlock.toNat) (bounded : newBlock.toNat + 4096 < UInt64.size)
    (apart : ∀ i, ∀ block ∈ state.blocks i, (blockRegion block).Apart (blockRegion newBlock)) :
    ∃ next, machine.Leads (OneBlock request.pool) state next ∧ Quiet thread request next ∧
      next.blocks = Function.update state.blocks request.pool (newBlock :: state.blocks request.pool) := by
  obtain ⟨used, first, quiet, blocks, exhausted⟩ := quiet.drains
  obtain ⟨_, allotted⟩ := quiet.allotted
  obtain ⟨freed, second, ⟨free, allotted⟩, none, calls, kept, still⟩ :=
    frees request (used.setCall thread (.bumping request)) ⟨_, allotted.calls _⟩ quiet.sized
      (Nat.le_trans (Nat.le_add_right _ _) quiet.few)
  have same : freed.blocks = state.blocks := kept.trans blocks
  have fresh : freed.Fresh newBlock 4096 := by
    refine ⟨aligned, positive, bounded, ?_, ?_⟩
    · rw [same]
      exact apart
    · simp [none]
  have stepped : machine.step (.takeSlot thread newBlock) freed =
      some ((freed.grow request.pool newBlock).bump thread request) := by
    simp only [machine, step, calls, setCall, Function.update_self, HashBucket.takeSlot, still.trans exhausted, if_true,
      if_pos fresh]
  have last := Quiet.grow thread request allotted none fresh
  have final := leads_step (Nat.le_trans (Nat.le_add_right _ _) last.few) stepped
  refine ⟨_, first.trans (quiet.useMemory.trans (second.trans final)), last, ?_⟩
  rw [← same]
  rfl

theorem Quiet.reached (thread : θ) (request : Request) (memory : Memory) (n : Nat) (room : 4096 * (n + 1) < UInt64.size) :
    ∃ final, machine.Leads (OneBlock request.pool) (initMemoryPool memory) final ∧ Quiet thread request final ∧
      (∀ i, ∀ block ∈ final.blocks i, block.toNat + 4096 ≤ 4096 * (n + 1)) ∧ (final.blocks request.pool).length = n := by
  induction n with
  | zero =>
    refine ⟨_, machine.leads_refl _ _, .init thread request memory, ?_, rfl⟩
    intro i block member
    cases member
  | succ n ih =>
    have addressed : 4096 * (n + 1) + 4096 < UInt64.size := room
    obtain ⟨before, leads, quiet, below, count⟩ := ih (Nat.lt_of_le_of_lt (Nat.le_add_right _ _) addressed)
    have address : (UInt64.ofNat (4096 * (n + 1))).toNat = 4096 * (n + 1) :=
      UInt64.toNat_ofNat_of_lt (Nat.lt_of_le_of_lt (Nat.le_add_right _ _) addressed)
    have apart : ∀ i, ∀ block ∈ before.blocks i,
        (blockRegion block).Apart (blockRegion (UInt64.ofNat (4096 * (n + 1)))) := by
      intro i block member
      rw [Region.apart_iff, blockRegion, blockRegion, address]
      exact .inr (.inr (.inl (below i block member)))
    obtain ⟨next, more, still, blocks⟩ := quiet.loses (by rw [address]; omega) (by rw [address]; omega)
      (by rwa [address]) apart
    refine ⟨next, leads.trans more, still, ?_, ?_⟩
    · rw [blocks]
      intro i block member
      by_cases here : i = request.pool
      · subst here
        rw [Function.update_self] at member
        rcases List.mem_cons.mp member with rfl | old
        · rw [address]
          omega
        · exact Nat.le_trans (below _ block old) (by omega)
      · rw [Function.update_of_ne here] at member
        exact Nat.le_trans (below _ block member) (by omega)
    · rw [blocks, Function.update_self, List.length_cons, count]

/-- Clients never have more slots of a pool than one block has room for, and still there is a
run in which it gets as many blocks as there are addresses for. -/
theorem blocks_unbounded (thread : θ) (request : Request) (memory : Memory) (n : Nat)
    (room : 4096 * (n + 1) < UInt64.size) :
    ∃ (events : List (PoolEvent θ)) (final : HashBucket θ), machine.run events (initMemoryPool memory) = some final ∧
      machine.Along (OneBlock request.pool) events (initMemoryPool memory) ∧ (final.blocks request.pool).length = n := by
  obtain ⟨final, ⟨events, run, along⟩, _, _, count⟩ := Quiet.reached thread request memory n room
  exact ⟨events, final, run, along, count⟩

/-- Slots of 512 bytes. -/
theorem blocks_unbounded_thousand : ∃ (events : List (PoolEvent Nat)) (final : HashBucket Nat),
    machine.run events (initMemoryPool fun _ => 0) = some final ∧
    machine.Along (OneBlock 63) events (initMemoryPool fun _ => 0) ∧ (final.blocks 63).length = 1000 :=
  blocks_unbounded 0 ⟨512, 63, by decide⟩ _ 1000 (by decide)

end HashBucket
end Webserver
