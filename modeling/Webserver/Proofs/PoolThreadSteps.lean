import Webserver.PoolThreads

/-! What one step of the threads of a pool does, said once: a constructor for each branch
that succeeds, with its guards. -/

namespace Webserver
open Library

universe u

namespace PoolThreads
open MemoryPool
variable {θ : Type u}

abbrev holding (state : PoolThreads θ) (thread : θ) (held : ListSection) : PoolThreads θ :=
  { state with mutexForFreeList_ := some (thread, held) }

abbrev released (state : PoolThreads θ) : PoolThreads θ := { state with mutexForFreeList_ := none }

abbrev setFreeList (state : PoolThreads θ) (head : UInt64) : PoolThreads θ :=
  { state with pool := { state.pool with freeList_ := head } }

abbrev write (state : PoolThreads θ) (address value : UInt64) : PoolThreads θ :=
  { state with memory := Function.update state.memory address value }

abbrev erase (state : PoolThreads θ) (ptr : UInt64) : PoolThreads θ := { state with live := state.live.erase ptr }

abbrev hand (state : PoolThreads θ) (slot : UInt64) : PoolThreads θ := { state with live := slot :: state.live }

section Step
variable [DecidableEq θ]

/-- `allocateNewBlock` up to the statement that clears the free list. -/
abbrev linkBlock (state : PoolThreads θ) (thread : θ) (newBlock : UInt64) : PoolThreads θ :=
  { state.place thread .locked with
    pool := state.pool.linkBlock newBlock
    memory := state.pool.storeLink newBlock state.memory
    mutexForBlock_ := some thread
    blocks := newBlock :: state.blocks }

/-- In `advance` there is one for each statement of the sections under `mutexForFreeList_`. -/
inductive Move (before : PoolThreads θ) : ThreadEvent θ → PoolThreads θ → Prop where
  | sees (thread : θ) (idle : before.positions thread = .idle) (listed : before.pool.freeList_ ≠ nullptr) :
      Move before (.allocate thread) (before.place thread .seen)
  | misses (thread : θ) (idle : before.positions thread = .idle) (empty : before.pool.freeList_ = nullptr) :
      Move before (.allocate thread) (before.place thread .wanting)
  | locks (thread : θ) (seen : before.positions thread = .seen) (unlocked : before.mutexForFreeList_ = none) :
      Move before (.lockFreeList thread) ((before.place thread .locked).holding thread .testing)
  | freesNothing (thread : θ) (idle : before.positions thread = .idle) : Move before (.deallocate thread nullptr) before
  | frees (thread : θ) (ptr : UInt64) (idle : before.positions thread = .idle) (some : ptr ≠ nullptr)
      (member : ptr ∈ before.live) (unlocked : before.mutexForFreeList_ = none) :
      Move before (.deallocate thread ptr) (((before.erase ptr).place thread .locked).holding thread (.linking ptr))
  | tests (thread : θ) (held : before.mutexForFreeList_ = some (thread, .testing)) (listed : before.pool.freeList_ ≠ nullptr) :
      Move before (.advance thread) (before.holding thread .taking)
  | comesLate (thread : θ) (held : before.mutexForFreeList_ = some (thread, .testing))
      (empty : before.pool.freeList_ = nullptr) : Move before (.advance thread) (before.place thread .wanting).released
  | takes (thread : θ) (held : before.mutexForFreeList_ = some (thread, .taking)) :
      Move before (.advance thread) (before.holding thread (.taken before.pool.freeList_))
  | crashes (thread : θ) (temp : UInt64) (held : before.mutexForFreeList_ = some (thread, .taken temp))
      (empty : before.pool.freeList_ = nullptr) : Move before (.advance thread) (before.place thread .crashed)
  | reads (thread : θ) (temp : UInt64) (held : before.mutexForFreeList_ = some (thread, .taken temp))
      (listed : before.pool.freeList_ ≠ nullptr) :
      Move before (.advance thread) (before.holding thread (.popping temp (before.memory before.pool.freeList_)))
  | pops (thread : θ) (temp next : UInt64) (held : before.mutexForFreeList_ = some (thread, .popping temp next)) :
      Move before (.advance thread) (((before.place thread .idle).setFreeList next).released.hand temp)
  | links (thread : θ) (ptr : UInt64) (held : before.mutexForFreeList_ = some (thread, .linking ptr)) :
      Move before (.advance thread) ((before.write ptr before.pool.freeList_).holding thread (.publishing ptr))
  | publishes (thread : θ) (ptr : UInt64) (held : before.mutexForFreeList_ = some (thread, .publishing ptr)) :
      Move before (.advance thread) ((before.place thread .idle).setFreeList ptr).released
  | grows (thread : θ) (newBlock : UInt64) (wanting : before.positions thread = .wanting)
      (unlocked : before.mutexForBlock_ = none) (exhausted : before.pool.exhausted = true) (fresh : before.Fresh newBlock) :
      Move before (.lockBlock thread newBlock) (before.linkBlock thread newBlock)
  | cuts (thread : θ) (newBlock : UInt64) (wanting : before.positions thread = .wanting)
      (unlocked : before.mutexForBlock_ = none) (room : before.pool.exhausted = false) :
      Move before (.lockBlock thread newBlock) (before.takeSlot thread)
  | clears (thread : θ) (held : before.mutexForBlock_ = some thread) : Move before (.clear thread) (before.clear thread)
  | stores (address value slot : UInt64) (aligned : 8 ∣ address.toNat) (member : slot ∈ before.live)
      (inside : address.toNat ∈ Region.mk slot.toNat before.pool.SlotSize_.toNat) :
      Move before (.store address value) (before.write address value)

private theorem lockFreeList_unlocked {thread : θ} {held : ListSection} {before after : PoolThreads θ}
    (stepped : before.lockFreeList thread held = some after) :
    before.mutexForFreeList_ = none ∧ after = (before.place thread .locked).holding thread held := by
  unfold lockFreeList at stepped
  split at stepped <;> cases stepped
  next unlocked => exact ⟨unlocked, rfl⟩

theorem advance_cases {thread : θ} {held : ListSection} {before : PoolThreads θ}
    (holds : before.mutexForFreeList_ = some (thread, held)) : Move before (.advance thread) (before.advance thread held) := by
  cases held with
  | testing =>
    unfold advance
    dsimp only
    split
    next listed => exact .tests thread holds listed
    next empty => exact .comesLate thread holds (not_not.mp empty)
  | taking => exact .takes thread holds
  | taken temp =>
    unfold advance
    dsimp only
    split
    next empty => exact .crashes thread temp holds empty
    next listed => exact .reads thread temp holds listed
  | popping temp next => exact .pops thread temp next holds
  | linking ptr => exact .links thread ptr holds
  | publishing ptr => exact .publishes thread ptr holds

theorem step_cases {event : ThreadEvent θ} {before after : PoolThreads θ} (stepped : machine.step event before = some after) :
    Move before event after := by
  cases event with
  | allocate thread =>
    obtain ⟨idle, stepped⟩ := Option.ite_none_right_eq_some.mp stepped
    cases stepped
    unfold allocate
    split
    next listed => exact .sees thread idle listed
    next empty => exact .misses thread idle (not_not.mp empty)
  | lockFreeList thread =>
    obtain ⟨seen, stepped⟩ := Option.ite_none_right_eq_some.mp stepped
    obtain ⟨unlocked, rfl⟩ := lockFreeList_unlocked stepped
    exact .locks thread seen unlocked
  | deallocate thread ptr =>
    obtain ⟨idle, stepped⟩ := Option.ite_none_right_eq_some.mp stepped
    unfold deallocate at stepped
    split at stepped
    next null =>
      cases stepped
      subst null
      exact .freesNothing thread idle
    next some =>
      obtain ⟨member, stepped⟩ := Option.ite_none_right_eq_some.mp stepped
      obtain ⟨unlocked, rfl⟩ := lockFreeList_unlocked stepped
      exact .frees thread ptr idle some member unlocked
  | advance thread =>
    simp only [machine, step] at stepped
    split at stepped
    next holder held holds =>
      obtain ⟨⟨rfl, _⟩, stepped⟩ := Option.ite_none_right_eq_some.mp stepped
      cases stepped
      exact advance_cases holds
    next => cases stepped
  | lockBlock thread newBlock =>
    obtain ⟨wanting, stepped⟩ := Option.ite_none_right_eq_some.mp stepped
    unfold lockBlock at stepped
    split at stepped
    next => cases stepped
    next unlocked =>
      split at stepped
      next exhausted =>
        obtain ⟨fresh, stepped⟩ := Option.ite_none_right_eq_some.mp stepped
        cases stepped
        exact .grows thread newBlock wanting unlocked exhausted fresh
      next room =>
        cases stepped
        exact .cuts thread newBlock wanting unlocked (eq_false_of_ne_true room)
  | clear thread =>
    obtain ⟨held, stepped⟩ := Option.ite_none_right_eq_some.mp stepped
    cases stepped
    exact .clears thread held
  | store address value =>
    obtain ⟨⟨aligned, slot, member, inside⟩, stepped⟩ := Option.ite_none_right_eq_some.mp stepped
    cases stepped
    exact .stores address value slot aligned member inside

end Step
end PoolThreads
end Webserver
