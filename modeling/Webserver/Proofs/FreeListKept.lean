import Webserver.Proofs.PoolThreadSteps
import Webserver.Proofs.PoolLayout

/-! The free list keeps every freed slot, whatever the threads do, for as long as no new
block clears a list that is not empty. -/

namespace Webserver
open Library

universe u

namespace PoolThreads
open MemoryPool
variable {θ : Type u}

/-- The freed slots are on the list, no thread has followed a null pointer and none has been given one. -/
structure Kept (state : PoolThreads θ × List UInt64) : Prop where
  listed : ∀ slot ∈ state.2, Chained state.1.memory nullptr state.1.pool.freeList_ slot
  running : ∀ thread, state.1.positions thread ≠ .crashed
  returned : nullptr ∉ state.1.live

def hands : Option (θ × ListSection) → List UInt64
  | some (_, .linking ptr) => [ptr]
  | some (_, .publishing ptr) => [ptr]
  | _ => []

/-- What the holder of the mutex has read is still so. -/
def Current (memory : Memory) (head : UInt64) : Option (θ × ListSection) → Prop
  | some (_, .taking) => head ≠ nullptr
  | some (_, .taken temp) => temp = head ∧ head ≠ nullptr
  | some (_, .popping temp next) => temp = head ∧ head ≠ nullptr ∧ next = memory head
  | some (_, .publishing ptr) => memory ptr = head
  | _ => True

/-- The slots of the pool are live, on the free list or on their way to it. -/
structure Tended (width : Nat) (free : List UInt64) (state : PoolThreads θ) (freed : List UInt64) : Prop where
  laid : Laid width state.pool state.blocks (state.live ++ (hands state.mutexForFreeList_ ++ free))
  chained : Chain state.memory nullptr state.pool.freeList_ free
  freed : ∀ slot, slot ∈ freed ↔ slot ∈ free
  current : Current state.memory state.pool.freeList_ state.mutexForFreeList_
  room : state.mutexForBlock_.isSome → state.pool.exhausted = false
  running : ∀ thread, state.positions thread ≠ .crashed

theorem init_tended (size : UInt64) (memory : Memory) : Tended size.toNat [] (init size memory : PoolThreads θ) [] where
  laid := init_laid
  chained := rfl
  freed slot := Iff.rfl
  current := trivial
  room := by simp [init]
  running thread := by simp [init]

theorem Current.update {memory : Memory} {head : UInt64} {mutex : Option (θ × ListSection)} {free : List UInt64}
    (current : Current memory head mutex) (chained : Chain memory nullptr head free) {address : UInt64}
    (absent : address ∉ hands mutex ++ free) (value : UInt64) :
    Current (Function.update memory address value) head mutex := by
  rw [List.mem_append, not_or] at absent
  cases mutex with
  | none => trivial
  | some holder =>
    obtain ⟨thread, held⟩ := holder
    cases held with
    | testing => trivial
    | taking => exact current
    | taken temp => exact current
    | popping temp next =>
      obtain ⟨same, some, read⟩ := current
      obtain ⟨rest, rfl, _⟩ := chained.uncons some
      refine ⟨same, some, ?_⟩
      rwa [Function.update_of_ne]
      rintro rfl
      exact absent.2 List.mem_cons_self
    | linking ptr => trivial
    | publishing ptr =>
      change Function.update memory address value ptr = head
      rwa [Function.update_of_ne]
      rintro rfl
      exact absent.1 (List.mem_singleton_self _)

theorem clear_empty [DecidableEq θ] {state : PoolThreads θ} {thread : θ} (empty : state.pool.freeList_ = nullptr) :
    state.clear thread = state.takeSlot thread := by
  rw [clear, clearFreeList, ← empty]

theorem recordSection_popping {temp : UInt64} {rest : List UInt64} (absent : temp ∉ rest) (next : UInt64) :
    recordSection (.popping temp next) (temp :: rest) = rest := by
  rw [recordSection, List.filter_cons_of_neg (by simp), List.filter_eq_self]
  intro slot member
  exact decide_eq_true fun same => absent (same ▸ member)

theorem record_advance {state : PoolThreads θ} {thread : θ} {held : ListSection}
    (holds : state.mutexForFreeList_ = some (thread, held)) (freed : List UInt64) :
    record (.advance thread) state freed = recordSection held freed := by
  rw [record, holds]
  rfl

/-- The holder of the mutex has made a statement of its section. -/
private theorem Tended.recorded {width : Nat} {state next : PoolThreads θ} {thread : θ} {held : ListSection}
    {free freed : List UInt64} (holds : state.mutexForFreeList_ = some (thread, held))
    (tended : Tended width (recordSection held free) next (recordSection held freed)) :
    Tended width (record (.advance thread) state free) next (record (.advance thread) state freed) := by
  rw [record_advance holds, record_advance holds]
  exact tended

namespace Tended
variable {width : Nat} {free freed : List UInt64} {state : PoolThreads θ}

theorem kept (tended : Tended width free state freed) : Kept (state, freed) where
  listed slot member := (tended.chained.chained_iff slot).mpr ((tended.freed slot).mp member)
  running := tended.running
  returned member := tended.laid.ne_null (List.mem_append_left _ member) rfl

theorem nodup (tended : Tended width free state freed) (range : Width width) :
    (hands state.mutexForFreeList_ ++ free).Nodup :=
  (List.nodup_append.mp (tended.laid.nodup range)).2.1

/-- A word that is neither on the list nor on its way to it may change. -/
theorem write (tended : Tended width free state freed) {address : UInt64}
    (absent : address ∉ hands state.mutexForFreeList_ ++ free) (value : UInt64) :
    Tended width free (state.write address value) freed where
  laid := tended.laid
  chained := tended.chained.update (fun listed => absent (List.mem_append_right _ listed)) value
  freed := tended.freed
  current := tended.current.update tended.chained absent value
  room := tended.room
  running := tended.running

theorem hold (tended : Tended width free state freed) {mutex : Option (θ × ListSection)}
    (same : hands mutex = hands state.mutexForFreeList_) (current : Current state.memory state.pool.freeList_ mutex) :
    Tended width free { state with mutexForFreeList_ := mutex } freed where
  laid := by
    rw [same]
    exact tended.laid
  chained := tended.chained
  freed := tended.freed
  current := current
  room := tended.room
  running := tended.running

theorem store (tended : Tended width free state freed) (range : Width width) {address slot : UInt64} (member : slot ∈ state.live)
    (inside : address.toNat ∈ Region.mk slot.toNat state.pool.SlotSize_.toNat) (value : UInt64) :
    Tended width free (state.write address value) freed := by
  rw [tended.laid.sized.slot] at inside
  refine tended.write (fun listed => ?_) value
  have apart := (List.pairwise_append.mp tended.laid.apart).2.2 slot member address listed
  exact apart _ inside (Laid.start_mem range address)

theorem takes (tended : Tended width free state freed) {thread : θ}
    (held : state.mutexForFreeList_ = some (thread, .taking)) :
    Tended width free (state.holding thread (.taken state.pool.freeList_)) freed := by
  have current := tended.current
  rw [held] at current
  exact tended.hold (by rw [held]; rfl) ⟨rfl, current⟩

/-- The list cannot have become empty since it was tested. -/
theorem listed (tended : Tended width free state freed) {thread : θ} {temp : UInt64}
    (held : state.mutexForFreeList_ = some (thread, .taken temp)) :
    temp = state.pool.freeList_ ∧ state.pool.freeList_ ≠ nullptr := by
  have current := tended.current
  rwa [held] at current

/-- The slot that is handed out is the first one, and the rest stays. -/
theorem popped (tended : Tended width free state freed) (range : Width width) {thread : θ} {temp next : UInt64}
    (held : state.mutexForFreeList_ = some (thread, .popping temp next)) :
    temp = state.pool.freeList_ ∧ ∃ rest, free = temp :: rest ∧ temp ∉ rest ∧ Chain state.memory nullptr next rest := by
  have current := tended.current
  have nodup := tended.nodup range
  rw [held] at current nodup
  obtain ⟨rfl, some, rfl⟩ := current
  obtain ⟨rest, rfl, chained⟩ := tended.chained.uncons some
  exact ⟨rfl, rest, rfl, (List.nodup_cons.mp nodup).1, chained⟩

theorem links (tended : Tended width free state freed) (range : Width width) {thread : θ} {ptr : UInt64}
    (held : state.mutexForFreeList_ = some (thread, .linking ptr)) :
    Tended width free ((state.write ptr state.pool.freeList_).holding thread (.publishing ptr)) freed := by
  have laid := tended.laid
  have nodup := tended.nodup range
  rw [held] at laid nodup
  have absent : ptr ∉ free := (List.nodup_cons.mp nodup).1
  exact ⟨laid, tended.chained.update absent _, tended.freed, Function.update_self _ _ _, tended.room, tended.running⟩

section Step
variable [DecidableEq θ]

theorem place (tended : Tended width free state freed) (thread : θ) (position : Position)
    (running : position ≠ .crashed) : Tended width free (state.place thread position) freed where
  laid := tended.laid
  chained := tended.chained
  freed := tended.freed
  current := tended.current
  room := tended.room
  running other := by
    by_cases same : other = thread
    · subst same
      simp only [PoolThreads.place, Function.update_self]
      exact running
    · simp only [PoolThreads.place, Function.update_of_ne same]
      exact tended.running other

theorem locks (tended : Tended width free state freed) (thread : θ) (unlocked : state.mutexForFreeList_ = none) :
    Tended width free ((state.place thread .locked).holding thread .testing) freed := by
  refine (tended.place thread .locked (by decide)).hold ?_ trivial
  rw [PoolThreads.place, unlocked]
  rfl

theorem frees (tended : Tended width free state freed) (thread : θ) {ptr : UInt64} (member : ptr ∈ state.live)
    (unlocked : state.mutexForFreeList_ = none) :
    Tended width free (((state.erase ptr).place thread .locked).holding thread (.linking ptr)) freed := by
  have placed := tended.place thread .locked (by decide)
  refine ⟨?_, tended.chained, tended.freed, trivial, tended.room, placed.running⟩
  have laid := tended.laid
  rw [unlocked] at laid
  refine laid.perm (((List.perm_cons_erase member).append_right _).trans ?_)
  exact List.perm_middle.symm

theorem comesLate (tended : Tended width free state freed) {thread : θ}
    (held : state.mutexForFreeList_ = some (thread, .testing)) : Tended width free (state.place thread .wanting).released freed :=
  (tended.place thread .wanting (by decide)).hold (by rw [PoolThreads.place, held]; rfl) trivial

theorem pops (tended : Tended width free state freed) (range : Width width) {thread : θ} {temp next : UInt64}
    (held : state.mutexForFreeList_ = some (thread, .popping temp next)) :
    Tended width (recordSection (.popping temp next) free) (((state.place thread .idle).setFreeList next).released.hand temp)
      (recordSection (.popping temp next) freed) := by
  have laid := tended.laid
  obtain ⟨rfl, rest, rfl, absent, chained⟩ := tended.popped range held
  have placed := tended.place thread .idle (by decide)
  rw [held] at laid
  rw [recordSection_popping absent]
  refine ⟨(laid.perm List.perm_middle).setFreeList _, chained, ?_, trivial, tended.room, placed.running⟩
  intro slot
  rw [recordSection, List.mem_filter, tended.freed, List.mem_cons, decide_eq_true_iff]
  constructor
  · rintro ⟨same | member, other⟩
    · exact absurd same other
    · exact member
  · intro member
    exact ⟨.inr member, fun same => absent (same ▸ member)⟩

theorem publishes (tended : Tended width free state freed) {thread : θ} {ptr : UInt64}
    (held : state.mutexForFreeList_ = some (thread, .publishing ptr)) :
    Tended width (ptr :: free) ((state.place thread .idle).setFreeList ptr).released (ptr :: freed) := by
  have laid := tended.laid
  have current := tended.current
  rw [held] at laid current
  have placed := tended.place thread .idle (by decide)
  have some : ptr ≠ nullptr := laid.ne_null (List.mem_append_right _ List.mem_cons_self)
  have chained : Chain state.memory nullptr (state.memory ptr) free := by
    rw [current]
    exact tended.chained
  refine ⟨laid.setFreeList _, ⟨rfl, some, chained⟩, ?_, trivial, tended.room, placed.running⟩
  intro slot
  rw [List.mem_cons, List.mem_cons, tended.freed]

theorem grows (tended : Tended width free state freed) (range : Width width) (thread : θ) {newBlock : UInt64}
    (fresh : state.Fresh newBlock) : Tended width free (state.linkBlock thread newBlock) freed := by
  obtain ⟨aligned, _, bounded, apart⟩ := fresh
  have absent := tended.laid.not_held range apart
  have written := tended.write (fun member => absent (List.mem_append_right _ member)) state.pool.firstBlock_
  have linked := linkBlock_spec range tended.laid.sized aligned bounded
  exact ⟨tended.laid.link range aligned bounded apart, written.chained, written.freed, written.current, fun _ => linked.2,
    (written.place thread .locked (by decide)).running⟩

theorem takeSlot (tended : Tended width free state freed) (range : Width width) (thread : θ)
    (room : state.pool.exhausted = false) : Tended width free (state.takeSlot thread) freed where
  laid := tended.laid.take range room
  chained := tended.chained
  freed := tended.freed
  current := tended.current
  room := by simp [PoolThreads.takeSlot]
  running := (tended.place thread .idle (by decide)).running

theorem clear (tended : Tended width free state freed) (range : Width width) {thread : θ}
    (locked : state.mutexForBlock_ = some thread) (empty : state.pool.freeList_ = nullptr) :
    Tended width free (state.clear thread) freed := by
  rw [clear_empty empty]
  exact tended.takeSlot range thread (tended.room (by rw [locked]; rfl))

end Step
end Tended

/-- A new block finds nothing on the free list that it clears. -/
def ClearsEmpty (event : ThreadEvent θ) (state : PoolThreads θ × List UInt64) : Prop :=
  match event with
  | .clear _ => state.1.pool.freeList_ = nullptr
  | _ => True

section Run
variable [DecidableEq θ]

instance (event : ThreadEvent θ) (state : PoolThreads θ × List UInt64) : Decidable (ClearsEmpty event state) :=
  match event with
  | .clear _ => inferInstanceAs (Decidable (state.1.pool.freeList_ = nullptr))
  | .allocate _ | .lockFreeList _ | .deallocate _ _ | .advance _ | .lockBlock _ _ | .store _ _ => isTrue trivial

/-- The step leaves every freed slot on the list and no null pointer anywhere. -/
def KeepsFreed (event : ThreadEvent θ) (state : PoolThreads θ × List UInt64) : Prop :=
  ∀ next, watched.step event state = some next → Kept next

theorem Tended.step {width : Nat} (range : Width width) {event : ThreadEvent θ} {state next : PoolThreads θ}
    {free freed : List UInt64} (tended : Tended width free state freed) (clears : ClearsEmpty event (state, freed))
    (stepped : machine.step event state = some next) :
    Tended width (record event state free) next (record event state freed) := by
  cases step_cases stepped with
  | sees thread => exact tended.place thread .seen (by decide)
  | misses thread => exact tended.place thread .wanting (by decide)
  | locks thread _ unlocked => exact tended.locks thread unlocked
  | freesNothing => exact tended
  | frees thread ptr _ _ member unlocked => exact tended.frees thread member unlocked
  | tests thread held listed => exact .recorded held (tended.hold (by rw [held]; rfl) listed)
  | comesLate thread held => exact .recorded held (tended.comesLate held)
  | takes thread held => exact .recorded held (tended.takes held)
  | crashes thread temp held empty => exact absurd empty (tended.listed held).2
  | reads thread temp held =>
    obtain ⟨same, listed⟩ := tended.listed held
    exact .recorded held (tended.hold (by rw [held]; rfl) ⟨same, listed, rfl⟩)
  | pops thread temp after held => exact .recorded held (tended.pops range held)
  | links thread ptr held => exact .recorded held (tended.links range held)
  | publishes thread ptr held => exact .recorded held (tended.publishes held)
  | grows thread newBlock _ _ _ fresh => exact tended.grows range thread fresh
  | cuts thread newBlock _ _ room => exact tended.takeSlot range thread room
  | clears thread held => exact tended.clear range held clears
  | stores address value slot _ member inside => exact tended.store range member inside value

theorem Tended.watched_step {width : Nat} (range : Width width) {event : ThreadEvent θ}
    {before after : PoolThreads θ × List UInt64} (tended : ∃ free, Tended width free before.1 before.2)
    (clears : ClearsEmpty event before) (stepped : watched.step event before = some after) :
    ∃ free, Tended width free after.1 after.2 := by
  obtain ⟨free, tended⟩ := tended
  obtain ⟨stepped, recorded⟩ := Machine.watch_step.mp stepped
  rw [recorded]
  exact ⟨_, tended.step range clears stepped⟩

/-- A list that is cleared with slots on it loses them. -/
theorem Tended.not_kept_of_clear {width : Nat} {free : List UInt64} {thread : θ} {before after : PoolThreads θ × List UInt64}
    (tended : Tended width free before.1 before.2) (some : before.1.pool.freeList_ ≠ nullptr)
    (stepped : watched.step (.clear thread) before = Option.some after) : ¬Kept after := by
  obtain ⟨stepped, recorded⟩ := Machine.watch_step.mp stepped
  obtain ⟨_, stepped⟩ := Option.ite_none_right_eq_some.mp stepped
  obtain ⟨rest, rfl, _⟩ := tended.chained.uncons some
  intro kept
  apply not_chained_null after.1.memory nullptr before.1.pool.freeList_
  have listed := kept.listed before.1.pool.freeList_ (by rw [recorded]; exact (tended.freed _).mpr List.mem_cons_self)
  rwa [← Option.some.inj stepped] at listed ⊢

/-- In a run every freed slot stays on the list until it is taken, and no null pointer is
followed or returned, if and only if each new block finds the list that it clears empty. -/
theorem freed_kept_iff (size : UInt64) (multiple : 8 ∣ size.toNat) (positive : 0 < size) (small : size ≤ 512)
    (memory : Memory) (events : List (ThreadEvent θ)) (final : PoolThreads θ × List UInt64)
    (reached : watched.run events (init size memory, []) = some final) :
    watched.Along KeepsFreed events (init size memory, []) ↔ watched.Along ClearsEmpty events (init size memory, []) := by
  have range : Width size.toNat := ⟨multiple, UInt64.lt_iff_toNat_lt.mp positive, UInt64.le_iff_toNat_le.mp small⟩
  have agree : ∀ event (before after : PoolThreads θ × List UInt64), (∃ free, Tended size.toNat free before.1 before.2) →
      watched.step event before = some after → (KeepsFreed event before ↔ ClearsEmpty event before) := by
    intro event before after tended stepped
    constructor
    · intro keeps
      cases event with
      | clear thread =>
        by_contra some
        obtain ⟨free, tended⟩ := tended
        exact tended.not_kept_of_clear some stepped (keeps after stepped)
      | _ => trivial
    · intro clears next taken
      obtain ⟨free, kept⟩ := Tended.watched_step range tended clears taken
      exact kept.kept
  have preserved : ∀ event (before after : PoolThreads θ × List UInt64), KeepsFreed event before →
      (∃ free, Tended size.toNat free before.1 before.2) → watched.step event before = some after →
      ∃ free, Tended size.toNat free after.1 after.2 := by
    intro event before after keeps tended stepped
    exact Tended.watched_step range tended ((agree event before after tended stepped).mp keeps) stepped
  exact Machine.along_iff agree preserved reached ⟨[], init_tended size memory⟩

/-- One thread frees its slot, and another is given it. -/
theorem freed_kept_reused : watched.Along KeepsFreed
    [.allocate 0, .lockBlock 0 4096, .clear 0, .deallocate 0 4120, .advance 0, .advance 0, .allocate 1, .lockFreeList 1,
      .advance 1, .advance 1, .advance 1, .advance 1] (init 24 fun _ => 0, []) := by
  have computed : (watched.run [.allocate 0, .lockBlock 0 4096, .clear 0, .deallocate 0 4120, .advance 0, .advance 0,
      .allocate 1, .lockFreeList 1, .advance 1, .advance 1, .advance 1, .advance 1]
      ((init 24 fun _ => 0 : PoolThreads Nat), [])).map (fun final => final.1.live) = some [4120] := by
    decide +kernel
  obtain ⟨final, reached, _⟩ := Option.map_eq_some_iff.mp computed
  exact (freed_kept_iff 24 (by decide) (by decide) (by decide) _ _ final reached).mpr (by decide +kernel)

/-- A slot that is freed while another thread makes a new block is lost. The first block has
seven slots of 512 bytes. -/
theorem freed_slot_lost : ∃ final : PoolThreads Nat × List UInt64,
    watched.run [.allocate 0, .lockBlock 0 4096, .clear 0, .allocate 0, .lockBlock 0 0, .allocate 0, .lockBlock 0 0,
      .allocate 0, .lockBlock 0 0, .allocate 0, .lockBlock 0 0, .allocate 0, .lockBlock 0 0, .allocate 0, .lockBlock 0 0,
      .allocate 1, .lockBlock 1 8192, .deallocate 0 4608, .advance 0, .advance 0, .clear 1]
      (init 512 fun _ => 0, []) = some final ∧
    final.2 = [4608] ∧ final.1.pool.freeList_ = nullptr ∧ ¬Kept final := by
  have computed : (watched.run [.allocate 0, .lockBlock 0 4096, .clear 0, .allocate 0, .lockBlock 0 0, .allocate 0,
      .lockBlock 0 0, .allocate 0, .lockBlock 0 0, .allocate 0, .lockBlock 0 0, .allocate 0, .lockBlock 0 0, .allocate 0,
      .lockBlock 0 0, .allocate 1, .lockBlock 1 8192, .deallocate 0 4608, .advance 0, .advance 0, .clear 1]
      ((init 512 fun _ => 0 : PoolThreads Nat), [])).map (fun final => (final.2, final.1.pool.freeList_)) =
        some ([4608], nullptr) := by
    decide +kernel
  obtain ⟨final, reached, seen⟩ := Option.map_eq_some_iff.mp computed
  obtain ⟨freed, empty⟩ := Prod.mk.inj seen
  refine ⟨final, reached, freed, empty, fun kept => ?_⟩
  apply not_chained_null final.1.memory nullptr 4608
  have listed := kept.listed 4608 (by simp [freed])
  rwa [empty] at listed

end Run
end PoolThreads
end Webserver
