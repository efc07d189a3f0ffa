import Webserver.Proofs.FreeListKept

/-! The operations of a pool take effect one at a time. As long as no new block clears a list
with slots on it, every run is one of an allocator whose operations are single steps: each
takes effect in one step of its call. -/

namespace Webserver
open Library

universe u

/-- An allocator of slots. Freed slots are a stack, and any slot that was never given out may
be cut. -/
structure SlotStack where
  out : List UInt64
  free : List UInt64

inductive SlotCall where
  | cut (slot : UInt64)
  | pop (slot : UInt64)
  | push (slot : UInt64)
deriving DecidableEq, Repr

namespace SlotStack

def step (call : SlotCall) (stack : SlotStack) : Option SlotStack :=
  match call with
  | .cut slot => if slot ∈ stack.out ++ stack.free then none else some ⟨slot :: stack.out, stack.free⟩
  | .pop slot =>
    match stack.free with
    | [] => none
    | top :: rest => if top = slot then some ⟨slot :: stack.out, rest⟩ else none
  | .push slot => if slot ∈ stack.out then some ⟨stack.out.erase slot, slot :: stack.free⟩ else none

def machine : Machine SlotStack SlotCall := ⟨step⟩

end SlotStack

namespace PoolThreads
open MemoryPool
variable {θ : Type u}

/-- What the step adds to the history of the pool: that a call of `allocate` has its slot, or
that the slot of `deallocate` can be taken. -/
def effect (event : ThreadEvent θ) (state : PoolThreads θ) : List SlotCall :=
  match event with
  | .advance _ =>
    match state.mutexForFreeList_ with
    | some (_, .popping temp _) => [.pop temp]
    | some (_, .publishing ptr) => [.push ptr]
    | _ => []
  | .lockBlock _ _ => if state.pool.exhausted then [] else [.cut state.pool.curSlot_]
  | .clear _ => [.cut state.pool.curSlot_]
  | .allocate _ | .lockFreeList _ | .deallocate _ _ | .store _ _ => []

private theorem effect_advance {state : PoolThreads θ} {thread : θ} {held : ListSection}
    (holds : state.mutexForFreeList_ = some (thread, held)) :
    effect (.advance thread) state =
      match held with
      | .popping temp _ => [.pop temp]
      | .publishing ptr => [.push ptr]
      | .testing | .taking | .taken _ | .linking _ => [] := by
  simp only [effect, holds]
  cases held <;> rfl

def traced [DecidableEq θ] : Machine (PoolThreads θ × List SlotCall) (ThreadEvent θ) :=
  machine.watch fun event state history => history ++ effect event state

/-- The history makes the stack, whose slots are those of the list. -/
structure Atomic (width : Nat) (state : PoolThreads θ) (history : List SlotCall) (stack : SlotStack) : Prop where
  tended : Tended width stack.free state stack.free
  out : stack.out.Perm (state.live ++ hands state.mutexForFreeList_)
  made : SlotStack.machine.run history ⟨[], []⟩ = some stack

namespace Atomic
variable {width : Nat} {state next : PoolThreads θ} {history : List SlotCall} {stack after : SlotStack}

theorem silent (atomic : Atomic width state history stack) (tended : Tended width stack.free next stack.free)
    (out : stack.out.Perm (next.live ++ hands next.mutexForFreeList_)) : Atomic width next (history ++ []) stack :=
  ⟨tended, out, by rw [List.append_nil]; exact atomic.made⟩

theorem call (atomic : Atomic width state history stack) {call : SlotCall} (stepped : stack.step call = some after)
    (tended : Tended width after.free next after.free)
    (out : after.out.Perm (next.live ++ hands next.mutexForFreeList_)) : Atomic width next (history ++ [call]) after :=
  ⟨tended, out, (SlotStack.machine.run_append _ _ _ _).mpr
    ⟨stack, atomic.made, (SlotStack.machine.run_cons _ _ _ _).mpr ⟨after, stepped, rfl⟩⟩⟩

variable [DecidableEq θ]

theorem takeSlot (atomic : Atomic width state history stack) (range : Width width) (thread : θ)
    (room : state.pool.exhausted = false) :
    ∃ stack, Atomic width (state.takeSlot thread) (history ++ [.cut state.pool.curSlot_]) stack := by
  have tended := atomic.tended.takeSlot range thread room
  have nodup := tended.laid.nodup range
  have fresh : state.pool.curSlot_ ∉ stack.out ++ stack.free := by
    intro member
    have among : state.pool.curSlot_ ∈ state.live ++ (hands state.mutexForFreeList_ ++ stack.free) := by
      rw [← List.append_assoc]
      exact ((atomic.out.append_right _).mem_iff).mp member
    exact (List.nodup_cons.mp nodup).1 among
  exact ⟨_, atomic.call (if_neg fresh) tended (atomic.out.cons _)⟩

/-- Each step of the pool is at most one of the stack. -/
theorem step (atomic : Atomic width state history stack) (range : Width width) {event : ThreadEvent θ}
    (clears : ClearsEmpty event (state, [])) (stepped : machine.step event state = some next) :
    ∃ stack, Atomic width next (history ++ effect event state) stack := by
  have tended := atomic.tended.step range clears stepped
  have out := atomic.out
  cases step_cases stepped with
  | sees | misses | freesNothing | stores => exact ⟨stack, atomic.silent tended out⟩
  | locks thread _ unlocked =>
    rw [unlocked] at out
    exact ⟨stack, atomic.silent tended out⟩
  | frees thread ptr _ _ member unlocked =>
    refine ⟨stack, atomic.silent tended ?_⟩
    rw [unlocked] at out
    have freed : (state.live ++ []).Perm (state.live.erase ptr ++ [ptr]) := by
      rw [List.append_nil]
      exact (List.perm_cons_erase member).trans (List.perm_append_singleton ptr _).symm
    exact out.trans freed
  | tests thread held | comesLate thread held | takes thread held | reads thread temp held | links thread ptr held =>
    rw [record_advance held] at tended
    rw [held] at out
    rw [effect_advance held]
    exact ⟨stack, atomic.silent tended out⟩
  | crashes thread temp held empty => exact absurd empty (atomic.tended.listed held).2
  | pops thread temp after held =>
    obtain ⟨_, rest, whole, absent, _⟩ := atomic.tended.popped range held
    rw [record_advance held, whole, recordSection_popping absent] at tended
    rw [held] at out
    rw [effect_advance held]
    have popped : stack.step (.pop temp) = some ⟨temp :: stack.out, rest⟩ := by
      simp only [SlotStack.step, whole, if_true]
    exact ⟨_, atomic.call popped tended (out.cons _)⟩
  | publishes thread ptr held =>
    rw [record_advance held] at tended
    rw [held] at out
    rw [effect_advance held]
    have member : ptr ∈ stack.out := out.mem_iff.mpr (List.mem_append_right _ List.mem_cons_self)
    refine ⟨_, atomic.call (if_pos member) tended ?_⟩
    have rest := (out.trans List.perm_append_comm).erase ptr
    rw [hands, List.singleton_append, List.erase_cons_head] at rest
    change (stack.out.erase ptr).Perm (state.live ++ [])
    rwa [List.append_nil]
  | grows thread newBlock _ _ exhausted =>
    rw [effect, if_pos exhausted]
    exact ⟨stack, atomic.silent tended out⟩
  | cuts thread newBlock _ _ room =>
    rw [effect, if_neg (Bool.eq_false_iff.mp room)]
    exact atomic.takeSlot range thread room
  | clears thread held =>
    rw [clear_empty clears]
    exact atomic.takeSlot range thread (atomic.tended.room (by rw [held]; rfl))

end Atomic

theorem init_atomic (size : UInt64) (memory : Memory) :
    Atomic size.toNat (init size memory : PoolThreads θ) [] ⟨[], []⟩ :=
  ⟨init_tended size memory, .refl _, rfl⟩

/-- The history of a run is one of the stack, from which each call has its slot: the stack
then holds what is on the free list, in this order, and has given out what is live or on
its way back. -/
theorem operations_atomic [DecidableEq θ] (size : UInt64) (multiple : 8 ∣ size.toNat) (positive : 0 < size)
    (small : size ≤ 512) (memory : Memory) (events : List (ThreadEvent θ)) (final : PoolThreads θ × List SlotCall)
    (reached : traced.run events (init size memory, []) = some final)
    (clears : traced.Along (fun event state => ClearsEmpty event (state.1, [])) events (init size memory, [])) :
    ∃ stack, SlotStack.machine.run final.2 ⟨[], []⟩ = some stack ∧
      Chain final.1.memory nullptr final.1.pool.freeList_ stack.free ∧
      stack.out.Perm (final.1.live ++ hands final.1.mutexForFreeList_) := by
  have range : Width size.toNat := ⟨multiple, UInt64.lt_iff_toNat_lt.mp positive, UInt64.le_iff_toNat_le.mp small⟩
  have preserved : ∀ event (before after : PoolThreads θ × List SlotCall), ClearsEmpty event (before.1, []) →
      (∃ stack, Atomic size.toNat before.1 before.2 stack) → traced.step event before = some after →
      ∃ stack, Atomic size.toNat after.1 after.2 stack := by
    intro event before after clears ⟨stack, atomic⟩ stepped
    obtain ⟨stepped, recorded⟩ := Machine.watch_step.mp stepped
    rw [recorded]
    exact atomic.step range clears stepped
  obtain ⟨stack, atomic⟩ := Machine.run_invariant preserved reached clears ⟨_, init_atomic size memory⟩
  exact ⟨stack, atomic.made, atomic.tended.chained, atomic.out⟩

/-- The slot that one thread frees is the one that another is given. -/
theorem operations_atomic_reused : ∃ (final : PoolThreads Nat × List SlotCall) (stack : SlotStack),
    traced.run [.allocate 0, .lockBlock 0 4096, .clear 0, .deallocate 0 4120, .advance 0, .advance 0, .allocate 1,
      .lockFreeList 1, .advance 1, .advance 1, .advance 1, .advance 1] (init 24 fun _ => 0, []) = some final ∧
    final.2 = [.cut 4120, .push 4120, .pop 4120] ∧ SlotStack.machine.run final.2 ⟨[], []⟩ = some stack ∧
    stack.out.Perm (final.1.live ++ hands final.1.mutexForFreeList_) := by
  have computed : (traced.run [.allocate 0, .lockBlock 0 4096, .clear 0, .deallocate 0 4120, .advance 0, .advance 0,
      .allocate 1, .lockFreeList 1, .advance 1, .advance 1, .advance 1, .advance 1]
      ((init 24 fun _ => 0 : PoolThreads Nat), [])).map Prod.snd = some [.cut 4120, .push 4120, .pop 4120] := by
    decide +kernel
  obtain ⟨final, reached, history⟩ := Option.map_eq_some_iff.mp computed
  obtain ⟨stack, made, _, out⟩ := operations_atomic 24 (by decide) (by decide) (by decide) _ _ final reached
    (by decide +kernel)
  exact ⟨final, stack, reached, history, made, out⟩

end PoolThreads
end Webserver
