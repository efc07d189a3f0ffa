import Webserver.Library.Segment

/-! A flat memory that remembers where it was stored to: single stores, copies of a
block, a reversal in place, and what is read back. -/

namespace Webserver.Library

universe u

/-- `stored` is the list of the addresses of all stores so far. -/
structure FlatMemory (α : Type u) where
  cells : Nat → α
  stored : List Nat

namespace FlatMemory
variable {α : Type u}

def store (memory : FlatMemory α) (address : Nat) (value : α) : FlatMemory α where
  cells other := if other = address then value else memory.cells other
  stored := memory.stored ++ [address]

/-- Store a block from an address on. -/
def copy (memory : FlatMemory α) (address : Nat) : List α → FlatMemory α
  | [] => memory
  | value :: block => (memory.store address value).copy (address + 1) block

def read (memory : FlatMemory α) (address count : Nat) : List α := (List.range count).map fun i => memory.cells (address + i)

/-- Reverse some cells in place. -/
def reverse (memory : FlatMemory α) (address count : Nat) : FlatMemory α :=
  memory.copy address (memory.read address count).reverse

/-- Every store so far was to an address from `first` up to, not including, `last`. -/
def Inside (memory : FlatMemory α) (first last : Nat) : Prop := ∀ address ∈ memory.stored, first ≤ address ∧ address < last

@[simp]
theorem copy_nil (memory : FlatMemory α) (address : Nat) : memory.copy address [] = memory := rfl

@[simp]
theorem length_read (memory : FlatMemory α) (address count : Nat) : (memory.read address count).length = count := by
  simp [read]

theorem copy_append (memory : FlatMemory α) (address : Nat) (first rest : List α) :
    memory.copy address (first ++ rest) = (memory.copy address first).copy (address + first.length) rest := by
  induction first generalizing memory address with
  | nil => rfl
  | cons value first ih =>
    rw [List.cons_append, copy, copy, ih, List.length_cons]
    congr 1
    omega

/-- A copy leaves the cells outside of its block alone. -/
theorem cells_copy_outside (memory : FlatMemory α) {address other : Nat} (block : List α)
    (outside : other < address ∨ address + block.length ≤ other) :
    (memory.copy address block).cells other = memory.cells other := by
  induction block generalizing memory address with
  | nil => rfl
  | cons value block ih =>
    rw [List.length_cons] at outside
    rw [copy, ih _ (by omega), store]
    exact if_neg (by omega)

theorem read_congr {memory later : FlatMemory α} {address count : Nat}
    (same : ∀ other, address ≤ other → other < address + count → later.cells other = memory.cells other) :
    later.read address count = memory.read address count := by
  apply List.map_congr_left
  intro i member
  have inside := List.mem_range.mp member
  exact same (address + i) (Nat.le_add_right _ _) (by omega)

theorem read_add (memory : FlatMemory α) (address first rest : Nat) :
    memory.read address (first + rest) = memory.read address first ++ memory.read (address + first) rest := by
  simp only [read, List.range_add, List.map_append, List.map_map]
  congr 1
  apply List.map_congr_left
  intro i _
  simp [Nat.add_assoc]

/-- What was copied is read back. -/
theorem read_copy (memory : FlatMemory α) (address : Nat) (block : List α) :
    (memory.copy address block).read address block.length = block := by
  induction block generalizing memory address with
  | nil => rfl
  | cons value block ih =>
    have head : ((memory.store address value).copy (address + 1) block).cells address = value := by
      rw [cells_copy_outside _ _ (.inl (Nat.lt_succ_self _)), store]
      exact if_pos rfl
    rw [copy, List.length_cons, Nat.add_comm block.length 1, read_add, ih]
    simp [read, head]

/-- A copy right after some cells extends what is read from them. -/
theorem read_copy_after (memory : FlatMemory α) (address count : Nat) (block : List α) :
    (memory.copy (address + count) block).read address (count + block.length) = memory.read address count ++ block := by
  rw [read_add, read_copy]
  congr 1
  exact read_congr fun other _ below => cells_copy_outside _ _ (.inl below)

theorem read_segment (memory : FlatMemory α) (address : Nat) {first count : Nat} (inside : first ≤ count) :
    segment (memory.read address count) 0 first = memory.read address first := by
  obtain ⟨rest, rfl⟩ := Nat.exists_eq_add_of_le inside
  rw [segment, List.drop_zero, read_add]
  exact List.take_left' (length_read _ _ _)

/-- A copy inside of some cells overwrites what is read from them. -/
theorem read_copy_inside (memory : FlatMemory α) (address : Nat) {start count : Nat} (block : List α)
    (inside : start + block.length ≤ count) :
    (memory.copy (address + start) block).read address count = overwrite (memory.read address count) start block := by
  obtain ⟨rest, rfl⟩ := Nat.exists_eq_add_of_le inside
  have after : (memory.copy (address + start) block).read (address + (start + block.length)) rest =
      memory.read (address + (start + block.length)) rest :=
    read_congr fun other above _ => cells_copy_outside _ _ (.inr (by omega))
  have front : (memory.read address (start + block.length + rest)).take start = memory.read address start := by
    rw [Nat.add_assoc, read_add]
    exact List.take_left' (length_read _ _ _)
  have back : (memory.read address (start + block.length + rest)).drop (start + block.length) =
      memory.read (address + (start + block.length)) rest := by
    rw [read_add]
    exact List.drop_left' (length_read _ _ _)
  rw [read_add, read_copy_after, after, overwrite, front, back]

/-- The front of a copied block is read back, whatever follows it. -/
theorem read_copy_front (memory : FlatMemory α) (address : Nat) (first rest : List α) :
    (memory.copy address (first ++ rest)).read address first.length = first := by
  rw [copy_append]
  refine (read_congr fun other _ below => ?_).trans (read_copy memory address first)
  exact cells_copy_outside _ _ (.inl below)

theorem reverse_copy_front (memory : FlatMemory α) (address : Nat) (first rest : List α) :
    (memory.copy address (first ++ rest)).reverse address first.length =
      (memory.copy address (first ++ rest)).copy address first.reverse := by
  rw [reverse, read_copy_front]

theorem mem_stored_copy (memory : FlatMemory α) (address : Nat) (block : List α) (other : Nat) :
    other ∈ (memory.copy address block).stored ↔ other ∈ memory.stored ∨ address ≤ other ∧ other < address + block.length := by
  induction block generalizing memory address with
  | nil =>
    rw [copy_nil, List.length_nil]
    exact ⟨.inl, fun stored => stored.elim id fun none => by omega⟩
  | cons value block ih =>
    have block : other = address ∨ address + 1 ≤ other ∧ other < address + 1 + block.length ↔
        address ≤ other ∧ other < address + (block.length + 1) := by omega
    rw [copy, ih, List.length_cons, ← block, ← or_assoc]
    simp only [store, List.mem_append, List.mem_singleton]

theorem Inside.copy {memory : FlatMemory α} {first last address : Nat} (inside : memory.Inside first last)
    (above : first ≤ address) {block : List α} (below : address + block.length ≤ last) :
    (memory.copy address block).Inside first last := by
  intro other member
  rcases (mem_stored_copy memory address block other).mp member with old | new
  · exact inside other old
  · omega

end FlatMemory
end Webserver.Library
