import Mathlib.Data.List.Chain
import Mathlib.Data.List.Nodup
import Mathlib.Logic.Function.Basic

/-! Cells of a heap that are linked both ways and strung between two ends. A change to a
string of cells is a few writes around one place, and leaves every other cell alone. -/

namespace Webserver.Library

universe u
variable {α : Type u}

@[ext]
structure Links (α : Type u) where
  pre : Option α
  next : Option α
  deriving DecidableEq

def Links.unlinked : Links α := ⟨none, none⟩

abbrev LinkHeap (α : Type u) := α → Links α

/-- The cells after `start` that lead to `stop`, when it is reached within `fuel` steps. -/
def visited [DecidableEq α] (follow : α → Option α) (stop : α) : Nat → α → Option (List α)
  | 0, _ => none
  | fuel + 1, cell => (follow cell).bind fun next =>
    if next = stop then some [] else (visited follow stop fuel next).map (next :: ·)

theorem visited_of_chain [DecidableEq α] {follow : α → Option α} {start stop : α} {cells : List α}
    (chain : (start :: (cells ++ [stop])).IsChain fun first second => follow first = some second)
    (before : stop ∉ cells) : visited follow stop (cells.length + 1) start = some cells := by
  induction cells generalizing start with
  | nil =>
    rw [List.nil_append, List.isChain_cons_cons] at chain
    simp [visited, chain.1]
  | cons cell cells ih =>
    rw [List.cons_append, List.isChain_cons_cons] at chain
    obtain ⟨other, before⟩ := not_or.mp (List.mem_cons.not.mp before)
    rw [visited, chain.1, Option.bind_some, if_neg (Ne.symm other), List.length_cons, ih chain.2 before]
    rfl

/-- The cells between two ends, with these. -/
def row (head : α) (cells : List α) (tail : α) : List α := head :: (cells ++ [tail])

@[simp]
theorem mem_row {head tail cell : α} {cells : List α} :
    cell ∈ row head cells tail ↔ cell = head ∨ cell ∈ cells ∨ cell = tail := by
  simp [row]

theorem row_reverse (head tail : α) (cells : List α) : (row head cells tail).reverse = row tail cells.reverse head := by
  simp [row]

theorem exists_last (head : α) (cells : List α) : ∃ front last, head ∈ front ++ [last] ∧
    ∀ rest, head :: (cells ++ rest) = front ++ last :: rest := by
  obtain ⟨front, last, split⟩ := (List.eq_nil_or_concat' (head :: cells)).resolve_left (List.cons_ne_nil head cells)
  refine ⟨front, last, split ▸ List.mem_cons_self, ?_⟩
  intro rest
  rw [← List.cons_append, split, List.append_assoc, List.singleton_append]

theorem row_last (head tail : α) (cells : List α) : ∃ front last, head ∈ front ++ [last] ∧
    row head cells tail = front ++ last :: tail :: [] ∧
    ∀ cell, row head (cells ++ [cell]) tail = front ++ last :: cell :: tail :: [] := by
  obtain ⟨front, last, left, split⟩ := exists_last head cells
  refine ⟨front, last, left, split [tail], ?_⟩
  intro cell
  rw [row, List.append_assoc]
  exact split [cell, tail]

theorem row_around [DecidableEq α] (head tail : α) {cells : List α} {cell : α} (distinct : cells.Nodup)
    (member : cell ∈ cells) : ∃ front first second back, head ∈ front ++ [first] ∧ tail ∈ second :: back ∧
      row head cells tail = front ++ first :: cell :: second :: back ∧
      row head (cells.erase cell) tail = front ++ first :: second :: back := by
  obtain ⟨before, after, rfl⟩ := List.append_of_mem member
  have absent : cell ∉ before := by
    intro inside
    exact (List.nodup_append.mp distinct).2.2 cell inside cell List.mem_cons_self rfl
  obtain ⟨front, first, left, split⟩ := exists_last head before
  obtain ⟨second, back, right⟩ :=
    List.exists_cons_of_ne_nil (List.append_ne_nil_of_right_ne_nil after (List.cons_ne_nil tail []))
  refine ⟨front, first, second, back, left, right ▸ List.mem_concat_self, ?_, ?_⟩
  · rw [row, List.append_assoc, List.cons_append, right]
    exact split _
  · rw [row, List.erase_append_right _ absent, List.erase_cons_head, List.append_assoc, right]
    exact split _

/-- Neither the two cells at a seam nor a cell from elsewhere are in one of its sides. -/
theorem seam_distinct {front back : List α} {first second cell : α} (distinct : (front ++ first :: second :: back).Nodup)
    (apart : cell ∉ front ++ first :: second :: back) : (first ≠ cell ∧ second ≠ cell) ∧
    (∀ other, other ∈ front ∨ other ∈ second :: back → other ≠ first ∧ other ≠ cell) ∧
    ∀ other, other ∈ front ++ [first] ∨ other ∈ back → other ≠ second ∧ other ≠ cell := by
  have left := (List.nodup_cons.mp (List.nodup_middle.mp distinct)).1
  rw [List.append_cons] at distinct
  have right := (List.nodup_cons.mp (List.nodup_middle.mp distinct)).1
  simp only [List.mem_append, List.mem_cons, List.not_mem_nil, or_false, not_or] at left right apart ⊢
  grind

namespace LinkHeap

/-- The two cells lead to each other. -/
def Joined (heap : LinkHeap α) (first second : α) : Prop :=
  (heap first).next = some second ∧ (heap second).pre = some first

/-- The same heap, read backwards. -/
def swap (heap : LinkHeap α) : LinkHeap α := fun cell => ⟨(heap cell).next, (heap cell).pre⟩

/-- A string of cells depends on the links between them only. -/
theorem chain_congr {heap other : LinkHeap α} {cells : List α} (chain : cells.IsChain heap.Joined)
    (next : ∀ cell ∈ cells.dropLast, (other cell).next = (heap cell).next)
    (pre : ∀ cell ∈ cells.tail, (other cell).pre = (heap cell).pre) : cells.IsChain other.Joined := by
  induction cells with
  | nil => exact List.IsChain.nil
  | cons first rest ih =>
    cases rest with
    | nil => exact List.IsChain.singleton first
    | cons second rest =>
      rw [List.isChain_cons_cons] at chain ⊢
      obtain ⟨joined, chain⟩ := chain
      refine ⟨⟨(next first List.mem_cons_self).trans joined.1, (pre second List.mem_cons_self).trans joined.2⟩, ?_⟩
      apply ih chain
      · intro cell member
        exact next cell (List.mem_cons_of_mem _ member)
      · intro cell member
        exact pre cell (List.mem_of_mem_tail member)

/-- The two halves of a string, when the writes are between them. -/
theorem halves_congr {heap other : LinkHeap α} {front back : List α} {first second : α}
    (before : (front ++ [first]).IsChain heap.Joined) (after : (second :: back).IsChain heap.Joined)
    (next : ∀ cell, cell ∈ front ∨ cell ∈ second :: back → (other cell).next = (heap cell).next)
    (pre : ∀ cell, cell ∈ front ++ [first] ∨ cell ∈ back → (other cell).pre = (heap cell).pre) :
    (front ++ [first]).IsChain other.Joined ∧ (second :: back).IsChain other.Joined := by
  constructor
  · apply chain_congr before
    · intro cell member
      rw [List.dropLast_concat] at member
      exact next cell (Or.inl member)
    · intro cell member
      exact pre cell (Or.inl (List.mem_of_mem_tail member))
  · apply chain_congr after
    · intro cell member
      exact next cell (Or.inr (List.dropLast_subset _ member))
    · intro cell member
      exact pre cell (Or.inr member)

section Writes
variable [DecidableEq α]

def setPre (heap : LinkHeap α) (cell : α) (pre : Option α) : LinkHeap α :=
  Function.update heap cell { heap cell with pre := pre }

def setNext (heap : LinkHeap α) (cell : α) (next : Option α) : LinkHeap α :=
  Function.update heap cell { heap cell with next := next }

@[simp]
theorem setPre_pre (heap : LinkHeap α) (cell other : α) (pre : Option α) :
    (heap.setPre cell pre other).pre = if other = cell then pre else (heap other).pre := by
  rw [setPre, Function.update_apply]
  split <;> rfl

@[simp]
theorem setPre_next (heap : LinkHeap α) (cell other : α) (pre : Option α) :
    (heap.setPre cell pre other).next = (heap other).next := by
  rw [setPre, Function.update_apply]
  split
  next same => rw [same]
  next => rfl

@[simp]
theorem setNext_next (heap : LinkHeap α) (cell other : α) (next : Option α) :
    (heap.setNext cell next other).next = if other = cell then next else (heap other).next := by
  rw [setNext, Function.update_apply]
  split <;> rfl

@[simp]
theorem setNext_pre (heap : LinkHeap α) (cell other : α) (next : Option α) :
    (heap.setNext cell next other).pre = (heap other).pre := by
  rw [setNext, Function.update_apply]
  split
  next same => rw [same]
  next => rfl

/-- The writes that put `cell` between two cells. -/
def linkIn (heap : LinkHeap α) (first cell second : α) : LinkHeap α :=
  (((heap.setPre cell (some first)).setNext cell (some second)).setNext first (some cell)).setPre second (some cell)

/-- The writes that take `cell` out from between two cells. -/
def bypass (heap : LinkHeap α) (first cell second : α) : LinkHeap α :=
  (((heap.setNext first (some second)).setPre second (some first)).setPre cell none).setNext cell none

theorem linkIn_next (heap : LinkHeap α) (first cell second other : α) : (heap.linkIn first cell second other).next =
    if other = first then some cell else if other = cell then some second else (heap other).next := by
  simp only [linkIn, setPre_next, setNext_next]

theorem linkIn_pre (heap : LinkHeap α) (first cell second other : α) : (heap.linkIn first cell second other).pre =
    if other = second then some cell else if other = cell then some first else (heap other).pre := by
  simp only [linkIn, setPre_pre, setNext_pre]

theorem bypass_next (heap : LinkHeap α) (first cell second other : α) : (heap.bypass first cell second other).next =
    if other = cell then none else if other = first then some second else (heap other).next := by
  simp only [bypass, setPre_next, setNext_next]

theorem bypass_pre (heap : LinkHeap α) (first cell second other : α) : (heap.bypass first cell second other).pre =
    if other = cell then none else if other = second then some first else (heap other).pre := by
  simp only [bypass, setPre_pre, setNext_pre]

theorem bypass_unlinks (heap : LinkHeap α) (first cell second : α) :
    heap.bypass first cell second cell = Links.unlinked := by
  simp only [Links.unlinked, Links.ext_iff, bypass_next, bypass_pre, if_true, and_self]

theorem linkIn_frame (heap : LinkHeap α) {first cell second other : α} (notFirst : other ≠ first) (notCell : other ≠ cell)
    (notSecond : other ≠ second) : heap.linkIn first cell second other = heap other := by
  simp only [Links.ext_iff, linkIn_next, linkIn_pre, if_neg notFirst, if_neg notCell, if_neg notSecond, and_self]

theorem bypass_frame (heap : LinkHeap α) {first cell second other : α} (notFirst : other ≠ first) (notCell : other ≠ cell)
    (notSecond : other ≠ second) : heap.bypass first cell second other = heap other := by
  simp only [Links.ext_iff, bypass_next, bypass_pre, if_neg notFirst, if_neg notCell, if_neg notSecond, and_self]

theorem chain_linkIn {heap : LinkHeap α} {front back : List α} {first cell second : α}
    (chain : (front ++ first :: second :: back).IsChain heap.Joined) (distinct : (front ++ first :: second :: back).Nodup)
    (apart : cell ∉ front ++ first :: second :: back) :
    (front ++ first :: cell :: second :: back).IsChain (heap.linkIn first cell second).Joined := by
  obtain ⟨⟨firstApart, secondApart⟩, left, right⟩ := seam_distinct distinct apart
  obtain ⟨before, -, after⟩ := List.isChain_append_cons_cons.mp chain
  have kept : (front ++ [first]).IsChain (heap.linkIn first cell second).Joined ∧
      (second :: back).IsChain (heap.linkIn first cell second).Joined := by
    apply halves_congr before after
    · intro other member
      rw [linkIn_next, if_neg (left other member).1, if_neg (left other member).2]
    · intro other member
      rw [linkIn_pre, if_neg (right other member).1, if_neg (right other member).2]
  apply List.isChain_append_cons_cons.mpr
  refine ⟨kept.1, ⟨?_, ?_⟩, List.isChain_cons_cons.mpr ⟨⟨?_, ?_⟩, kept.2⟩⟩
  · rw [linkIn_next, if_pos rfl]
  · rw [linkIn_pre, if_neg (Ne.symm secondApart), if_pos rfl]
  · rw [linkIn_next, if_neg (Ne.symm firstApart), if_pos rfl]
  · rw [linkIn_pre, if_pos rfl]

theorem chain_bypass {heap : LinkHeap α} {front back : List α} {first cell second : α}
    (chain : (front ++ first :: cell :: second :: back).IsChain heap.Joined) (distinct : (front ++ first :: second :: back).Nodup)
    (apart : cell ∉ front ++ first :: second :: back) :
    (front ++ first :: second :: back).IsChain (heap.bypass first cell second).Joined := by
  obtain ⟨⟨firstApart, secondApart⟩, left, right⟩ := seam_distinct distinct apart
  obtain ⟨before, -, after⟩ := List.isChain_append_cons_cons.mp chain
  have kept : (front ++ [first]).IsChain (heap.bypass first cell second).Joined ∧
      (second :: back).IsChain (heap.bypass first cell second).Joined := by
    apply halves_congr before (List.isChain_cons_cons.mp after).2
    · intro other member
      rw [bypass_next, if_neg (left other member).2, if_neg (left other member).1]
    · intro other member
      rw [bypass_pre, if_neg (right other member).2, if_neg (right other member).1]
  apply List.isChain_append_cons_cons.mpr
  refine ⟨kept.1, ⟨?_, ?_⟩, kept.2⟩
  · rw [bypass_next, if_neg firstApart, if_pos rfl]
  · rw [bypass_pre, if_neg secondApart, if_pos rfl]

end Writes

end LinkHeap

/-- The cells are strung between two ends, which lead nowhere else. -/
structure Strung (heap : LinkHeap α) (head : α) (cells : List α) (tail : α) : Prop where
  chain : (row head cells tail).IsChain heap.Joined
  distinct : (row head cells tail).Nodup
  first : (heap head).pre = none
  last : (heap tail).next = none

namespace Strung
variable {heap other : LinkHeap α} {head tail cell : α} {cells : List α}

theorem empty (apart : head ≠ tail) (first : heap head = ⟨none, some tail⟩) (last : heap tail = ⟨some head, none⟩) :
    Strung heap head [] tail := by
  refine ⟨List.isChain_pair.mpr ⟨?_, ?_⟩, ?_, ?_, ?_⟩
  · rw [first]
  · rw [last]
  · simpa [row] using apart
  · rw [first]
  · rw [last]

theorem congr (strung : Strung heap head cells tail) (same : ∀ cell ∈ row head cells tail, other cell = heap cell) :
    Strung other head cells tail := by
  refine ⟨LinkHeap.chain_congr strung.chain ?_ ?_, strung.distinct, ?_, ?_⟩
  · intro cell member
    rw [same cell (List.dropLast_subset _ member)]
  · intro cell member
    rw [same cell (List.mem_of_mem_tail member)]
  · rw [same head (by simp)]
    exact strung.first
  · rw [same tail (by simp)]
    exact strung.last

theorem swap (strung : Strung heap head cells tail) : Strung heap.swap tail cells.reverse head := by
  refine ⟨?_, ?_, strung.last, strung.first⟩
  · rw [← row_reverse, List.isChain_reverse]
    apply strung.chain.imp
    intro first second joined
    exact ⟨joined.2, joined.1⟩
  · rw [← row_reverse, List.nodup_reverse]
    exact strung.distinct

theorem ends_apart (strung : Strung heap head cells tail) (ends : cell = head ∨ cell = tail) : cell ∉ cells := by
  obtain ⟨absent, distinct⟩ := List.nodup_cons.mp strung.distinct
  intro member
  rcases ends with rfl | rfl
  · exact absent (List.mem_append_left _ member)
  · exact (List.nodup_append.mp distinct).2.2 cell member cell List.mem_cons_self rfl

theorem leads (strung : Strung heap head cells tail) (member : cell ∈ head :: cells) :
    ∃ second, (heap cell).next = some second := by
  obtain ⟨before, after, split⟩ := List.append_of_mem member
  obtain ⟨second, back, right⟩ :=
    List.exists_cons_of_ne_nil (List.append_ne_nil_of_right_ne_nil after (List.cons_ne_nil tail []))
  have chain := strung.chain
  rw [row, ← List.cons_append, split, List.append_assoc, List.cons_append, right] at chain
  exact ⟨second, (List.isChain_append_cons_cons.mp chain).2.1.1⟩

/-- A cell of the string leads on, or back. -/
theorem linked (strung : Strung heap head cells tail) (member : cell ∈ row head cells tail) : heap cell ≠ Links.unlinked := by
  intro loose
  rw [row, ← List.cons_append, List.mem_append] at member
  rcases member with inside | last
  · obtain ⟨second, leads⟩ := strung.leads inside
    rw [loose] at leads
    cases leads
  · rw [List.mem_singleton.mp last] at loose
    obtain ⟨second, leads⟩ := strung.swap.leads List.mem_cons_self
    rw [LinkHeap.swap, loose] at leads
    cases leads

theorem next_head (strung : Strung heap head cells tail) : (heap head).next = some (cells.headD tail) := by
  have chain := strung.chain
  cases cells with
  | nil => exact (List.isChain_cons_cons.mp chain).1.1
  | cons cell cells => exact (List.isChain_cons_cons.mp chain).1.1

theorem next_head_iff (strung : Strung heap head cells tail) : (heap head).next = some tail ↔ cells = [] := by
  rw [strung.next_head, Option.some_inj]
  cases cells with
  | nil => simp
  | cons cell cells =>
    apply iff_of_false _ (List.cons_ne_nil cell cells)
    intro same
    exact strung.ends_apart (Or.inr same) List.mem_cons_self

section Visits
variable [DecidableEq α]

theorem visits (strung : Strung heap head cells tail) :
    visited (fun cell => (heap cell).next) tail (cells.length + 1) head = some cells := by
  apply visited_of_chain
  · apply strung.chain.imp
    intro first second joined
    exact joined.1
  · exact strung.ends_apart (Or.inr rfl)

theorem visits_back (strung : Strung heap head cells tail) :
    visited (fun cell => (heap cell).pre) head (cells.length + 1) tail = some cells.reverse := by
  have back := strung.swap.visits
  rw [List.length_reverse] at back
  exact back

theorem push (strung : Strung heap head cells tail) (apart : cell ∉ row head cells tail) :
    ∃ last ∈ row head cells tail, (heap tail).pre = some last ∧
      Strung (heap.linkIn last cell tail) head (cells ++ [cell]) tail := by
  obtain ⟨front, last, left, before, after⟩ := row_last head tail cells
  have chain := strung.chain
  have distinct := strung.distinct
  rw [before] at chain distinct apart
  obtain ⟨-, notLast, notTail⟩ := seam_distinct distinct apart
  refine ⟨last, by rw [before]; simp, (List.isChain_append_cons_cons.mp chain).2.1.2, ?_, ?_, ?_, ?_⟩
  · rw [after]
    exact LinkHeap.chain_linkIn chain distinct apart
  · rw [after, List.append_cons, List.nodup_middle, ← List.append_cons]
    exact List.nodup_cons.mpr ⟨apart, distinct⟩
  · obtain ⟨headTail, headCell⟩ := notTail head (Or.inl left)
    rw [LinkHeap.linkIn_pre, if_neg headTail, if_neg headCell]
    exact strung.first
  · obtain ⟨tailLast, tailCell⟩ := notLast tail (Or.inr List.mem_cons_self)
    rw [LinkHeap.linkIn_next, if_neg tailLast, if_neg tailCell]
    exact strung.last

theorem erase (strung : Strung heap head cells tail) (member : cell ∈ cells) :
    ∃ first ∈ row head cells tail, ∃ second ∈ row head cells tail, (heap cell).pre = some first ∧
      (heap cell).next = some second ∧ Strung (heap.bypass first cell second) head (cells.erase cell) tail := by
  have inner := (List.nodup_append.mp (List.nodup_cons.mp strung.distinct).2).1
  obtain ⟨front, first, second, back, left, right, before, after⟩ := row_around head tail inner member
  have chain := strung.chain
  have distinct := strung.distinct
  rw [before] at chain distinct
  rw [List.append_cons, List.nodup_middle, ← List.append_cons] at distinct
  obtain ⟨apart, distinct⟩ := List.nodup_cons.mp distinct
  obtain ⟨-, notFirst, notSecond⟩ := seam_distinct distinct apart
  have joined := List.isChain_cons_cons.mp (List.isChain_append_cons_cons.mp chain).2.2
  refine ⟨first, by rw [before]; simp, second, by rw [before]; simp, (List.isChain_append_cons_cons.mp chain).2.1.2,
    joined.1.1, ?_, ?_, ?_, ?_⟩
  · rw [after]
    exact LinkHeap.chain_bypass chain distinct apart
  · rw [after]
    exact distinct
  · obtain ⟨headSecond, headCell⟩ := notSecond head (Or.inl left)
    rw [LinkHeap.bypass_pre, if_neg headCell, if_neg headSecond]
    exact strung.first
  · obtain ⟨tailFirst, tailCell⟩ := notFirst tail (Or.inr right)
    rw [LinkHeap.bypass_next, if_neg tailCell, if_neg tailFirst]
    exact strung.last

end Visits
end Strung

end Webserver.Library
