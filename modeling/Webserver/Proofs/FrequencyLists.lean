import Webserver.FreqList

/-! Every `FreqList` is a sequence of nodes, which its links give in either direction. The
invariant is about all lists on the heap at once: each owns its cells, and a call on one of
them leaves the cells of the others alone. -/

namespace Webserver
open Library

universe u
variable {α : Type u}

namespace FreqList
variable [DecidableEq α] {list : FreqList α} {heap : LinkHeap α} {sequence : List α} {node : α}

def cells (list : FreqList α) (sequence : List α) : List α := row list.head_ sequence list.tail_

def Holds (list : FreqList α) (heap : LinkHeap α) (sequence : List α) : Prop :=
  Strung heap list.head_ sequence list.tail_

private theorem addNode_eq (apart : node ≠ list.tail_) {last : α} (leads : (heap list.tail_).pre = some last) :
    list.addNode (some node) heap = some (heap.linkIn last node list.tail_) := by
  have read : ((heap.setPre node (some last)).setNext node (some list.tail_) list.tail_).pre = some last := by
    rw [LinkHeap.setNext_pre, LinkHeap.setPre_pre, if_neg (Ne.symm apart), leads]
  simp only [addNode, read, leads, Option.bind_eq_bind, Option.bind_some, Option.pure_def, LinkHeap.linkIn]

private theorem removeNode_eq {first second : α} (pre : (heap node).pre = some first) (next : (heap node).next = some second) :
    list.removeNode (some node) heap = some (heap.bypass first node second) := by
  simp [removeNode, pre, next, LinkHeap.bypass]

theorem removeNode_loose (loose : (heap node).pre = none ∨ (heap node).next = none) :
    list.removeNode (some node) heap = some heap := if_pos loose

theorem addNode_spec (holds : list.Holds heap sequence) (apart : node ∉ list.cells sequence) :
    ∃ after, list.addNode (some node) heap = some after ∧ list.Holds after (sequence ++ [node]) ∧
      ∀ other ∉ list.cells (sequence ++ [node]), after other = heap other := by
  obtain ⟨last, member, leads, strung⟩ := holds.push apart
  have other : node ≠ list.tail_ := by
    rintro rfl
    exact apart (mem_row.mpr (Or.inr (Or.inr rfl)))
  refine ⟨_, addNode_eq other leads, strung, ?_⟩
  intro other absent
  simp only [cells, mem_row, List.mem_append, List.mem_singleton, not_or] at absent member
  apply LinkHeap.linkIn_frame
  · rintro rfl
    grind
  · exact absent.2.1.2
  · exact absent.2.2

theorem removeNode_spec (holds : list.Holds heap sequence) (member : node ∈ sequence) :
    ∃ after, list.removeNode (some node) heap = some after ∧ list.Holds after (sequence.erase node) ∧
      after node = Links.unlinked ∧ ∀ other ∉ list.cells sequence, after other = heap other := by
  obtain ⟨first, before, second, behind, pre, next, strung⟩ := holds.erase member
  refine ⟨_, removeNode_eq pre next, strung, LinkHeap.bypass_unlinks _ _ _ _, ?_⟩
  intro other absent
  apply LinkHeap.bypass_frame
  · rintro rfl
    exact absent before
  · rintro rfl
    exact absent (mem_row.mpr (Or.inr (Or.inl member)))
  · rintro rfl
    exact absent behind

section Construct
variable (n : Int) {head tail : α} (apart : head ≠ tail) (heap : LinkHeap α)

private theorem construct_head (apart : head ≠ tail) : (construct n head tail heap).2 head = ⟨none, some tail⟩ := by
  simp [construct, makeNode, Links.ext_iff, apart, Links.unlinked]

private theorem construct_tail (apart : head ≠ tail) : (construct n head tail heap).2 tail = ⟨some head, none⟩ := by
  simp [construct, makeNode, Links.ext_iff, Ne.symm apart, Links.unlinked]

theorem construct_frame {other : α} (notHead : other ≠ head) (notTail : other ≠ tail) :
    (construct n head tail heap).2 other = heap other := by
  simp [construct, makeNode, Links.ext_iff, notHead, notTail]

end Construct

structure Shows (list : FreqList α) (heap : LinkHeap α) (sequence : List α) : Prop where
  forwards : visited (fun node => (heap node).next) list.tail_ (sequence.length + 1) list.head_ = some sequence
  backwards : visited (fun node => (heap node).pre) list.head_ (sequence.length + 1) list.tail_ = some sequence.reverse
  isEmpty : list.isEmpty heap = true ↔ sequence = []
  getFirstNode : list.getFirstNode heap = some (sequence.headD list.tail_)

theorem Holds.shows (holds : list.Holds heap sequence) : list.Shows heap sequence where
  forwards := holds.visits
  backwards := holds.visits_back
  isEmpty := by
    rw [FreqList.isEmpty, decide_eq_true_iff]
    exact holds.next_head_iff
  getFirstNode := holds.next_head

end FreqList

namespace FreqLists

def Has (state : FreqLists α) (sequences : Nat → List α) (i : Nat) (node : α) : Prop :=
  ∃ list : FreqList α, state.lists[i]? = some list ∧ node ∈ list.cells (sequences i)

/-- Every list is its sequence, on cells of its own, and what no list has is unlinked. -/
structure Faithful (state : FreqLists α) (sequences : Nat → List α) : Prop where
  holds : ∀ (i : Nat) (list : FreqList α), state.lists[i]? = some list → list.Holds state.heap (sequences i)
  apart : ∀ i j node, Has state sequences i node → Has state sequences j node → i = j
  alive : ∀ i node, Has state sequences i node → node ∈ state.made
  loose : ∀ node, (∀ i, ¬Has state sequences i node) → state.heap node = Links.unlinked
  beyond : ∀ i : Nat, state.lists[i]? = none → sequences i = []

variable {state : FreqLists α} {sequences : Nat → List α} {node : α}

theorem faithful_empty : Faithful (empty : FreqLists α) fun _ => [] where
  holds := by
    intro i list found
    cases found
  apart := by
    intro i j node ⟨list, found, _⟩
    cases found
  alive := by
    intro i node ⟨list, found, _⟩
    cases found
  loose := by
    intro node free
    rfl
  beyond := by
    intro i missing
    rfl

namespace Faithful

theorem linked (faithful : Faithful state sequences) {i : Nat} (has : Has state sequences i node) :
    state.heap node ≠ Links.unlinked := by
  obtain ⟨list, found, member⟩ := has
  exact (faithful.holds i list found).linked member

theorem free (faithful : Faithful state sequences) (loose : state.heap node = Links.unlinked) (i : Nat) :
    ¬Has state sequences i node := by
  intro has
  exact faithful.linked has loose

theorem has_of_mem (faithful : Faithful state sequences) {i : Nat} (member : node ∈ sequences i) :
    Has state sequences i node := by
  cases found : state.lists[i]? with
  | none =>
    rw [faithful.beyond i found] at member
    cases member
  | some list => exact ⟨list, found, mem_row.mpr (Or.inr (Or.inl member))⟩

theorem unique (faithful : Faithful state sequences) {i j : Nat} (first : node ∈ sequences i) (second : node ∈ sequences j) :
    i = j := by
  apply faithful.apart i j node
  · exact faithful.has_of_mem first
  · exact faithful.has_of_mem second

theorem nodup (faithful : Faithful state sequences) (i : Nat) : (sequences i).Nodup := by
  cases found : state.lists[i]? with
  | none =>
    rw [faithful.beyond i found]
    exact List.nodup_nil
  | some list =>
    have distinct := (faithful.holds i list found).distinct
    exact (List.nodup_append.mp (List.nodup_cons.mp distinct).2).1

theorem remake (faithful : Faithful state sequences) {made : List α}
    (alive : ∀ i node, Has state sequences i node → node ∈ made) : Faithful { state with made := made } sequences :=
  ⟨faithful.holds, faithful.apart, alive, faithful.loose, faithful.beyond⟩

end Faithful

section Writes
variable {i : Nat} {list : FreqList α} {heap : LinkHeap α} {sequence : List α}

/-- A call on one list: its cells change, what it takes was free, and what it leaves is. -/
structure Relinked (state : FreqLists α) (sequences : Nat → List α) (i : Nat) (list : FreqList α) (heap : LinkHeap α)
    (sequence : List α) : Prop where
  found : state.lists[i]? = some list
  holds : list.Holds heap sequence
  taken : ∀ node ∈ list.cells sequence, Has state sequences i node ∨ node ∈ state.made ∧ ∀ j, ¬Has state sequences j node
  left : ∀ node, Has state sequences i node → node ∉ list.cells sequence → heap node = Links.unlinked
  frame : ∀ node, ¬Has state sequences i node → node ∉ list.cells sequence → heap node = state.heap node

namespace Relinked

theorem has_self (relinked : Relinked state sequences i list heap sequence) :
    Has { state with heap := heap } (Function.update sequences i sequence) i node ↔ node ∈ list.cells sequence := by
  rw [Has, Function.update_self]
  constructor
  · intro ⟨other, found, member⟩
    rw [Option.some.inj (relinked.found.symm.trans found)]
    exact member
  · intro member
    exact ⟨list, relinked.found, member⟩

theorem has_other {j : Nat} (different : j ≠ i) :
    Has { state with heap := heap } (Function.update sequences i sequence) j node ↔ Has state sequences j node := by
  rw [Has, Function.update_of_ne different, Has]

theorem elsewhere (relinked : Relinked state sequences i list heap sequence) (faithful : Faithful state sequences) {j : Nat}
    (different : j ≠ i) (has : Has state sequences j node) : ¬Has state sequences i node ∧ node ∉ list.cells sequence := by
  have old : ¬Has state sequences i node := by
    intro inside
    exact different (faithful.apart j i node has inside)
  refine ⟨old, ?_⟩
  intro inside
  rcases relinked.taken node inside with inside | ⟨_, free⟩
  · exact old inside
  · exact free j has

theorem holds_each (relinked : Relinked state sequences i list heap sequence) (faithful : Faithful state sequences) (j : Nat)
    (other : FreqList α) (found : state.lists[j]? = some other) : other.Holds heap (Function.update sequences i sequence j) := by
  by_cases same : j = i
  · subst same
    rw [Function.update_self, ← Option.some.inj (relinked.found.symm.trans found)]
    exact relinked.holds
  · rw [Function.update_of_ne same]
    apply (faithful.holds j other found).congr
    intro node member
    obtain ⟨old, new⟩ := relinked.elsewhere faithful same ⟨other, found, member⟩
    exact relinked.frame node old new

theorem apart_each (relinked : Relinked state sequences i list heap sequence) (faithful : Faithful state sequences) (j k : Nat)
    (node : α) (first : Has { state with heap := heap } (Function.update sequences i sequence) j node)
    (second : Has { state with heap := heap } (Function.update sequences i sequence) k node) : j = k := by
  by_cases same : j = i
  · subst same
    by_contra different
    rw [relinked.has_self] at first
    rw [has_other (Ne.symm different)] at second
    exact (relinked.elsewhere faithful (Ne.symm different) second).2 first
  · rw [has_other same] at first
    by_cases other : k = i
    · subst other
      rw [relinked.has_self] at second
      exact absurd second (relinked.elsewhere faithful same first).2
    · rw [has_other other] at second
      exact faithful.apart j k node first second

theorem loose_each (relinked : Relinked state sequences i list heap sequence) (faithful : Faithful state sequences) (node : α)
    (free : ∀ j, ¬Has { state with heap := heap } (Function.update sequences i sequence) j node) :
    heap node = Links.unlinked := by
  have new := relinked.has_self.not.mp (free i)
  by_cases old : Has state sequences i node
  · exact relinked.left node old new
  · rw [relinked.frame node old new]
    apply faithful.loose
    intro j has
    by_cases same : j = i
    · exact old (same ▸ has)
    · exact free j ((has_other same).mpr has)

theorem faithful (relinked : Relinked state sequences i list heap sequence) (faithful : Faithful state sequences) :
    Faithful { state with heap := heap } (Function.update sequences i sequence) where
  holds := relinked.holds_each faithful
  apart := relinked.apart_each faithful
  alive := by
    intro j node has
    by_cases same : j = i
    · subst same
      rcases relinked.taken node (relinked.has_self.mp has) with old | ⟨made, _⟩
      · exact faithful.alive j node old
      · exact made
    · exact faithful.alive j node ((has_other same).mp has)
  loose := relinked.loose_each faithful
  beyond := by
    intro j missing
    have different : j ≠ i := by
      rintro rfl
      exact absurd (relinked.found.symm.trans missing) (Option.some_ne_none list)
    rw [Function.update_of_ne different]
    exact faithful.beyond j missing

end Relinked

theorem found_concat {lists : List (FreqList α)} {new other : FreqList α} :
    (lists ++ [new])[i]? = some other ↔ lists[i]? = some other ∨ i = lists.length ∧ other = new := by
  grind

/-- Two addresses that no live node has, for the dummies of a list. -/
structure Fresh (state : FreqLists α) (head tail : α) : Prop where
  first : head ∉ state.made
  last : tail ∉ state.made
  apart : head ≠ tail

theorem Fresh.other {head tail : α} (fresh : Fresh state head tail) (alive : node ∈ state.made) :
    node ≠ head ∧ node ≠ tail := by
  constructor
  · rintro rfl
    exact fresh.first alive
  · rintro rfl
    exact fresh.last alive

variable [DecidableEq α]

def constructed (n : Int) (head tail : α) (state : FreqLists α) : FreqLists α :=
  ⟨(FreqList.construct n head tail state.heap).2, head :: tail :: state.made,
    state.lists ++ [(FreqList.construct n head tail state.heap).1]⟩

section Construct
variable {n : Int} {head tail : α}

private theorem has_constructed (faithful : Faithful state sequences) : Has (constructed n head tail state) sequences i node ↔
    Has state sequences i node ∨ i = state.lists.length ∧ (node = head ∨ node = tail) := by
  have fresh : sequences state.lists.length = [] := faithful.beyond _ (List.getElem?_eq_none (Nat.le_refl _))
  have ends : node ∈ FreqList.cells (FreqList.construct n head tail state.heap).1 [] ↔ node = head ∨ node = tail := by
    simp [FreqList.cells, FreqList.construct]
  constructor
  · intro ⟨list, found, member⟩
    rcases found_concat.mp found with old | ⟨rfl, rfl⟩
    · exact Or.inl ⟨list, old, member⟩
    · rw [fresh] at member
      exact Or.inr ⟨rfl, ends.mp member⟩
  · rintro (⟨list, found, member⟩ | ⟨rfl, new⟩)
    · exact ⟨list, found_concat.mpr (Or.inl found), member⟩
    · refine ⟨_, found_concat.mpr (Or.inr ⟨rfl, rfl⟩), ?_⟩
      rw [fresh]
      exact ends.mpr new

theorem Faithful.construct (faithful : Faithful state sequences) (fresh : Fresh state head tail) :
    Faithful (constructed n head tail state) sequences := by
  have others : ∀ i node, Has state sequences i node → node ≠ head ∧ node ≠ tail := by
    intro i node has
    exact fresh.other (faithful.alive i node has)
  refine ⟨?_, ?_, ?_, ?_, ?_⟩
  · intro i list found
    rcases found_concat.mp found with old | ⟨rfl, rfl⟩
    · apply (faithful.holds i list old).congr
      intro node member
      obtain ⟨notHead, notTail⟩ := others i node ⟨list, old, member⟩
      exact FreqList.construct_frame n _ notHead notTail
    · rw [faithful.beyond _ (List.getElem?_eq_none (Nat.le_refl _))]
      exact Strung.empty fresh.apart (FreqList.construct_head n _ fresh.apart) (FreqList.construct_tail n _ fresh.apart)
  · intro i j node first second
    rw [has_constructed faithful] at first second
    rcases first with old | ⟨rfl, new⟩ <;> rcases second with older | ⟨rfl, newer⟩
    · exact faithful.apart i j node old older
    · exact (newer.elim (others i node old).1 (others i node old).2).elim
    · exact (new.elim (others j node older).1 (others j node older).2).elim
    · rfl
  · intro i node has
    rcases (has_constructed faithful).mp has with old | ⟨_, rfl | rfl⟩
    · exact List.mem_cons_of_mem _ (List.mem_cons_of_mem _ (faithful.alive i node old))
    · exact List.mem_cons_self
    · exact List.mem_cons_of_mem _ List.mem_cons_self
  · intro node free
    have strange : ¬(node = head ∨ node = tail) := by
      intro new
      exact free _ ((has_constructed faithful).mpr (Or.inr ⟨rfl, new⟩))
    obtain ⟨notHead, notTail⟩ := not_or.mp strange
    change (FreqList.construct n head tail state.heap).2 node = _
    rw [FreqList.construct_frame n _ notHead notTail]
    apply faithful.loose
    intro i has
    exact free i ((has_constructed faithful).mpr (Or.inl has))
  · intro i missing
    apply faithful.beyond
    apply List.getElem?_eq_none
    have far := List.getElem?_eq_none_iff.mp missing
    rw [constructed, List.length_append] at far
    exact Nat.le_trans (Nat.le_add_right _ _) far

end Construct

namespace Faithful

theorem makeNode_eq (faithful : Faithful state sequences) (free : ∀ i, ¬Has state sequences i node) :
    FreqList.makeNode node state.heap = state.heap := by
  rw [FreqList.makeNode, ← faithful.loose node free, Function.update_eq_self]

theorem addNode (faithful : Faithful state sequences) (found : state.lists[i]? = some list) (made : node ∈ state.made)
    (loose : state.heap node = Links.unlinked) : ∃ heap, list.addNode (some node) state.heap = some heap ∧
      Faithful { state with heap := heap } (Function.update sequences i (sequences i ++ [node])) := by
  have grows : ∀ other, other ∈ list.cells (sequences i ++ [node]) ↔ other ∈ list.cells (sequences i) ∨ other = node := by
    intro other
    simp only [FreqList.cells, mem_row, List.mem_append, List.mem_singleton]
    tauto
  have apart : node ∉ list.cells (sequences i) := by
    intro inside
    exact faithful.free loose i ⟨list, found, inside⟩
  obtain ⟨heap, added, holds, frame⟩ := FreqList.addNode_spec (faithful.holds i list found) apart
  refine ⟨heap, added, Relinked.faithful ⟨found, holds, ?_, ?_, ?_⟩ faithful⟩
  · intro other member
    rcases (grows other).mp member with old | rfl
    · exact Or.inl ⟨list, found, old⟩
    · exact Or.inr ⟨made, faithful.free loose⟩
  · rintro other ⟨same, foundSame, old⟩ gone
    rw [← Option.some.inj (found.symm.trans foundSame)] at old
    exact absurd ((grows other).mpr (Or.inl old)) gone
  · intro other _ new
    exact frame other new

theorem removeNode (faithful : Faithful state sequences) (found : state.lists[i]? = some list) (member : node ∈ sequences i) :
    ∃ heap, list.removeNode (some node) state.heap = some heap ∧
      Faithful { state with heap := heap } (Function.update sequences i ((sequences i).erase node)) ∧
      heap node = Links.unlinked := by
  obtain ⟨heap, removed, holds, unlinked, frame⟩ := FreqList.removeNode_spec (faithful.holds i list found) member
  refine ⟨heap, removed, Relinked.faithful ⟨found, holds, ?_, ?_, ?_⟩ faithful, unlinked⟩
  · intro other inside
    refine Or.inl ⟨list, found, ?_⟩
    simp only [FreqList.cells, mem_row] at inside ⊢
    exact inside.imp_right (Or.imp_left List.mem_of_mem_erase)
  · rintro other ⟨same, foundSame, old⟩ gone
    rw [← Option.some.inj (found.symm.trans foundSame)] at old
    have erased : other = node := by
      by_contra different
      simp only [FreqList.cells, mem_row, List.mem_erase_of_ne different] at old gone
      exact gone old
    rw [erased]
    exact unlinked
  · intro other absent _
    apply frame
    intro inside
    exact absent ⟨list, found, inside⟩

end Faithful
end Writes

def Dummy (state : FreqLists α) (node : α) : Prop := ∃ list ∈ state.lists, node = list.head_ ∨ node = list.tail_

/-- Neither an unlinked node nor a dummy is of a sequence, and one of its links is null. -/
theorem Faithful.idle (faithful : Faithful state sequences) (idle : state.heap node = Links.unlinked ∨ Dummy state node) :
    (∀ i, node ∉ sequences i) ∧ ((state.heap node).pre = none ∨ (state.heap node).next = none) := by
  rcases idle with loose | ⟨list, member, dummy⟩
  · refine ⟨?_, Or.inl (by rw [loose]; rfl)⟩
    intro i member
    exact faithful.free loose i (faithful.has_of_mem member)
  · obtain ⟨j, found⟩ := List.mem_iff_getElem?.mp member
    have holds := faithful.holds j list found
    constructor
    · intro i member
      have has : Has state sequences j node := ⟨list, found, mem_row.mpr (dummy.imp_right Or.inr)⟩
      have same : i = j := faithful.apart i j node (faithful.has_of_mem member) has
      subst same
      exact holds.ends_apart dummy member
    · rcases dummy with rfl | rfl
      · exact Or.inl holds.first
      · exact Or.inr holds.last

section Runs
variable [DecidableEq α]

/-- The nodes added to a list and not removed from it since, in the order of addition. -/
def record (event : ListEvent α) (_ : FreqLists α) (sequences : Nat → List α) : Nat → List α :=
  match event with
  | .addNode list (some node) => Function.update sequences list (sequences list ++ [node])
  | .removeNode list (some node) => Function.update sequences list ((sequences list).erase node)
  | _ => sequences

def watched : Machine (FreqLists α × (Nat → List α)) (ListEvent α) := machine.watch record

/-- What the cache calls: a live node is added that is unlinked, and what is removed is of the
list, or unlinked, or a dummy. -/
def Allowed : ListEvent α → FreqLists α × (Nat → List α) → Prop
  | .addNode _ (some node), (state, _) => node ∈ state.made ∧ state.heap node = Links.unlinked
  | .removeNode list (some node), (state, sequences) =>
    node ∈ sequences list ∨ state.heap node = Links.unlinked ∨ Dummy state node
  | _, _ => True

instance Dummy.decidable (state : FreqLists α) (node : α) : Decidable (Dummy state node) :=
  inferInstanceAs (Decidable (∃ list ∈ state.lists, node = list.head_ ∨ node = list.tail_))

instance Allowed.decidable (event : ListEvent α) (current : FreqLists α × (Nat → List α)) :
    Decidable (Allowed event current) :=
  match event, current with
  | .addNode _ (some node), (state, _) => inferInstanceAs (Decidable (node ∈ state.made ∧ state.heap node = Links.unlinked))
  | .removeNode list (some node), (state, sequences) =>
    inferInstanceAs (Decidable (node ∈ sequences list ∨ state.heap node = Links.unlinked ∨ Dummy state node))
  | .addNode _ none, _ => isTrue trivial
  | .removeNode _ none, _ => isTrue trivial
  | .construct _ _ _, _ => isTrue trivial
  | .makeNode _, _ => isTrue trivial
  | .release _, _ => isTrue trivial

/-- An allowed call of a list returns, and keeps the list its sequence. -/
theorem Faithful.call (faithful : Faithful state sequences) {i : Nat} {list : FreqList α} (found : state.lists[i]? = some list)
    (node : Option α) :
    (Allowed (.addNode i node) (state, sequences) → ∃ heap, list.addNode node state.heap = some heap ∧
      Faithful { state with heap := heap } (record (.addNode i node) state sequences)) ∧
    (Allowed (.removeNode i node) (state, sequences) → ∃ heap, list.removeNode node state.heap = some heap ∧
      Faithful { state with heap := heap } (record (.removeNode i node) state sequences)) := by
  cases node with
  | none => exact ⟨fun _ => ⟨state.heap, rfl, faithful⟩, fun _ => ⟨state.heap, rfl, faithful⟩⟩
  | some node =>
    constructor
    · intro ⟨made, loose⟩
      exact faithful.addNode found made loose
    · intro allowed
      rcases allowed with member | idle
      · obtain ⟨heap, removed, kept, _⟩ := faithful.removeNode found member
        exact ⟨heap, removed, kept⟩
      · obtain ⟨absent, null⟩ := faithful.idle idle
        refine ⟨state.heap, FreqList.removeNode_loose null, ?_⟩
        rw [record, List.erase_of_not_mem (absent i), Function.update_eq_self]
        exact faithful

theorem step_addNode {i : Nat} {list : FreqList α} (found : state.lists[i]? = some list) (node : Option α) :
    step (.addNode i node) state = (list.addNode node state.heap).map fun heap => { state with heap := heap } := by
  simp only [step, found, Option.bind_eq_bind, Option.bind_some, Option.pure_def, Option.map_eq_bind, Function.comp_def]

theorem step_removeNode {i : Nat} {list : FreqList α} (found : state.lists[i]? = some list) (node : Option α) :
    step (.removeNode i node) state = (list.removeNode node state.heap).map fun heap => { state with heap := heap } := by
  simp only [step, found, Option.bind_eq_bind, Option.bind_some, Option.pure_def, Option.map_eq_bind, Function.comp_def]

theorem step_construct {n : Int} {head tail : α} (fresh : Fresh state head tail) :
    step (.construct n head tail) state = some (constructed n head tail state) := by
  simp [step, constructed, fresh.first, fresh.last, fresh.apart]

theorem step_faithful (event : ListEvent α) (before after : FreqLists α × (Nat → List α)) (allowed : Allowed event before)
    (faithful : Faithful before.1 before.2) (stepped : watched.step event before = some after) : Faithful after.1 after.2 := by
  obtain ⟨moved, recorded⟩ := Machine.watch_step.mp stepped
  obtain ⟨state, sequences⟩ := before
  change step event state = some after.1 at moved
  rw [recorded]
  cases event with
  | construct n head tail =>
    by_cases used : head ∈ state.made ∨ tail ∈ state.made ∨ head = tail
    · rw [step, if_pos used] at moved
      cases moved
    · simp only [not_or] at used
      have fresh : Fresh state head tail := ⟨used.1, used.2.1, used.2.2⟩
      rw [step_construct fresh] at moved
      rw [← Option.some.inj moved]
      exact faithful.construct fresh
  | makeNode node =>
    simp only [step] at moved
    split at moved
    next => cases moved
    next fresh =>
      rw [faithful.makeNode_eq (fun i has => fresh (faithful.alive i node has))] at moved
      rw [← Option.some.inj moved]
      exact faithful.remake fun i other has => List.mem_cons_of_mem _ (faithful.alive i other has)
  | release node =>
    simp only [step] at moved
    split at moved
    next loose =>
      rw [← Option.some.inj moved]
      apply faithful.remake
      intro i other has
      refine List.mem_filter.mpr ⟨faithful.alive i other has, decide_eq_true ?_⟩
      rintro rfl
      exact faithful.free loose i has
    next => cases moved
  | addNode i node =>
    obtain ⟨list, found, _⟩ := Option.bind_eq_some_iff.mp moved
    obtain ⟨heap, added, kept⟩ := (faithful.call found node).1 allowed
    rw [step_addNode found, added] at moved
    rw [← Option.some.inj moved]
    exact kept
  | removeNode i node =>
    obtain ⟨list, found, _⟩ := Option.bind_eq_some_iff.mp moved
    obtain ⟨heap, removed, kept⟩ := (faithful.call found node).2 allowed
    rw [step_removeNode found, removed] at moved
    rw [← Option.some.inj moved]
    exact kept

theorem run_faithful {events : List (ListEvent α)} {final : FreqLists α × (Nat → List α)}
    (reached : watched.run events (empty, fun _ => []) = some final)
    (along : watched.Along Allowed events (empty, fun _ => [])) : Faithful final.1 final.2 :=
  Machine.run_invariant step_faithful reached along faithful_empty

/-- In every state that the calls lead to, each list shows the nodes added to it and not
removed since, no node is in two lists, removing an unlinked node or a dummy does nothing,
and no allowed call goes through a null pointer. -/
theorem lists_are_sequences {events : List (ListEvent α)} {final : FreqLists α × (Nat → List α)}
    (reached : watched.run events (empty, fun _ => []) = some final)
    (along : watched.Along Allowed events (empty, fun _ => [])) :
    (∀ (i : Nat) (list : FreqList α), final.1.lists[i]? = some list → list.Shows final.1.heap (final.2 i)) ∧
    (∀ i, (final.2 i).Nodup) ∧ (∀ i j node, node ∈ final.2 i → node ∈ final.2 j → i = j) ∧
    (∀ list ∈ final.1.lists, ∀ node, final.1.heap node = Links.unlinked ∨ Dummy final.1 node →
      list.removeNode (some node) final.1.heap = some final.1.heap) ∧
    ∀ (i : Nat) (list : FreqList α) (node : Option α), final.1.lists[i]? = some list →
      (Allowed (.addNode i node) final → (list.addNode node final.1.heap).isSome) ∧
      (Allowed (.removeNode i node) final → (list.removeNode node final.1.heap).isSome) := by
  have faithful := run_faithful reached along
  refine ⟨?_, faithful.nodup, ?_, ?_, ?_⟩
  · intro i list found
    exact (faithful.holds i list found).shows
  · intro i j node first second
    exact faithful.unique first second
  · intro list _ node idle
    exact FreqList.removeNode_loose (faithful.idle idle).2
  · intro i list node found
    obtain ⟨adds, removes⟩ := faithful.call found node
    constructor
    · intro allowed
      obtain ⟨heap, added, _⟩ := adds allowed
      rw [added]
      rfl
    · intro allowed
      obtain ⟨heap, removed, _⟩ := removes allowed
      rw [removed]
      rfl

/-- Two lists, a node that moves from one to the other, and the dummy of one removed from the other. -/
theorem lists_are_sequences_two : ∃ final : FreqLists Nat × (Nat → List Nat),
    watched.run [.construct 1 0 1, .construct 2 2 3, .makeNode 4, .makeNode 5, .addNode 0 (some 4), .addNode 0 (some 5),
      .removeNode 0 (some 4), .addNode 1 (some 4), .removeNode 0 (some 3)] (empty, fun _ => []) = some final ∧
    final.2 0 = [5] ∧ final.2 1 = [4] ∧ FreqList.Shows ⟨1, 0, 1⟩ final.1.heap [5] ∧
    FreqList.Shows ⟨2, 2, 3⟩ final.1.heap [4] := by
  have along : watched.Along Allowed [.construct 1 0 1, .construct 2 2 3, .makeNode 4, .makeNode 5, .addNode 0 (some 4),
      .addNode 0 (some 5), .removeNode 0 (some 4), .addNode 1 (some 4), .removeNode 0 (some 3)]
      ((empty, fun _ => []) : FreqLists Nat × (Nat → List Nat)) := by decide
  obtain ⟨final, reached⟩ : ∃ final : FreqLists Nat × (Nat → List Nat),
      watched.run [.construct 1 0 1, .construct 2 2 3, .makeNode 4, .makeNode 5, .addNode 0 (some 4), .addNode 0 (some 5),
        .removeNode 0 (some 4), .addNode 1 (some 4), .removeNode 0 (some 3)] (empty, fun _ => []) = some final := ⟨_, rfl⟩
  obtain ⟨shows, _⟩ := lists_are_sequences reached along
  have sequences : final.2 0 = [5] ∧ final.2 1 = [4] ∧ final.1.lists[0]? = some ⟨1, 0, 1⟩ ∧
      final.1.lists[1]? = some ⟨2, 2, 3⟩ := by
    cases reached
    decide
  obtain ⟨first, second, foundFirst, foundSecond⟩ := sequences
  have showsFirst := shows 0 _ foundFirst
  have showsSecond := shows 1 _ foundSecond
  rw [first] at showsFirst
  rw [second] at showsSecond
  exact ⟨final, reached, first, second, showsFirst, showsSecond⟩

end Runs

end FreqLists
end Webserver
