import Mathlib.Logic.Function.Basic
import Mathlib.Data.List.Nodup

/-! Linked lists in a memory: each node's word leads to the next one and the last
leads to the null pointer. -/

namespace Webserver.Library

universe u
variable {α : Type u}

/-- The list of the nodes that lead from `head` to `null`. -/
def Chain (next : α → α) (null : α) : α → List α → Prop
  | head, [] => head = null
  | head, node :: rest => head = node ∧ node ≠ null ∧ Chain next null (next node) rest

/-- A node of the list that `head` leads to. -/
def Chained (next : α → α) (null head node : α) : Prop := ∃ nodes, Chain next null head nodes ∧ node ∈ nodes

namespace Chain
variable {next : α → α} {null head : α} {nodes : List α}

theorem unique {other : List α} (first : Chain next null head nodes) (second : Chain next null head other) :
    nodes = other := by
  induction nodes generalizing head other with
  | nil =>
    cases other with
    | nil => rfl
    | cons node rest =>
      obtain ⟨rfl, some, _⟩ := second
      exact absurd first some
  | cons node rest ih =>
    obtain ⟨rfl, some, tail⟩ := first
    cases other with
    | nil => exact absurd second some
    | cons other others =>
      obtain ⟨rfl, _, others⟩ := second
      rw [ih tail others]

theorem chained_iff (chain : Chain next null head nodes) (node : α) : Chained next null head node ↔ node ∈ nodes := by
  constructor
  · intro ⟨other, along, member⟩
    rwa [chain.unique along]
  · intro member
    exact ⟨nodes, chain, member⟩

theorem null_iff (chain : Chain next null head nodes) : head = null ↔ nodes = [] := by
  cases nodes with
  | nil => exact iff_of_true chain rfl
  | cons node rest =>
    obtain ⟨rfl, some, _⟩ := chain
    exact iff_of_false some (List.cons_ne_nil _ _)

/-- A list that does not end at once has a first node, and the rest follows it. -/
theorem uncons (chain : Chain next null head nodes) (some : head ≠ null) :
    ∃ rest, nodes = head :: rest ∧ Chain next null (next head) rest := by
  cases nodes with
  | nil => exact absurd chain some
  | cons node rest =>
    obtain ⟨rfl, _, tail⟩ := chain
    exact ⟨rest, rfl, tail⟩

/-- The word of what is not a node may be anything. -/
theorem update [DecidableEq α] (chain : Chain next null head nodes) {slot : α} (absent : slot ∉ nodes) (value : α) :
    Chain (Function.update next slot value) null head nodes := by
  induction nodes generalizing head with
  | nil => exact chain
  | cons node rest ih =>
    obtain ⟨rfl, some, tail⟩ := chain
    obtain ⟨other, absent⟩ := not_or.mp (List.mem_cons.not.mp absent)
    refine ⟨rfl, some, ?_⟩
    rw [Function.update_of_ne (Ne.symm other)]
    exact ih tail absent

/-- A new node is put in front by storing the old head in it. -/
theorem push [DecidableEq α] (chain : Chain next null head nodes) {slot : α} (absent : slot ∉ nodes) (some : slot ≠ null) :
    Chain (Function.update next slot head) null slot (slot :: nodes) := by
  refine ⟨rfl, some, ?_⟩
  rw [Function.update_self]
  exact chain.update absent head

end Chain

theorem not_chained_null (next : α → α) (null node : α) : ¬Chained next null null node := by
  intro ⟨nodes, chain, member⟩
  rw [chain.null_iff.mp rfl] at member
  cases member

end Webserver.Library
