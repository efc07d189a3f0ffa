import Mathlib.Data.List.AList
import Webserver.Library.DoublyLinked
import Webserver.Library.Machine

/-! The `FreqList`s of `LFU.h` on one heap of links. A null pointer is `none`, and a function
that goes through one has no result. The other fields of the nodes are in the cache. -/

namespace Webserver
open Library

universe u

/-- `make_shared` never returns a null pointer, so the tests of `head_` and `tail_` always succeed. -/
structure FreqList (α : Type u) where
  freq_ : Int
  head_ : α
  tail_ : α
  deriving DecidableEq

namespace FreqList
variable {α : Type u} [DecidableEq α]

/-- `make_shared<Node>` at an address. -/
def makeNode (node : α) (heap : LinkHeap α) : LinkHeap α := Function.update heap node Links.unlinked

/-- The constructor, with the addresses of its two dummy nodes. -/
def construct (n : Int) (head tail : α) (heap : LinkHeap α) : FreqList α × LinkHeap α :=
  let made := makeNode tail (makeNode head heap)
  (⟨n, head, tail⟩, (made.setNext head (some tail)).setPre tail (some head))

def isEmpty (list : FreqList α) (heap : LinkHeap α) : Bool := (heap list.head_).next = some list.tail_

def addNode (list : FreqList α) (node : Option α) (heap : LinkHeap α) : Option (LinkHeap α) :=
  match node with
  | none => some heap
  | some node => do
    let heap := heap.setPre node (heap list.tail_).pre
    let heap := heap.setNext node (some list.tail_)
    let last ← (heap list.tail_).pre
    let heap := heap.setNext last (some node)
    return heap.setPre list.tail_ (some node)

/-- Nothing but the test of its dummy nodes depends on the list. -/
def removeNode (_ : FreqList α) (node : Option α) (heap : LinkHeap α) : Option (LinkHeap α) :=
  match node with
  | none => some heap
  | some node =>
    if (heap node).pre = none ∨ (heap node).next = none then some heap
    else do
      let pre ← (heap node).pre
      let heap := heap.setNext pre (heap node).next
      let next ← (heap node).next
      let heap := heap.setPre next (heap node).pre
      return (heap.setPre node none).setNext node none

def getFirstNode (list : FreqList α) (heap : LinkHeap α) : Option α := (heap list.head_).next

end FreqList

/-- Every list that was made, with the addresses of the nodes that are alive. -/
structure FreqLists (α : Type u) where
  heap : LinkHeap α
  made : List α
  lists : List (FreqList α)

inductive ListEvent (α : Type u) where
  | construct (n : Int) (head tail : α)
  | makeNode (node : α)
  | release (node : α)
  | addNode (list : Nat) (node : Option α)
  | removeNode (list : Nat) (node : Option α)

namespace FreqLists
variable {α : Type u} [DecidableEq α]

def empty : FreqLists α := ⟨fun _ => Links.unlinked, [], []⟩

/-- A new node has an address that no live one has. The last pointer to a node may go when
the node is in no list. -/
def step (event : ListEvent α) (state : FreqLists α) : Option (FreqLists α) :=
  match event with
  | .construct n head tail =>
    if head ∈ state.made ∨ tail ∈ state.made ∨ head = tail then none
    else
      let (list, heap) := FreqList.construct n head tail state.heap
      some ⟨heap, head :: tail :: state.made, state.lists ++ [list]⟩
  | .makeNode node =>
    if node ∈ state.made then none
    else some { state with heap := FreqList.makeNode node state.heap, made := node :: state.made }
  | .release node =>
    if state.heap node = Links.unlinked then some { state with made := state.made.filter (· ≠ node) } else none
  | .addNode list node => do
    let list ← state.lists[list]?
    let heap ← list.addNode node state.heap
    return { state with heap := heap }
  | .removeNode list node => do
    let list ← state.lists[list]?
    let heap ← list.removeNode node state.heap
    return { state with heap := heap }

def machine : Machine (FreqLists α) (ListEvent α) := ⟨step⟩

end FreqLists

/-- What `freqToFreqList_` leads to: the position of the list in the order of construction. -/
structure LinkedLists (α : Type u) where
  lists : FreqLists α
  freqToFreqList_ : AList fun _ : Int => Nat

namespace LinkedLists
variable {α : Type u} [DecidableEq α]

/-- A call of the list that `freqToFreqList_` leads to. -/
def call (event : Nat → ListEvent α) (freq : Int) (linked : LinkedLists α) : Option (LinkedLists α) :=
  (linked.freqToFreqList_.lookup freq).bind fun list =>
    (FreqLists.step (event list) linked.lists).map fun lists => { linked with lists := lists }

/-- `freq` is that of the node. -/
def removeFromFreqList (freq : Int) (node : Option α) (linked : LinkedLists α) : Option (LinkedLists α) :=
  match node with
  | none => some linked
  | some node => linked.call (.removeNode · (some node)) freq

/-- The test in `addToFreqList`, with the addresses for the dummies of a new list. -/
def makeList (freq : Int) (head tail : α) (linked : LinkedLists α) : Option (LinkedLists α) :=
  match linked.freqToFreqList_.lookup freq with
  | none => (FreqLists.step (.construct freq head tail) linked.lists).map fun lists =>
    ⟨lists, linked.freqToFreqList_.insert freq linked.lists.lists.length⟩
  | some _ => some linked

def addToFreqList (freq : Int) (node : Option α) (head tail : α) (linked : LinkedLists α) : Option (LinkedLists α) :=
  match node with
  | none => some linked
  | some node => (linked.makeList freq head tail).bind (call (.addNode · (some node)) freq)

/-- What `kickOut` takes from the list of `minFreq_`. -/
def firstNode (freq : Int) (linked : LinkedLists α) : Option (Option α) :=
  (linked.freqToFreqList_.lookup freq).bind fun list =>
    linked.lists.lists[list]?.map fun list => list.getFirstNode linked.lists.heap

end LinkedLists
end Webserver
