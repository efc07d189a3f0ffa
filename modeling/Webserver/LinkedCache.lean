import Mathlib.Data.List.Range
import Webserver.FreqList
import Webserver.LFU

/-! The cache of `LFU.h` with its nodes at addresses: the map leads to addresses and the
lists are linked. The nodes of a list that is forgotten stay allocated, since their links
hold one another. -/

namespace Webserver
open Library

universe u v w

/-- Addresses for `new` and `make_shared`, each one that no live node has. -/
structure Allocator (α : Type u) where
  make : List α → α
  fresh : ∀ made, make made ∉ made

/-- The order in which a loop over `nodeMap_` visits so many entries, by position. -/
structure Visit where
  positions : Nat → List Nat
  perm : ∀ n, (positions n).Perm (List.range n)

namespace Visit

def arrange {β : Type u} (visit : Visit) (items : List β) : List β :=
  (visit.positions items.length).filterMap fun i => items[i]?

theorem filterMap_range {β : Type u} (items : List β) : ((List.range items.length).filterMap fun i => items[i]?) = items := by
  induction items with
  | nil => rfl
  | cons item items ih =>
    rw [List.length_cons, List.range_succ_eq_map, List.filterMap_cons, List.filterMap_map]
    exact congrArg (item :: ·) ih

theorem arrange_perm {β : Type u} (visit : Visit) (items : List β) : (visit.arrange items).Perm items := by
  have ordered := (visit.perm items.length).filterMap fun i => items[i]?
  rwa [filterMap_range] at ordered

theorem arrange_map {β : Type u} {γ : Type v} (visit : Visit) (f : β → γ) (items : List β) :
    visit.arrange (items.map f) = (visit.arrange items).map f := by
  simp [arrange, List.map_filterMap]

/-- The same order on the nodes of a cache without addresses. -/
def order (visit : Visit) : RLfuCache.Order := ⟨visit.arrange, visit.arrange_perm⟩

end Visit

open RLfuCache (Node INT8_MAX decayed average) in
structure LinkedCache (α : Type u) (Key : Type v) (Value : Type w) where
  capacity_ : Nat
  minFreq_ : Int
  maxAverageNum_ : Int
  curAverageNum_ : Int
  curTotalNum_ : Int
  nodeMap_ : AList fun _ : Key => α
  linked : LinkedLists α
  nodes : α → Node Key Value

namespace LinkedCache
open RLfuCache (Node INT8_MAX decayed average)

variable {α : Type u} {Key : Type v} {Value : Type w}

/-- `Node()`, of which the dummies are. -/
def emptyNode [Inhabited Key] [Inhabited Value] : Node Key Value := ⟨1, default, default⟩

def new [Inhabited Key] [Inhabited Value] (capacity : Nat) (maxAverageNum : Int) : LinkedCache α Key Value where
  capacity_ := capacity
  minFreq_ := INT8_MAX
  maxAverageNum_ := maxAverageNum
  curAverageNum_ := 0
  curTotalNum_ := 0
  nodeMap_ := ∅
  linked := ⟨FreqLists.empty, ∅⟩
  nodes := fun _ => emptyNode

def size (cache : LinkedCache α Key Value) : Nat := cache.nodeMap_.entries.length

def freq (cache : LinkedCache α Key Value) (node : α) : Int := (cache.nodes node).freq

/-- The nodes of `nodeMap_`. -/
def residents (cache : LinkedCache α Key Value) : List α := cache.nodeMap_.entries.map Sigma.snd

section Lists
variable [DecidableEq α]

/-- A null pointer is no list that `isEmpty` could be asked of. -/
def isEmpty (cache : LinkedCache α Key Value) (list : Nat) : Bool :=
  cache.linked.lists.lists[list]?.all fun list => list.isEmpty cache.linked.lists.heap

def setFreq (cache : LinkedCache α Key Value) (node : α) (freq : Int) : LinkedCache α Key Value :=
  { cache with nodes := Function.update cache.nodes node { cache.nodes node with freq := freq } }

def setValue (cache : LinkedCache α Key Value) (node : α) (value : Value) : LinkedCache α Key Value :=
  { cache with nodes := Function.update cache.nodes node { cache.nodes node with value := value } }

def removeFromFreqList (cache : LinkedCache α Key Value) (node : α) : Option (LinkedCache α Key Value) :=
  (cache.linked.removeFromFreqList (cache.freq node) (some node)).map fun linked => { cache with linked := linked }

/-- A list that has to be made brings two dummies. -/
def addToFreqList [Inhabited Key] [Inhabited Value] (allocator : Allocator α) (cache : LinkedCache α Key Value) (node : α) :
    Option (LinkedCache α Key Value) :=
  let head := allocator.make cache.linked.lists.made
  let tail := allocator.make (head :: cache.linked.lists.made)
  let nodes :=
    if (cache.linked.freqToFreqList_.lookup (cache.freq node)).isSome then cache.nodes
    else Function.update (Function.update cache.nodes head emptyNode) tail emptyNode
  (cache.linked.addToFreqList (cache.freq node) (some node) head tail).map fun linked =>
    { cache with linked := linked, nodes := nodes }

def updateMinFreq (cache : LinkedCache α Key Value) : LinkedCache α Key Value :=
  let least := cache.linked.freqToFreqList_.entries.foldl
    (fun least list => if cache.isEmpty list.2 then least else min least list.1) INT8_MAX
  { cache with minFreq_ := if least = INT8_MAX then 1 else least }

/-- After the move of `node`: its old list may have been that of `minFreq_` and be empty now. -/
def raiseMinFreq (cache : LinkedCache α Key Value) (node : α) : Option (LinkedCache α Key Value) :=
  if cache.freq node - 1 = cache.minFreq_ then
    (cache.linked.freqToFreqList_.lookup (cache.freq node - 1)).map fun list =>
      if cache.isEmpty list then { cache with minFreq_ := cache.minFreq_ + 1 } else cache
  else some cache

def decreaseFreqNum (cache : LinkedCache α Key Value) (num : Int) : LinkedCache α Key Value :=
  { cache with
    curTotalNum_ := cache.curTotalNum_ - num
    curAverageNum_ := average (cache.curTotalNum_ - num) cache.size }

/-- The last pointer to a node goes: the node goes with it, unless a list has it. -/
def release (cache : LinkedCache α Key Value) (node : α) : LinkedCache α Key Value :=
  { cache with linked := { cache.linked with
      lists := (FreqLists.step (.release node) cache.linked.lists).getD cache.linked.lists } }

variable [Inhabited Key] [Inhabited Value] (allocator : Allocator α)

/-- The three lines that `getInternal` and `handleOverMaxAverageNum` share. -/
def changeFreq (cache : LinkedCache α Key Value) (node : α) (freq : Int) : Option (LinkedCache α Key Value) := do
  let removed ← cache.removeFromFreqList node
  (removed.setFreq node freq).addToFreqList allocator node

def handleOverMaxAverageNum (visit : Visit) (cache : LinkedCache α Key Value) : Option (LinkedCache α Key Value) := do
  if cache.residents.isEmpty then
    return cache
  let moved ← (visit.arrange cache.residents).foldlM
    (fun cache node => cache.changeFreq allocator node (decayed cache.maxAverageNum_ (cache.freq node))) cache
  return moved.updateMinFreq

def addFreqNum (visit : Visit) (cache : LinkedCache α Key Value) : Option (LinkedCache α Key Value) :=
  let counted := { cache with
    curTotalNum_ := cache.curTotalNum_ + 1
    curAverageNum_ := average (cache.curTotalNum_ + 1) cache.size }
  if counted.curAverageNum_ > counted.maxAverageNum_ then counted.handleOverMaxAverageNum allocator visit else some counted

def getInternal (visit : Visit) (node : α) (cache : LinkedCache α Key Value) :
    Option (Value × LinkedCache α Key Value) := do
  let value := (cache.nodes node).value
  let moved ← cache.changeFreq allocator node (cache.freq node + 1)
  let raised ← moved.raiseMinFreq node
  let counted ← raised.addFreqNum allocator visit
  return (value, counted)

variable [DecidableEq Key]

def eraseKey (cache : LinkedCache α Key Value) (key : Key) : LinkedCache α Key Value :=
  { cache with nodeMap_ := cache.nodeMap_.erase key }

/-- The first node of an empty list is its dummy. -/
def kickOut (cache : LinkedCache α Key Value) : Option (LinkedCache α Key Value) :=
  (cache.linked.firstNode cache.minFreq_).bind fun first =>
    first.bind fun node =>
      (cache.removeFromFreqList node).map fun removed =>
        ((removed.eraseKey (cache.nodes node).key).decreaseFreqNum (cache.freq node)).release node

/-- The test at the start of `putInternal`. -/
def makeRoom (cache : LinkedCache α Key Value) : Option (LinkedCache α Key Value) :=
  if cache.size = cache.capacity_ then cache.kickOut else some cache

/-- `make_shared<Node>(key, value)` and its entry in `nodeMap_`. -/
def newNode (cache : LinkedCache α Key Value) (key : Key) (value : Value) : Option (LinkedCache α Key Value) :=
  let node := allocator.make cache.linked.lists.made
  (FreqLists.step (.makeNode node) cache.linked.lists).map fun lists =>
    { cache with
      linked := { cache.linked with lists := lists }
      nodes := Function.update cache.nodes node ⟨1, key, value⟩
      nodeMap_ := cache.nodeMap_.insert key node }

def putInternal (visit : Visit) (key : Key) (value : Value) (cache : LinkedCache α Key Value) :
    Option (LinkedCache α Key Value) := do
  let freed ← cache.makeRoom
  let node := allocator.make freed.linked.lists.made
  let made ← freed.newNode allocator key value
  let added ← made.addToFreqList allocator node
  let counted ← added.addFreqNum allocator visit
  return { counted with minFreq_ := min counted.minFreq_ 1 }

def put (visit : Visit) (key : Key) (value : Value) (cache : LinkedCache α Key Value) : Option (LinkedCache α Key Value) :=
  if cache.capacity_ = 0 then some cache
  else
    match cache.nodeMap_.lookup key with
    | some node => ((cache.setValue node value).getInternal allocator visit node).map Prod.snd
    | none => cache.putInternal allocator visit key value

/-- A miss leaves the cache as it is. -/
def get (visit : Visit) (key : Key) (cache : LinkedCache α Key Value) :
    Option (Option Value × LinkedCache α Key Value) :=
  match cache.nodeMap_.lookup key with
  | some node => (cache.getInternal allocator visit node).map fun found => (some found.1, found.2)
  | none => some (none, cache)

end Lists

/-- The lists are forgotten, not deleted. -/
def purge (cache : LinkedCache α Key Value) : LinkedCache α Key Value :=
  { cache with nodeMap_ := ∅, linked := { cache.linked with freqToFreqList_ := ∅ } }

end LinkedCache

/-- An operation, with the order of its loop and the addresses that it gets. -/
inductive LinkedEvent (α : Type u) (Key : Type v) (Value : Type w) where
  | put (key : Key) (value : Value) (visit : Visit) (allocator : Allocator α)
  | get (key : Key) (visit : Visit) (allocator : Allocator α)
  | purge

/-- The same operation of a cache without addresses. -/
def LinkedEvent.plain {α : Type u} {Key : Type v} {Value : Type w} : LinkedEvent α Key Value → RLfuCache.CacheEvent Key Value
  | .put key value visit _ => .put key value visit.order
  | .get key visit _ => .get key visit.order
  | .purge => .purge

namespace LinkedCache
variable {α : Type u} {Key : Type v} {Value : Type w} [DecidableEq α] [DecidableEq Key] [Inhabited Key] [Inhabited Value]

def step (event : LinkedEvent α Key Value) (cache : LinkedCache α Key Value) : Option (LinkedCache α Key Value) :=
  match event with
  | .put key value visit allocator => cache.put allocator visit key value
  | .get key visit allocator => (cache.get allocator visit key).map Prod.snd
  | .purge => some cache.purge

def machine : Machine (LinkedCache α Key Value) (LinkedEvent α Key Value) := ⟨step⟩

end LinkedCache
end Webserver
