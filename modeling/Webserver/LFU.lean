import Mathlib.Data.List.AList
import Webserver.Library.Machine

/-! The cache of `LFU.h`. Nodes live on a heap, so that the map and the lists share
them; the lists are kept without their links and dummy nodes. -/

namespace Webserver
open Library

universe u v

namespace RLfuCache

/-- `pre` and `next` are the place of the node in its list. -/
structure Node (Key : Type u) (Value : Type v) where
  freq : Int
  key : Key
  value : Value
  deriving DecidableEq

abbrev NodePtr := Nat

/-- The loop over an `unordered_map` visits its nodes in any order. -/
structure Order where
  visit : List NodePtr → List NodePtr
  perm : ∀ nodes, (visit nodes).Perm nodes

instance : Inhabited Order := ⟨⟨fun nodes => nodes, fun _ => List.Perm.refl _⟩⟩

def INT8_MAX : Int := 127

end RLfuCache

/-- The counters are unbounded. `nodes` is the heap, with `allocated` nodes in use so far;
a node that was never made is as `Node()` leaves it, and so are the dummies of the lists. -/
structure RLfuCache (Key : Type u) (Value : Type v) where
  capacity_ : Nat
  minFreq_ : Int
  maxAverageNum_ : Int
  curAverageNum_ : Int
  curTotalNum_ : Int
  nodeMap_ : AList fun _ : Key => RLfuCache.NodePtr
  freqToFreqList_ : AList fun _ : Int => List RLfuCache.NodePtr
  nodes : RLfuCache.NodePtr → RLfuCache.Node Key Value
  allocated : Nat

namespace RLfuCache
variable {Key : Type u} {Value : Type v}

def new [Inhabited Key] [Inhabited Value] (capacity : Nat) (maxAverageNum : Int) : RLfuCache Key Value where
  capacity_ := capacity
  minFreq_ := INT8_MAX
  maxAverageNum_ := maxAverageNum
  curAverageNum_ := 0
  curTotalNum_ := 0
  nodeMap_ := ∅
  freqToFreqList_ := ∅
  nodes := fun _ => ⟨1, default, default⟩
  allocated := 0

def size (cache : RLfuCache Key Value) : Nat := cache.nodeMap_.entries.length

def freq (cache : RLfuCache Key Value) (node : NodePtr) : Int := (cache.nodes node).freq

/-- The nodes of `nodeMap_`. -/
def residents (cache : RLfuCache Key Value) : List NodePtr := cache.nodeMap_.entries.map Sigma.snd

/-- A list that was never made is empty. -/
def bucket (cache : RLfuCache Key Value) (freq : Int) : List NodePtr := (cache.freqToFreqList_.lookup freq).getD []

def setFreq (cache : RLfuCache Key Value) (node : NodePtr) (freq : Int) : RLfuCache Key Value :=
  { cache with nodes := Function.update cache.nodes node { cache.nodes node with freq := freq } }

def setValue (cache : RLfuCache Key Value) (node : NodePtr) (value : Value) : RLfuCache Key Value :=
  { cache with nodes := Function.update cache.nodes node { cache.nodes node with value := value } }

/-- `removeNode` unlinks the node from the list it is in, which is that of its own
`freq`. There is no result when the pointer to that list is null. -/
def removeFromFreqList (cache : RLfuCache Key Value) (node : NodePtr) : Option (RLfuCache Key Value) :=
  (cache.freqToFreqList_.lookup (cache.freq node)).map fun list =>
    { cache with freqToFreqList_ := cache.freqToFreqList_.insert (cache.freq node) (list.erase node) }

def addToFreqList (cache : RLfuCache Key Value) (node : NodePtr) : RLfuCache Key Value :=
  { cache with
    freqToFreqList_ := cache.freqToFreqList_.insert (cache.freq node) (cache.bucket (cache.freq node) ++ [node]) }

/-- The three lines that `getInternal` and `handleOverMaxAverageNum` share. -/
def changeFreq (cache : RLfuCache Key Value) (node : NodePtr) (freq : Int) : Option (RLfuCache Key Value) := do
  let removed ← cache.removeFromFreqList node
  return (removed.setFreq node freq).addToFreqList node

def updateMinFreq (cache : RLfuCache Key Value) : RLfuCache Key Value :=
  let least := cache.freqToFreqList_.entries.foldl
    (fun least list => if list.2.isEmpty then least else min least list.1) INT8_MAX
  { cache with minFreq_ := if least = INT8_MAX then 1 else least }

/-- A node's `freq` after `freq -= maxAverageNum_ / 2`, which rounds towards zero. -/
def decayed (maxAverageNum freq : Int) : Int :=
  if freq - maxAverageNum.tdiv 2 < 1 then 1 else freq - maxAverageNum.tdiv 2

def handleOverMaxAverageNum (order : Order) (cache : RLfuCache Key Value) : Option (RLfuCache Key Value) := do
  if cache.residents.isEmpty then
    return cache
  let moved ← (order.visit cache.residents).foldlM
    (fun cache node => cache.changeFreq node (decayed cache.maxAverageNum_ (cache.freq node))) cache
  return moved.updateMinFreq

/-- The division is one of `size_t`: a negative total wraps, and its quotient is narrowed to `int`. -/
def average (total : Int) (size : Nat) : Int :=
  if size = 0 then 0
  else if 0 ≤ total then total / size
  else Int.bmod (total % UInt64.size / size) UInt32.size

example : average (-15) 3 = 1431655760 := by decide

def addFreqNum (order : Order) (cache : RLfuCache Key Value) : Option (RLfuCache Key Value) :=
  let counted := { cache with
    curTotalNum_ := cache.curTotalNum_ + 1
    curAverageNum_ := average (cache.curTotalNum_ + 1) cache.size }
  if counted.curAverageNum_ > counted.maxAverageNum_ then counted.handleOverMaxAverageNum order else some counted

def decreaseFreqNum (cache : RLfuCache Key Value) (num : Int) : RLfuCache Key Value :=
  { cache with
    curTotalNum_ := cache.curTotalNum_ - num
    curAverageNum_ := average (cache.curTotalNum_ - num) cache.size }

/-- After the move of `node`: its old list may have been that of `minFreq_` and be empty now. -/
def raiseMinFreq (cache : RLfuCache Key Value) (node : NodePtr) : Option (RLfuCache Key Value) :=
  if cache.freq node - 1 = cache.minFreq_ then
    (cache.freqToFreqList_.lookup (cache.freq node - 1)).map fun left =>
      if left.isEmpty then { cache with minFreq_ := cache.minFreq_ + 1 } else cache
  else some cache

def getInternal (order : Order) (node : NodePtr) (cache : RLfuCache Key Value) :
    Option (Value × RLfuCache Key Value) := do
  let value := (cache.nodes node).value
  let moved ← cache.changeFreq node (cache.freq node + 1)
  let raised ← moved.raiseMinFreq node
  let counted ← raised.addFreqNum order
  return (value, counted)

section Operations
variable [DecidableEq Key]

def eraseKey (cache : RLfuCache Key Value) (key : Key) : RLfuCache Key Value :=
  { cache with nodeMap_ := cache.nodeMap_.erase key }

/-- The first node of an empty list is its dummy, whose key is erased and counted. -/
def kickOut [Inhabited Key] (cache : RLfuCache Key Value) : Option (RLfuCache Key Value) :=
  match cache.freqToFreqList_.lookup cache.minFreq_ with
  | none => none
  | some (node :: _) => do
    let removed ← cache.removeFromFreqList node
    return (removed.eraseKey (cache.nodes node).key).decreaseFreqNum (cache.freq node)
  | some [] => (cache.freqToFreqList_.lookup 1).map fun _ => (cache.eraseKey default).decreaseFreqNum 1

/-- The test at the start of `putInternal`. -/
def makeRoom [Inhabited Key] (cache : RLfuCache Key Value) : Option (RLfuCache Key Value) :=
  if cache.size = cache.capacity_ then cache.kickOut else some cache

/-- `make_shared<Node>(key, value)` and its entry in `nodeMap_`. -/
def newNode (cache : RLfuCache Key Value) (key : Key) (value : Value) : RLfuCache Key Value :=
  { cache with
    nodes := Function.update cache.nodes cache.allocated ⟨1, key, value⟩
    allocated := cache.allocated + 1
    nodeMap_ := cache.nodeMap_.insert key cache.allocated }

/-- The new node and its place in a list. -/
def insertNode (cache : RLfuCache Key Value) (key : Key) (value : Value) : RLfuCache Key Value :=
  (cache.newNode key value).addToFreqList cache.allocated

def putInternal [Inhabited Key] (order : Order) (key : Key) (value : Value) (cache : RLfuCache Key Value) :
    Option (RLfuCache Key Value) := do
  let freed ← cache.makeRoom
  let counted ← (freed.insertNode key value).addFreqNum order
  return { counted with minFreq_ := min counted.minFreq_ 1 }

def put [Inhabited Key] (order : Order) (key : Key) (value : Value) (cache : RLfuCache Key Value) :
    Option (RLfuCache Key Value) :=
  if cache.capacity_ = 0 then some cache
  else
    match cache.nodeMap_.lookup key with
    | some node => ((cache.setValue node value).getInternal order node).map Prod.snd
    | none => cache.putInternal order key value

/-- A miss leaves the cache as it is. -/
def get (order : Order) (key : Key) (cache : RLfuCache Key Value) :
    Option (Option Value × RLfuCache Key Value) :=
  match cache.nodeMap_.lookup key with
  | some node => (cache.getInternal order node).map fun found => (some found.1, found.2)
  | none => some (none, cache)

def purge (cache : RLfuCache Key Value) : RLfuCache Key Value :=
  { cache with nodeMap_ := ∅, freqToFreqList_ := ∅ }

end Operations

inductive CacheEvent (Key : Type u) (Value : Type v) where
  | put (key : Key) (value : Value) (order : Order)
  | get (key : Key) (order : Order)
  | purge

/-- There is no successor when the operation goes through a null pointer. -/
def step [DecidableEq Key] [Inhabited Key] (event : CacheEvent Key Value) (cache : RLfuCache Key Value) :
    Option (RLfuCache Key Value) :=
  match event with
  | .put key value order => cache.put order key value
  | .get key order => (cache.get order key).map Prod.snd
  | .purge => some cache.purge

def machine [DecidableEq Key] [Inhabited Key] : Machine (RLfuCache Key Value) (CacheEvent Key Value) := ⟨step⟩

end RLfuCache
end Webserver
