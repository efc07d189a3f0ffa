import Webserver.ConsistentHash
import Webserver.LFU
import Webserver.Library.Tally

/-! The sharded cache at the end of `LFU.h`. The size of a shard goes through a
`double` and then through the `int` that the constructor of `RLfuCache` takes. -/

namespace Webserver
open Library

universe u v

/-- `Hash` is `std::hash<Key>`. -/
structure RHashLfuCache (Key : Type u) (Value : Type v) where
  capacity_ : UInt64
  sliceNum_ : Nat
  lfuSliceCaches_ : List (RLfuCache Key Value)
  Hash : Key → SizeT

namespace RHashLfuCache
variable {Key : Type u} {Value : Type v}

/-- `std::ceil` of a quotient, as a `size_t`. -/
def ceilDiv (capacity sliceNum : UInt64) : UInt64 :=
  let quotient := capacity.toFloat / sliceNum.toFloat
  let whole := quotient.toUInt64
  if whole.toFloat < quotient then whole + 1 else whole

/-- A `size_t` that is narrowed to `int`, and read as a `size_t` again where it is
compared with a size: the capacity that a shard keeps to. -/
def narrowed (sliceSize : UInt64) : Nat := (Int.bmod sliceSize.toNat UInt32.size % UInt64.size).toNat

def sliceSize (capacity : UInt64) (sliceNum : Nat) : UInt64 := ceilDiv capacity (UInt64.ofNat sliceNum)

/-- A `sliceNum` that is not positive is replaced by the number of processors. -/
def new [Inhabited Key] [Inhabited Value] (capacity : UInt64) (sliceNum : Int) (hardware_concurrency : Nat)
    (hashFunc : Key → SizeT) (maxAverageNum : Int) : RHashLfuCache Key Value :=
  let sliceNum_ := if sliceNum > 0 then sliceNum.toNat else hardware_concurrency
  { capacity_ := capacity
    sliceNum_ := sliceNum_
    lfuSliceCaches_ := List.replicate sliceNum_ (.new (narrowed (sliceSize capacity sliceNum_)) maxAverageNum)
    Hash := hashFunc }

def sliceIndex (cache : RHashLfuCache Key Value) (key : Key) : Nat := (cache.Hash key).val % cache.sliceNum_

/-- The entries of all shards. -/
def total (cache : RHashLfuCache Key Value) : Nat := (cache.lfuSliceCaches_.map RLfuCache.size).sum

section Operations
variable [DecidableEq Key] [Inhabited Key]

/-- A `put` or a `get` on the shard of its key. -/
def onSlice (cache : RHashLfuCache Key Value) (key : Key) (event : RLfuCache.CacheEvent Key Value) :
    Option (RHashLfuCache Key Value) := do
  let slice ← cache.lfuSliceCaches_[cache.sliceIndex key]?
  let after ← RLfuCache.step event slice
  return { cache with lfuSliceCaches_ := cache.lfuSliceCaches_.set (cache.sliceIndex key) after }

/-- With what the shard finds. -/
def get (order : RLfuCache.Order) (key : Key) (cache : RHashLfuCache Key Value) :
    Option (Option Value × RHashLfuCache Key Value) := do
  let slice ← cache.lfuSliceCaches_[cache.sliceIndex key]?
  let (found, after) ← slice.get order key
  return (found, { cache with lfuSliceCaches_ := cache.lfuSliceCaches_.set (cache.sliceIndex key) after })

def purge (cache : RHashLfuCache Key Value) : RHashLfuCache Key Value :=
  { cache with lfuSliceCaches_ := cache.lfuSliceCaches_.map RLfuCache.purge }

def step (event : RLfuCache.CacheEvent Key Value) (cache : RHashLfuCache Key Value) : Option (RHashLfuCache Key Value) :=
  match event with
  | .put key _ _ => cache.onSlice key event
  | .get key _ => cache.onSlice key event
  | .purge => some cache.purge

def machine : Machine (RHashLfuCache Key Value) (RLfuCache.CacheEvent Key Value) := ⟨step⟩

end Operations

end RHashLfuCache
end Webserver
