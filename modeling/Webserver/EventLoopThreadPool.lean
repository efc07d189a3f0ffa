import Webserver.ConsistentHash

/-! The choice of a loop for a new connection, from `EventLoopThreadPool.cc`. The
callback that `start` passes to the threads does not concern it. -/

namespace Webserver

/-- `baseLoop_` or the loop that a thread of the pool has started. -/
inductive LoopRef where
  | baseLoop
  | subLoop (thread : Nat)
  deriving DecidableEq

structure EventLoopThreadPool where
  name_ : String
  started_ : Bool
  numThreads_ : Nat
  threads_ : List String
  loops_ : List LoopRef
  hash_ : ConsistentHash

namespace EventLoopThreadPool

/-- The ring of a pool has three virtual nodes for each thread. -/
def numReplicas : Nat := 3

/-- The code gives no hash function to the ring and so takes the default one. -/
def new (name : String) (hashFunc : String → SizeT) : EventLoopThreadPool :=
  ⟨name, false, 0, [], [], .new numReplicas hashFunc⟩

def setThreadNum (pool : EventLoopThreadPool) (numThreads : Nat) : EventLoopThreadPool :=
  { pool with numThreads_ := numThreads }

/-- `snprintf` with `"%s%d"`: the name up to its first null character, then the number. -/
def threadName (name : String) (i : Nat) : String :=
  String.ofList (name.toList.takeWhile (· ≠ '\x00')) ++ toString i

def startThread (pool : EventLoopThreadPool) (i : Nat) : EventLoopThreadPool :=
  { pool with
    threads_ := pool.threads_ ++ [threadName pool.name_ i]
    loops_ := pool.loops_ ++ [.subLoop i]
    hash_ := pool.hash_.addNode (threadName pool.name_ i) }

def start (pool : EventLoopThreadPool) : EventLoopThreadPool :=
  (List.range pool.numThreads_).foldl startThread { pool with started_ := true }

/-- The hash that `getNode` returns is taken for an index. -/
def getNextLoop (pool : EventLoopThreadPool) (key : String) : Except RingError LoopRef :=
  match pool.hash_.getNode key with
  | .error what => .error what
  | .ok index => if inside : index.val < pool.loops_.length then .ok pool.loops_[index.val] else .ok .baseLoop

end EventLoopThreadPool
end Webserver
