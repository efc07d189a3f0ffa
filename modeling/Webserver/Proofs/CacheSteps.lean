import Webserver.Proofs.CacheLists

/-! What one operation of the cache can do: it finds nothing, accesses a resident node,
or puts in a new one after an eviction from a full cache. Each of the last two counts the
access, and may let all frequencies decay. -/

namespace Webserver.RLfuCache
open Library

universe u v
variable {Key : Type u} {Value : Type v} {cache : RLfuCache Key Value} {recency : List NodePtr} {node : NodePtr}

/-- `addFreqNum` would find the average above its limit. -/
def Overflows (cache : RLfuCache Key Value) : Prop :=
  cache.maxAverageNum_ < average (cache.curTotalNum_ + 1) cache.size

instance (cache : RLfuCache Key Value) : Decidable cache.Overflows :=
  inferInstanceAs (Decidable (cache.maxAverageNum_ < average (cache.curTotalNum_ + 1) cache.size))

def ticked (cache : RLfuCache Key Value) : RLfuCache Key Value :=
  { cache with
    curTotalNum_ := cache.curTotalNum_ + 1
    curAverageNum_ := average (cache.curTotalNum_ + 1) cache.size }

theorem Linked.ticked (linked : Linked cache recency) : Linked cache.ticked recency :=
  ⟨linked.keyed, linked.fresh, linked.used, linked.resident, linked.filed⟩

structure Decayed (before after : RLfuCache Key Value) : Prop where
  linked : ∃ recency, Linked after recency
  nodes : after.nodes = before.decayedNodes before.residents
  lower : Lower after
  attained : after.bucket after.minFreq_ ≠ [] ↔
    ∃ node ∈ before.residents, decayed before.maxAverageNum_ (before.freq node) < INT8_MAX

structure Counted (before after : RLfuCache Key Value) : Prop where
  nodeMap_ : after.nodeMap_ = before.nodeMap_
  capacity_ : after.capacity_ = before.capacity_
  maxAverageNum_ : after.maxAverageNum_ = before.maxAverageNum_
  allocated : after.allocated = before.allocated
  total : after.curTotalNum_ = before.curTotalNum_ + 1
  average : after.curAverageNum_ = average (before.curTotalNum_ + 1) before.size
  calm : ¬ before.Overflows → after = before.ticked
  decay : before.Overflows → Decayed before after

theorem decayedNodes_freq (cache : RLfuCache Key Value) (visited : List NodePtr) (node : NodePtr) :
    (cache.decayedNodes visited node).freq =
      if node ∈ visited then decayed cache.maxAverageNum_ (cache.freq node) else cache.freq node := by
  rw [decayedNodes]
  split <;> rfl

theorem decayedNodes_key (cache : RLfuCache Key Value) (visited : List NodePtr) (node : NodePtr) :
    (cache.decayedNodes visited node).key = (cache.nodes node).key := by
  rw [decayedNodes]
  split <;> rfl

theorem decayedNodes_value (cache : RLfuCache Key Value) (visited : List NodePtr) (node : NodePtr) :
    (cache.decayedNodes visited node).value = (cache.nodes node).value := by
  rw [decayedNodes]
  split <;> rfl

private theorem decayed_positive (maxAverageNum freq : Int) : 1 ≤ decayed maxAverageNum freq := by
  rw [decayed]
  split <;> omega

/-- Nothing of this needs the residents to be all that is listed. -/
theorem handleOverMaxAverageNum_spec (order : Order) (filed : Filed cache.bucket recency cache.freq)
    (once : cache.residents.Nodup) (members : ∀ node ∈ cache.residents, node ∈ recency)
    (occupied : cache.residents ≠ []) :
    ∃ lists final, cache.handleOverMaxAverageNum order =
        some ({ cache with nodes := cache.decayedNodes cache.residents, freqToFreqList_ := lists } :
          RLfuCache Key Value).updateMinFreq ∧
      Filed ({ cache with freqToFreqList_ := lists } : RLfuCache Key Value).bucket final
        ({ cache with nodes := cache.decayedNodes cache.residents } : RLfuCache Key Value).freq ∧
      final.Perm recency := by
  have visits := order.perm cache.residents
  obtain ⟨lists, final, reached, filed, perm⟩ := decay_spec filed (visits.nodup_iff.mpr once)
    (fun node member => members node (visits.mem_iff.mp member))
  have same : cache.decayedNodes (order.visit cache.residents) = cache.decayedNodes cache.residents := by
    funext node
    simp only [decayedNodes, visits.mem_iff]
  rw [same] at reached filed
  refine ⟨lists, final, ?_, filed, perm⟩
  rw [handleOverMaxAverageNum, if_neg (by simpa using occupied), reached]
  rfl

theorem addFreqNum_spec (order : Order) (linked : Linked cache recency) (occupied : cache.residents ≠ []) :
    ∃ after, cache.addFreqNum order = some after ∧ Counted cache after := by
  by_cases overflows : cache.Overflows
  · have ticked : Filed cache.ticked.bucket recency cache.ticked.freq := linked.filed
    obtain ⟨lists, final, reached, filed, perm⟩ := handleOverMaxAverageNum_spec order
      ticked linked.nodup (fun node member => linked.resident.mem_iff.mpr member) occupied
    have counted : cache.addFreqNum order = cache.ticked.handleOverMaxAverageNum order := if_pos overflows
    refine ⟨_, counted.trans reached, rfl, rfl, rfl, rfl, rfl, rfl, fun calm => absurd overflows calm, fun _ => ?_⟩
    have counts : ∀ node ∈ cache.residents,
        (cache.ticked.decayedNodes cache.residents node).freq = decayed cache.maxAverageNum_ (cache.freq node) := by
      intro node member
      rw [decayedNodes_freq, if_pos member]
      rfl
    have decay : Linked ({ cache.ticked with
        nodes := cache.ticked.decayedNodes cache.residents, freqToFreqList_ := lists }) final := by
      refine ⟨?_, linked.fresh, ?_, perm.trans linked.resident, filed⟩
      · intro entry member
        exact (decayedNodes_key _ _ _).trans (linked.keyed entry member)
      · intro node member
        exact Int.le_trans (decayed_positive _ _) (Int.le_of_eq (counts node member).symm)
    obtain ⟨lower, attained⟩ := updateMinFreq_spec decay
    refine ⟨⟨final, decay.keyed, decay.fresh, decay.used, decay.resident, decay.filed⟩, rfl, lower, ?_⟩
    apply attained.trans
    apply exists_congr
    intro node
    apply and_congr_right
    intro member
    exact iff_of_eq (congrArg (· < INT8_MAX) (counts node member))
  · refine ⟨cache.ticked, if_neg overflows, rfl, rfl, rfl, rfl, rfl, rfl, fun _ => rfl, fun above => absurd above overflows⟩

structure Touched (before : RLfuCache Key Value) (node : NodePtr) (value : Value) (recency : List NodePtr)
    (after : RLfuCache Key Value) : Prop where
  linked : Linked after (recency.erase node ++ [node])
  nodes : after.nodes = Function.update before.nodes node ⟨before.freq node + 1, (before.nodes node).key, value⟩
  nodeMap_ : after.nodeMap_ = before.nodeMap_
  capacity_ : after.capacity_ = before.capacity_
  maxAverageNum_ : after.maxAverageNum_ = before.maxAverageNum_
  allocated : after.allocated = before.allocated
  total : after.curTotalNum_ = before.curTotalNum_
  minFreq_ : after.minFreq_ =
    if before.freq node = before.minFreq_ ∧ after.bucket before.minFreq_ = [] then before.minFreq_ + 1
    else before.minFreq_

theorem Touched.freq {before after : RLfuCache Key Value} {value : Value}
    (touched : Touched before node value recency after) :
    after.freq = Function.update before.freq node (before.freq node + 1) := by
  funext other
  simp only [RLfuCache.freq, touched.nodes, Function.update_apply]
  split <;> rfl

theorem Touched.residents {before after : RLfuCache Key Value} {value : Value}
    (touched : Touched before node value recency after) : after.residents = before.residents := by
  rw [RLfuCache.residents, touched.nodeMap_]
  rfl

theorem Linked.setFreq {freq : Int} {lists : AList fun _ : Int => List NodePtr} (linked : Linked cache recency)
    (member : node ∈ cache.residents) (positive : 1 ≤ freq)
    (filed : Filed ({ cache.setFreq node freq with freqToFreqList_ := lists } : RLfuCache Key Value).bucket
      (recency.erase node ++ [node]) (Function.update cache.freq node freq)) :
    Linked { cache.setFreq node freq with freqToFreqList_ := lists } (recency.erase node ++ [node]) := by
  have counts := setFreq_freq cache node freq
  refine ⟨?_, linked.fresh, ?_, ?_, counts ▸ filed⟩
  · intro entry inside
    refine Eq.trans ?_ (linked.keyed entry inside)
    simp only [RLfuCache.setFreq, Function.update_apply]
    split <;> simp_all
  · intro other inside
    refine Int.le_trans ?_ (Int.le_of_eq (congrFun counts other).symm)
    rw [Function.update_apply]
    split
    · exact positive
    · exact linked.used other inside
  · have active := linked.resident.mem_iff.mpr member
    exact (List.perm_append_singleton _ _).trans ((List.perm_cons_erase active).symm.trans linked.resident)

theorem Linked.least (linked : Linked cache recency) (least : Int) :
    Linked { cache with minFreq_ := least } recency :=
  ⟨linked.keyed, linked.fresh, linked.used, linked.resident, linked.filed⟩

theorem raiseMinFreq_spec {freq : Int} (count : cache.freq node - 1 = freq)
    (made : (cache.freqToFreqList_.lookup freq).isSome) :
    ∃ least, cache.raiseMinFreq node = some { cache with minFreq_ := least } ∧
      least = if freq = cache.minFreq_ ∧ cache.bucket cache.minFreq_ = [] then cache.minFreq_ + 1
        else cache.minFreq_ := by
  refine ⟨_, ?_, rfl⟩
  obtain ⟨list, found⟩ := Option.isSome_iff_exists.mp made
  have contents : cache.bucket freq = list := by simp [bucket, found]
  rw [raiseMinFreq, count]
  by_cases lowest : freq = cache.minFreq_
  · rw [if_pos lowest, found, ← lowest, contents]
    by_cases empty : list = []
    · simp [empty]
    · simp [empty, lowest]
  · rw [if_neg lowest, if_neg fun both => lowest both.1]

theorem getInternal_spec (order : Order) (linked : Linked cache recency) (member : node ∈ cache.residents) :
    ∃ touched after, cache.getInternal order node = some ((cache.nodes node).value, after) ∧
      Touched cache node (cache.nodes node).value recency touched ∧ Counted touched after := by
  obtain ⟨lists, moved, filed, kept⟩ :=
    changeFreq_spec linked.filed (linked.resident.mem_iff.mpr member) (cache.freq node + 1)
  have positive : 1 ≤ cache.freq node + 1 := Int.le_trans (linked.used node member) (by omega)
  have relinked := linked.setFreq member positive filed
  have count : ({ cache.setFreq node (cache.freq node + 1) with freqToFreqList_ := lists } :
      RLfuCache Key Value).freq node - 1 = cache.freq node := by
    have updated := congrFun (setFreq_freq cache node (cache.freq node + 1)) node
    rw [Function.update_self] at updated
    exact Int.sub_eq_iff_eq_add.mpr updated
  have made : (lists.lookup (cache.freq node)).isSome := by
    apply kept
    rw [bucket_made (List.ne_nil_of_mem (linked.listed member))]
    rfl
  obtain ⟨least, raised, rule⟩ := raiseMinFreq_spec count made
  obtain ⟨after, counted, count⟩ := addFreqNum_spec order (relinked.least least) (List.ne_nil_of_mem member)
  refine ⟨_, after, ?_, ⟨relinked.least least, rfl, rfl, rfl, rfl, rfl, rfl, rule⟩, count⟩
  rw [getInternal, moved]
  simp only [Option.bind_eq_bind, Option.bind_some]
  rw [raised]
  simp only [Option.bind_some]
  rw [counted]
  rfl

@[simp]
theorem setValue_freq (cache : RLfuCache Key Value) (node : NodePtr) (value : Value) :
    (cache.setValue node value).freq = cache.freq := by
  funext other
  simp only [RLfuCache.freq, setValue, Function.update_apply]
  split <;> simp_all

theorem Linked.setValue (linked : Linked cache recency) (node : NodePtr) (value : Value) :
    Linked (cache.setValue node value) recency := by
  have counts := setValue_freq cache node value
  refine ⟨?_, linked.fresh, ?_, linked.resident, counts ▸ linked.filed⟩
  · intro entry inside
    refine Eq.trans ?_ (linked.keyed entry inside)
    simp only [RLfuCache.setValue, Function.update_apply]
    split <;> simp_all
  · rw [counts]
    exact linked.used

theorem Touched.of_setValue {after : RLfuCache Key Value} {value : Value}
    (touched : Touched (cache.setValue node value) node ((cache.setValue node value).nodes node).value recency after) :
    Touched cache node value recency after := by
  refine ⟨touched.linked, ?_, touched.nodeMap_, touched.capacity_, touched.maxAverageNum_, touched.allocated,
    touched.total, ?_⟩
  · rw [touched.nodes, setValue_freq]
    simp [RLfuCache.setValue]
  · rw [touched.minFreq_, setValue_freq]
    rfl

section Events
variable [DecidableEq Key]

def hit (event : CacheEvent Key Value) (cache : RLfuCache Key Value) : Option NodePtr :=
  match event with
  | .put key _ _ => if cache.capacity_ = 0 then none else cache.nodeMap_.lookup key
  | .get key _ => cache.nodeMap_.lookup key
  | .purge => none

/-- A `put` sets the value of the node that it finds. -/
def stored (event : CacheEvent Key Value) (node : NodePtr) (cache : RLfuCache Key Value) : Value :=
  match event with
  | .put _ value _ => value
  | _ => (cache.nodes node).value

def Evicts (event : CacheEvent Key Value) (cache : RLfuCache Key Value) : Prop :=
  match event with
  | .put key _ _ => cache.capacity_ ≠ 0 ∧ cache.nodeMap_.lookup key = none ∧ cache.size = cache.capacity_
  | _ => False

instance (event : CacheEvent Key Value) (cache : RLfuCache Key Value) : Decidable (Evicts event cache) :=
  match event with
  | .put key _ _ => inferInstanceAs (Decidable
      (cache.capacity_ ≠ 0 ∧ cache.nodeMap_.lookup key = none ∧ cache.size = cache.capacity_))
  | .get _ _ => isFalse id
  | .purge => isFalse id

/-- An eviction finds a node in the list of `minFreq_`. -/
def Evictable (event : CacheEvent Key Value) (cache : RLfuCache Key Value) : Prop :=
  Evicts event cache → cache.bucket cache.minFreq_ ≠ []

instance (event : CacheEvent Key Value) (cache : RLfuCache Key Value) : Decidable (Evictable event cache) :=
  inferInstanceAs (Decidable (Evicts event cache → cache.bucket cache.minFreq_ ≠ []))

/-- The cache from which a new node gets its place. -/
inductive Room (before : RLfuCache Key Value) (recency : List NodePtr) : RLfuCache Key Value → List NodePtr → Prop
  | spare (free : before.size ≠ before.capacity_) : Room before recency before recency
  | evicted {victim : NodePtr} {rest : List NodePtr} {freed : RLfuCache Key Value}
      (full : before.size = before.capacity_) (first : before.bucket before.minFreq_ = victim :: rest)
      (left : Freed before victim recency freed) : Room before recency freed (recency.erase victim)

/-- What an operation can do to a cache whose lists agree with its map. -/
inductive Change [Inhabited Key] (recency : List NodePtr) (before : RLfuCache Key Value) :
    CacheEvent Key Value → RLfuCache Key Value → Prop
  | purged : Change recency before .purge before.purge
  | missed {key : Key} {order : Order} (absent : before.nodeMap_.lookup key = none) :
      Change recency before (.get key order) before
  | ignored {key : Key} {value : Value} {order : Order} (zero : before.capacity_ = 0) :
      Change recency before (.put key value order) before
  | accessed {event : CacheEvent Key Value} {node : NodePtr} {touched after : RLfuCache Key Value}
      (found : hit event before = some node) (access : Touched before node (stored event node before) recency touched)
      (count : Counted touched after) : Change recency before event after
  | inserted {key : Key} {value : Value} {order : Order} {freed counted : RLfuCache Key Value} {rest : List NodePtr}
      (positive : before.capacity_ ≠ 0) (absent : before.nodeMap_.lookup key = none)
      (room : Room before recency freed rest)
      (count : Counted (freed.insertNode key value) counted) :
      Change recency before (.put key value order) { counted with minFreq_ := min counted.minFreq_ 1 }
  | dummied {key : Key} {value : Value} {order : Order} {counted : RLfuCache Key Value}
      (evicts : Evicts (.put key value order) before) (empty : before.bucket before.minFreq_ = [])
      (count : (((before.eraseKey default).decreaseFreqNum 1).insertNode key value).addFreqNum order = some counted) :
      Change recency before (.put key value order) { counted with minFreq_ := min counted.minFreq_ 1 }

theorem Linked.hit_resident (linked : Linked cache recency) {event : CacheEvent Key Value}
    (found : hit event cache = some node) : node ∈ cache.residents := by
  have looked : ∃ key, cache.nodeMap_.lookup key = some node := by
    cases event with
    | put key value order =>
      simp only [hit] at found
      split at found
      · cases found
      · exact ⟨key, found⟩
    | get key order => exact ⟨key, found⟩
    | purge => cases found
  obtain ⟨key, looked⟩ := looked
  exact (linked.lookup_iff.mp looked).1

section Rooms
variable {before freed : RLfuCache Key Value} {rest : List NodePtr}

theorem Room.linked (room : Room before recency freed rest) (linked : Linked before recency) : Linked freed rest := by
  cases room with
  | spare => exact linked
  | evicted _ _ left => exact left.linked

theorem Room.lookup (room : Room before recency freed rest) {key : Key}
    (absent : before.nodeMap_.lookup key = none) : freed.nodeMap_.lookup key = none := by
  cases room with
  | spare => exact absent
  | @evicted victim _ _ _ _ left =>
    rw [left.nodeMap_]
    by_cases same : key = (before.nodes victim).key
    · rw [same]
      exact AList.lookup_erase _ _
    · rwa [AList.lookup_erase_ne same]

theorem Room.nodes (room : Room before recency freed rest) : freed.nodes = before.nodes := by
  cases room with
  | spare => rfl
  | evicted _ _ left => exact left.nodes

theorem Room.capacity_ (room : Room before recency freed rest) : freed.capacity_ = before.capacity_ := by
  cases room with
  | spare => rfl
  | evicted _ _ left => exact left.capacity_

theorem Room.maxAverageNum_ (room : Room before recency freed rest) : freed.maxAverageNum_ = before.maxAverageNum_ := by
  cases room with
  | spare => rfl
  | evicted _ _ left => exact left.maxAverageNum_

theorem Room.members (room : Room before recency freed rest) : ∀ node ∈ freed.residents, node ∈ before.residents := by
  cases room with
  | spare => exact fun _ member => member
  | evicted _ _ left =>
    intro node member
    rw [left.residents.mem_iff]
    exact List.mem_cons_of_mem _ member

theorem Room.lower (room : Room before recency freed rest) (lower : Lower before) : Lower freed := by
  have least : freed.minFreq_ = before.minFreq_ := by
    cases room with
    | spare => rfl
    | evicted _ _ left => exact left.minFreq_
  refine ⟨least ▸ lower.positive, ?_⟩
  intro node member
  rw [least, RLfuCache.freq, room.nodes]
  exact lower.below node (room.members node member)

theorem Room.size (room : Room before recency freed rest) (bounded : before.size ≤ before.capacity_) :
    freed.size + 1 ≤ before.capacity_ := by
  cases room with
  | spare free => omega
  | evicted full _ left =>
    have sizes := left.residents.length_eq
    rw [List.length_cons, length_residents, length_residents] at sizes
    omega

end Rooms

def find (cache : RLfuCache Key Value) (key : Key) : Option Value :=
  (cache.nodeMap_.lookup key).map fun node => (cache.nodes node).value

theorem get_find (linked : Linked cache recency) (key : Key) (order : Order) :
    ∃ after, cache.get order key = some (cache.find key, after) := by
  cases looked : cache.nodeMap_.lookup key with
  | none => exact ⟨cache, by rw [get, find, looked]; rfl⟩
  | some node =>
    obtain ⟨touched, after, got, _⟩ := getInternal_spec order linked (linked.lookup_iff.mp looked).1
    exact ⟨after, by rw [get, find, looked]; simp [got]⟩

theorem insertNode_size {key : Key} (value : Value) (absent : cache.nodeMap_.lookup key = none) :
    (cache.insertNode key value).size = cache.size + 1 := by
  rw [← length_residents, insertNode_residents value absent, List.length_cons, length_residents]

private theorem newNode_occupied {key : Key} (value : Value) (absent : cache.nodeMap_.lookup key = none) :
    (cache.insertNode key value).residents ≠ [] := by
  have members := insertNode_residents value absent
  exact List.ne_nil_of_mem (a := cache.allocated) (members ▸ List.mem_cons_self)

theorem makeRoom_spec [Inhabited Key] (linked : Linked cache recency)
    (evictable : cache.size = cache.capacity_ → cache.bucket cache.minFreq_ ≠ []) :
    ∃ freed rest, cache.makeRoom = some freed ∧ Room cache recency freed rest := by
  by_cases full : cache.size = cache.capacity_
  · obtain ⟨victim, rest, first⟩ := List.exists_cons_of_ne_nil (evictable full)
    obtain ⟨freed, evicted, left⟩ := kickOut_spec linked first
    exact ⟨freed, _, (if_pos full).trans evicted, .evicted full first left⟩
  · exact ⟨cache, _, if_neg full, .spare full⟩

theorem putInternal_spec [Inhabited Key] (order : Order) {key : Key} (value : Value) (linked : Linked cache recency)
    (absent : cache.nodeMap_.lookup key = none)
    (evictable : cache.size = cache.capacity_ → cache.bucket cache.minFreq_ ≠ []) :
    ∃ freed rest counted, cache.putInternal order key value = some { counted with minFreq_ := min counted.minFreq_ 1 } ∧
      Room cache recency freed rest ∧ Counted (freed.insertNode key value) counted := by
  obtain ⟨freed, rest, freeing, room⟩ := makeRoom_spec linked evictable
  have missing := room.lookup absent
  obtain ⟨counted, counting, count⟩ :=
    addFreqNum_spec order (insertNode_linked value (room.linked linked) missing) (newNode_occupied value missing)
  refine ⟨freed, rest, counted, ?_, room, count⟩
  rw [putInternal, freeing]
  simp only [Option.bind_eq_bind, Option.bind_some]
  rw [counting]
  rfl

/-- An operation goes through no null pointer, and does one of the things above. -/
theorem step_spec [Inhabited Key] (event : CacheEvent Key Value) (linked : Linked cache recency)
    (evictable : Evictable event cache) : ∃ after, step event cache = some after ∧ Change recency cache event after := by
  cases event with
  | purge => exact ⟨_, rfl, .purged⟩
  | get key order =>
    cases looked : cache.nodeMap_.lookup key with
    | none => exact ⟨cache, by rw [step, get, looked]; rfl, .missed looked⟩
    | some node =>
      obtain ⟨touched, after, got, access, count⟩ := getInternal_spec order linked (linked.lookup_iff.mp looked).1
      exact ⟨after, by rw [step, get, looked]; simp [got], .accessed looked access count⟩
  | put key value order =>
    by_cases zero : cache.capacity_ = 0
    · exact ⟨cache, if_pos zero, .ignored zero⟩
    · cases looked : cache.nodeMap_.lookup key with
      | none =>
        obtain ⟨freed, rest, counted, reached, room, count⟩ :=
          putInternal_spec order value linked looked fun full => evictable ⟨zero, looked, full⟩
        exact ⟨_, by rw [step, put, if_neg zero, looked]; exact reached, .inserted zero looked room count⟩
      | some node =>
        have found : hit (.put key value order) cache = some node := (if_neg zero).trans looked
        obtain ⟨touched, after, got, access, count⟩ :=
          getInternal_spec order (linked.setValue node value) (linked.lookup_iff.mp looked).1
        refine ⟨after, ?_, .accessed found access.of_setValue count⟩
        rw [step, put, if_neg zero, looked]
        exact congrArg (Option.map Prod.snd) got

theorem step_change [Inhabited Key] {event : CacheEvent Key Value} {before after : RLfuCache Key Value}
    (linked : Linked before recency) (stepped : step event before = some after) : Change recency before event after := by
  by_cases evictable : Evictable event before
  · obtain ⟨other, reached, change⟩ := step_spec event linked evictable
    cases reached.symm.trans stepped
    exact change
  · obtain ⟨evicts, empty⟩ := Classical.not_imp.mp evictable
    cases event with
    | purge => cases evicts
    | get key order => cases evicts
    | put key value order =>
      obtain ⟨positive, absent, full⟩ := evicts
      rw [step, put, if_neg positive, absent] at stepped
      obtain ⟨freed, evicted, rest⟩ := Option.bind_eq_some_iff.mp stepped
      obtain ⟨counted, count, same⟩ := Option.bind_eq_some_iff.mp rest
      cases same
      cases kickOut_dummy (not_not.mp empty) ((if_pos full).symm.trans evicted)
      exact .dummied ⟨positive, absent, full⟩ (not_not.mp empty) count

theorem Change.config [Inhabited Key] {event : CacheEvent Key Value} {before after : RLfuCache Key Value}
    (change : Change recency before event after) (evictable : Evictable event before) :
    after.capacity_ = before.capacity_ ∧ after.maxAverageNum_ = before.maxAverageNum_ := by
  cases change with
  | purged => exact ⟨rfl, rfl⟩
  | missed => exact ⟨rfl, rfl⟩
  | ignored => exact ⟨rfl, rfl⟩
  | accessed _ access count =>
    exact ⟨count.capacity_.trans access.capacity_, count.maxAverageNum_.trans access.maxAverageNum_⟩
  | inserted _ _ room count =>
    exact ⟨count.capacity_.trans room.capacity_, count.maxAverageNum_.trans room.maxAverageNum_⟩
  | dummied evicts empty => exact absurd empty (evictable evicts)

theorem Change.of_hit [Inhabited Key] {event : CacheEvent Key Value} {before after : RLfuCache Key Value}
    (change : Change recency before event after) (found : hit event before = some node) :
    ∃ touched, Touched before node (stored event node before) recency touched ∧ Counted touched after := by
  cases change with
  | purged => cases found
  | missed absent => cases absent.symm.trans found
  | ignored zero => cases (if_pos zero).symm.trans found
  | accessed other access count =>
    cases other.symm.trans found
    exact ⟨_, access, count⟩
  | inserted positive absent => cases absent.symm.trans ((if_neg positive).symm.trans found)
  | dummied evicts => cases evicts.2.1.symm.trans ((if_neg evicts.1).symm.trans found)

end Events
end Webserver.RLfuCache
