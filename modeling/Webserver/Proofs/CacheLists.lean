import Mathlib.Data.List.Perm.Basic
import Webserver.LFU
import Webserver.Library.Buckets

/-! What each function of the cache does to the frequency lists. Every resident node
is in the list of its own `freq`, and only there. -/

namespace Webserver.RLfuCache
open Library

universe u v
variable {Key : Type u} {Value : Type v} {cache : RLfuCache Key Value} {recency : List NodePtr} {node : NodePtr}

/-- The map, the heap and the lists agree; `recency` is the order of the last accesses. -/
structure Linked (cache : RLfuCache Key Value) (recency : List NodePtr) : Prop where
  keyed : ∀ entry ∈ cache.nodeMap_.entries, (cache.nodes entry.2).key = entry.1
  fresh : ∀ node ∈ cache.residents, node < cache.allocated
  used : ∀ node ∈ cache.residents, 1 ≤ cache.freq node
  resident : recency.Perm cache.residents
  filed : Filed cache.bucket recency cache.freq

theorem Linked.empty {cache : RLfuCache Key Value} (map : cache.nodeMap_ = ∅) (lists : cache.freqToFreqList_ = ∅) :
    Linked cache [] := by
  have nobody : cache.residents = [] := by simp [residents, map]
  refine ⟨?_, ?_, ?_, ?_, ?_⟩
  · simp [map]
  · simp [nobody]
  · simp [nobody]
  · rw [nobody]
  · have same : cache.bucket = fun _ => [] := by
      funext freq
      simp [bucket, lists]
    exact same ▸ Filed.empty

theorem Linked.mem_bucket (linked : Linked cache recency) {freq : Int} :
    node ∈ cache.bucket freq ↔ node ∈ cache.residents ∧ cache.freq node = freq := by
  rw [linked.filed.mem, linked.resident.mem_iff]

theorem Linked.listed (linked : Linked cache recency) (member : node ∈ cache.residents) :
    node ∈ cache.bucket (cache.freq node) := linked.mem_bucket.mpr ⟨member, rfl⟩

theorem Linked.nodup (linked : Linked cache recency) : cache.residents.Nodup :=
  linked.resident.nodup_iff.mp linked.filed.nodup

theorem mem_residents : node ∈ cache.residents ↔ ∃ key, ⟨key, node⟩ ∈ cache.nodeMap_.entries := by
  simp only [residents, List.mem_map]
  constructor
  · rintro ⟨⟨key, found⟩, member, rfl⟩
    exact ⟨key, member⟩
  · intro ⟨key, member⟩
    exact ⟨⟨key, node⟩, member, rfl⟩

theorem length_residents (cache : RLfuCache Key Value) : cache.residents.length = cache.size := by
  simp [residents, size]

section Lists

private theorem lists_insert (lists : AList fun _ : Int => List NodePtr) (freq : Int) (list : List NodePtr) :
    (fun level => ((lists.insert freq list).lookup level).getD []) =
      Function.update (fun level => (lists.lookup level).getD []) freq list := by
  funext level
  by_cases same : level = freq
  · subst same
    simp
  · simp [AList.lookup_insert_ne same, same]

private theorem lists_made {lists : AList fun _ : Int => List NodePtr} {freq level : Int} {list : List NodePtr}
    (made : (lists.lookup level).isSome) : ((lists.insert freq list).lookup level).isSome := by
  rw [AList.lookup_isSome] at made ⊢
  exact (AList.mem_insert _).mpr (.inr made)

theorem bucket_made {freq : Int} (listed : cache.bucket freq ≠ []) :
    cache.freqToFreqList_.lookup freq = some (cache.bucket freq) := by
  simp only [bucket] at listed ⊢
  cases made : cache.freqToFreqList_.lookup freq with
  | none => simp [made] at listed
  | some list => rfl

@[simp]
theorem setFreq_freq (cache : RLfuCache Key Value) (node : NodePtr) (freq : Int) :
    (cache.setFreq node freq).freq = Function.update cache.freq node freq := by
  funext other
  simp only [RLfuCache.freq, setFreq, Function.update_apply]
  split <;> simp_all

private theorem addToFreqList_bucket (cache : RLfuCache Key Value) (node : NodePtr) :
    (cache.addToFreqList node).bucket =
      Function.update cache.bucket (cache.freq node) (cache.bucket (cache.freq node) ++ [node]) :=
  lists_insert _ _ _

theorem removeFromFreqList_spec (listed : cache.bucket (cache.freq node) ≠ []) :
    ∃ lists, cache.removeFromFreqList node = some { cache with freqToFreqList_ := lists } ∧
      ({ cache with freqToFreqList_ := lists } : RLfuCache Key Value).bucket =
        Function.update cache.bucket (cache.freq node) ((cache.bucket (cache.freq node)).erase node) ∧
      ∀ level, (cache.freqToFreqList_.lookup level).isSome → (lists.lookup level).isSome := by
  rw [removeFromFreqList, bucket_made listed]
  exact ⟨_, rfl, lists_insert _ _ _, fun level made => lists_made made⟩

/-- The lists after the move of one node; nothing else changes but its `freq`. -/
theorem changeFreq_spec (filed : Filed cache.bucket recency cache.freq) (member : node ∈ recency) (freq : Int) :
    ∃ lists, cache.changeFreq node freq = some { cache.setFreq node freq with freqToFreqList_ := lists } ∧
      Filed ({ cache.setFreq node freq with freqToFreqList_ := lists } : RLfuCache Key Value).bucket
        (recency.erase node ++ [node]) (Function.update cache.freq node freq) ∧
      ∀ level, (cache.freqToFreqList_.lookup level).isSome → (lists.lookup level).isSome := by
  have listed : cache.bucket (cache.freq node) ≠ [] := List.ne_nil_of_mem (filed.mem.mpr ⟨member, rfl⟩)
  obtain ⟨lists, reached, erased, kept⟩ := removeFromFreqList_spec listed
  have moved := filed.move node freq
  rw [← erased] at moved
  have added := addToFreqList_bucket (({ cache with freqToFreqList_ := lists } : RLfuCache Key Value).setFreq node freq) node
  rw [setFreq_freq, Function.update_self] at added
  refine ⟨_, by rw [changeFreq, reached]; rfl, ?_, fun level made => lists_made (kept level made)⟩
  exact moved.congr (fun level => congrFun added level) (fun _ _ => rfl)

end Lists

def decayedNodes (cache : RLfuCache Key Value) (visited : List NodePtr) (node : NodePtr) : Node Key Value :=
  if node ∈ visited then { cache.nodes node with freq := decayed cache.maxAverageNum_ (cache.freq node) }
  else cache.nodes node

theorem decay_spec {visited : List NodePtr} (filed : Filed cache.bucket recency cache.freq)
    (once : visited.Nodup) (members : ∀ node ∈ visited, node ∈ recency) :
    ∃ lists order, visited.foldlM
        (fun cache node => cache.changeFreq node (decayed cache.maxAverageNum_ (cache.freq node))) cache =
      some { cache with nodes := cache.decayedNodes visited, freqToFreqList_ := lists } ∧
      Filed ({ cache with nodes := cache.decayedNodes visited, freqToFreqList_ := lists } : RLfuCache Key Value).bucket
        order ({ cache with nodes := cache.decayedNodes visited } : RLfuCache Key Value).freq ∧
      order.Perm recency := by
  induction visited generalizing cache recency with
  | nil =>
    have same : cache.decayedNodes [] = cache.nodes := by
      funext node
      simp [decayedNodes]
    refine ⟨cache.freqToFreqList_, recency, ?_, ?_, .refl _⟩
    · rw [same]
      rfl
    · rw [same]
      exact filed
  | cons node visited ih =>
    obtain ⟨absent, once⟩ := List.nodup_cons.mp once
    have member : node ∈ recency := members node (by simp)
    obtain ⟨lists, moved, filed, _⟩ := changeFreq_spec filed member (decayed cache.maxAverageNum_ (cache.freq node))
    have moves : (recency.erase node ++ [node]).Perm recency :=
      (List.perm_append_singleton _ _).trans (List.perm_cons_erase member).symm
    rw [← setFreq_freq] at filed
    obtain ⟨final, order, reached, filed, perm⟩ := ih filed once
      (fun other inside => moves.mem_iff.mpr (members other (by simp [inside])))
    have same : ({ cache.setFreq node (decayed cache.maxAverageNum_ (cache.freq node)) with
        freqToFreqList_ := lists } : RLfuCache Key Value).decayedNodes visited = cache.decayedNodes (node :: visited) := by
      funext other
      by_cases first : other = node
      · subst first
        simp [decayedNodes, absent, setFreq]
      · simp [decayedNodes, first, setFreq, RLfuCache.freq]
    refine ⟨final, order, ?_, ?_, perm.trans moves⟩
    · rw [List.foldlM_cons, moved]
      simp only [Option.bind_eq_bind, Option.bind_some]
      rw [reached, same]
      rfl
    · rw [same] at filed
      exact filed

/-- `minFreq_` is a lower bound of the frequencies, though its list may be empty. -/
structure Lower (cache : RLfuCache Key Value) : Prop where
  positive : 1 ≤ cache.minFreq_
  below : ∀ node ∈ cache.residents, cache.minFreq_ ≤ cache.freq node

theorem fold_least (lists : List (Sigma fun _ : Int => List NodePtr)) (start : Int) :
    let least := lists.foldl (fun least list => if list.2.isEmpty then least else min least list.1) start
    least ≤ start ∧ (∀ list ∈ lists, list.2 ≠ [] → least ≤ list.1) ∧
      (least = start ∨ ∃ list ∈ lists, list.2 ≠ [] ∧ least = list.1) := by
  induction lists generalizing start with
  | nil => simp
  | cons list lists ih =>
    obtain ⟨upper, below, attained⟩ := ih (if list.2.isEmpty then start else min start list.1)
    simp only [List.foldl_cons]
    by_cases empty : list.2 = []
    · simp only [empty, List.isEmpty_nil, if_true] at upper below attained ⊢
      refine ⟨upper, ?_, ?_⟩
      · intro other member listed
        rcases List.mem_cons.mp member with rfl | inside
        · exact absurd empty listed
        · exact below other inside listed
      · rcases attained with same | ⟨other, member, listed, same⟩
        · exact .inl same
        · exact .inr ⟨other, by simp [member], listed, same⟩
    · have occupied : list.2.isEmpty = false := by simpa using empty
      simp only [occupied, Bool.false_eq_true, if_false] at upper below attained ⊢
      refine ⟨by omega, ?_, ?_⟩
      · intro other member listed
        rcases List.mem_cons.mp member with rfl | inside
        · omega
        · exact below other inside listed
      · rcases attained with same | ⟨other, member, listed, same⟩
        · by_cases lower : start ≤ list.1
          · exact .inl (by omega)
          · exact .inr ⟨list, by simp, empty, by omega⟩
        · exact .inr ⟨other, by simp [member], listed, same⟩

/-- The search for the least frequency starts at `INT8_MAX` and takes that result for
an empty cache, so that it finds no frequency from `INT8_MAX` on. -/
theorem updateMinFreq_spec (linked : Linked cache recency) :
    Lower cache.updateMinFreq ∧
      (cache.bucket cache.updateMinFreq.minFreq_ ≠ [] ↔ ∃ node ∈ cache.residents, cache.freq node < INT8_MAX) := by
  obtain ⟨upper, below, attained⟩ := fold_least cache.freqToFreqList_.entries INT8_MAX
  simp only [updateMinFreq]
  generalize cache.freqToFreqList_.entries.foldl
    (fun least list => if list.2.isEmpty then least else min least list.1) INT8_MAX = least at *
  have lower : ∀ node ∈ cache.residents, least ≤ cache.freq node := by
    intro node member
    have listed := List.ne_nil_of_mem (linked.listed member)
    exact below ⟨cache.freq node, cache.bucket (cache.freq node)⟩ (AList.mem_lookup_iff.mp (bucket_made listed)) listed
  have occupied : least ≠ INT8_MAX → cache.bucket least ≠ [] := by
    intro found
    obtain ⟨list, member, listed, rfl⟩ := attained.resolve_left found
    have made : cache.freqToFreqList_.lookup list.1 = some list.2 := AList.mem_lookup_iff.mpr member
    simpa [bucket, made] using listed
  have counted : ∀ freq, cache.bucket freq ≠ [] → ∃ node ∈ cache.residents, cache.freq node = freq := by
    intro freq listed
    obtain ⟨node, member⟩ := List.exists_mem_of_ne_nil _ listed
    exact ⟨node, linked.mem_bucket.mp member⟩
  by_cases found : least = INT8_MAX
  · subst found
    simp only [if_true]
    refine ⟨⟨by simp, linked.used⟩, ?_⟩
    constructor
    · intro listed
      obtain ⟨node, member, same⟩ := counted 1 listed
      exact ⟨node, member, by simp [same, INT8_MAX]⟩
    · intro ⟨node, member, small⟩
      have large := lower node member
      omega
  · simp only [found, if_false]
    obtain ⟨node, member, same⟩ := counted least (occupied found)
    refine ⟨⟨same ▸ linked.used node member, lower⟩, ?_⟩
    constructor
    · intro _
      exact ⟨node, member, by omega⟩
    · intro _
      exact occupied found

section Keys
variable [DecidableEq Key]

theorem Linked.lookup_iff (linked : Linked cache recency) {key : Key} :
    cache.nodeMap_.lookup key = some node ↔ node ∈ cache.residents ∧ (cache.nodes node).key = key := by
  rw [mem_residents]
  constructor
  · intro found
    have member := AList.mem_lookup_iff.mp found
    exact ⟨⟨key, member⟩, linked.keyed _ member⟩
  · intro ⟨⟨other, member⟩, same⟩
    have keyed : (cache.nodes node).key = other := linked.keyed _ member
    rw [← same, keyed]
    exact AList.mem_lookup_iff.mpr member

theorem Linked.lookup (linked : Linked cache recency) (member : node ∈ cache.residents) :
    cache.nodeMap_.lookup (cache.nodes node).key = some node := linked.lookup_iff.mpr ⟨member, rfl⟩

theorem eraseKey_remaining (cache : RLfuCache Key Value) (key : Key) :
    (cache.eraseKey key).residents = (cache.nodeMap_.entries.kerase key).map Sigma.snd := rfl

theorem eraseKey_residents {key : Key} (found : cache.nodeMap_.lookup key = some node) :
    cache.residents.Perm (node :: (cache.eraseKey key).residents) := by
  have present : key ∈ cache.nodeMap_.entries.keys := AList.lookup_isSome.mp (by rw [found]; rfl)
  obtain ⟨other, before, after, _, split, erased⟩ := List.exists_of_kerase present
  have same : other = node := by
    have member : cache.nodeMap_.lookup key = some other := AList.mem_lookup_iff.mpr (by rw [split]; simp)
    exact Option.some.inj (member.symm.trans found)
  rw [eraseKey_remaining, erased, residents, split]
  simp only [List.map_append, List.map_cons, same]
  exact List.perm_middle

structure Freed (cache : RLfuCache Key Value) (victim : NodePtr) (recency : List NodePtr)
    (freed : RLfuCache Key Value) : Prop where
  linked : Linked freed (recency.erase victim)
  residents : cache.residents.Perm (victim :: freed.residents)
  nodes : freed.nodes = cache.nodes
  nodeMap_ : freed.nodeMap_ = cache.nodeMap_.erase (cache.nodes victim).key
  allocated : freed.allocated = cache.allocated
  capacity_ : freed.capacity_ = cache.capacity_
  maxAverageNum_ : freed.maxAverageNum_ = cache.maxAverageNum_
  minFreq_ : freed.minFreq_ = cache.minFreq_
  total : freed.curTotalNum_ = cache.curTotalNum_ - cache.freq victim

theorem kickOut_spec [Inhabited Key] (linked : Linked cache recency) {victim : NodePtr} {rest : List NodePtr}
    (first : cache.bucket cache.minFreq_ = victim :: rest) :
    ∃ freed, cache.kickOut = some freed ∧ Freed cache victim recency freed := by
  obtain ⟨member, least⟩ := linked.mem_bucket.mp (show victim ∈ cache.bucket cache.minFreq_ by rw [first]; simp)
  obtain ⟨lists, reached, erased, _⟩ := removeFromFreqList_spec (List.ne_nil_of_mem (linked.listed member))
  have made := bucket_made (show cache.bucket cache.minFreq_ ≠ [] by rw [first]; simp)
  have remaining := eraseKey_residents (linked.lookup member)
  have subset : ∀ node ∈ (cache.eraseKey (cache.nodes victim).key).residents, node ∈ cache.residents :=
    fun node inside => remaining.mem_iff.mpr (by simp [inside])
  have filed := linked.filed.remove victim
  rw [← erased] at filed
  have evicted : cache.kickOut = some ((({ cache with freqToFreqList_ := lists } : RLfuCache Key Value).eraseKey
      (cache.nodes victim).key).decreaseFreqNum (cache.freq victim)) := by
    rw [kickOut, made, first]
    simp only [reached]
    rfl
  refine ⟨_, evicted, ?_, remaining, rfl, rfl, rfl, rfl, rfl, rfl, rfl⟩
  refine ⟨?_, fun node inside => linked.fresh node (subset node inside),
    fun node inside => linked.used node (subset node inside), ?_, filed⟩
  · intro entry inside
    exact linked.keyed entry ((List.kerase_sublist _ _).subset inside)
  · have order := (linked.resident.trans remaining).erase victim
    rwa [List.erase_cons_head] at order

/-- With no real node to take, the eviction goes by the dummy: its key and its count. -/
theorem kickOut_dummy [Inhabited Key] (empty : cache.bucket cache.minFreq_ = []) {freed : RLfuCache Key Value}
    (reached : cache.kickOut = some freed) : freed = (cache.eraseKey default).decreaseFreqNum 1 := by
  simp only [kickOut] at reached
  split at reached
  · cases reached
  next node rest made =>
    simp [bucket, made] at empty
  next made =>
    obtain ⟨_, _, rfl⟩ := Option.map_eq_some_iff.mp reached
    rfl

theorem insertNode_residents {key : Key} (value : Value) (absent : cache.nodeMap_.lookup key = none) :
    (cache.insertNode key value).residents = cache.allocated :: cache.residents := by
  simp only [residents, insertNode, addToFreqList, newNode,
    AList.entries_insert_of_notMem (AList.lookup_eq_none.mp absent), List.map_cons]

theorem insertNode_freq (cache : RLfuCache Key Value) (key : Key) (value : Value) :
    (cache.insertNode key value).freq = Function.update cache.freq cache.allocated 1 := by
  funext node
  simp only [RLfuCache.freq, insertNode, addToFreqList, newNode, Function.update_apply]
  split <;> rfl

theorem insertNode_filed (filed : Filed cache.bucket recency cache.freq) (inactive : cache.allocated ∉ recency)
    (key : Key) (value : Value) :
    Filed (cache.insertNode key value).bucket (recency ++ [cache.allocated]) (cache.insertNode key value).freq := by
  have counts := insertNode_freq cache key value
  have added := (filed.recount inactive 1).add inactive
  have lists := addToFreqList_bucket (cache.newNode key value) cache.allocated
  rw [show (cache.newNode key value).freq = _ from counts, Function.update_self] at lists
  rw [Function.update_self] at added
  rw [counts]
  exact lists ▸ added

theorem insertNode_used {key : Key} (value : Value) (absent : cache.nodeMap_.lookup key = none)
    (used : ∀ node ∈ cache.residents, 1 ≤ cache.freq node) :
    ∀ node ∈ (cache.insertNode key value).residents, 1 ≤ (cache.insertNode key value).freq node := by
  rw [insertNode_residents value absent, insertNode_freq]
  intro node member
  rw [Function.update_apply]
  split
  next first => exact Int.le_refl 1
  next other => exact used node (List.mem_of_ne_of_mem other member)

theorem insertNode_linked {key : Key} (value : Value) (linked : Linked cache recency)
    (absent : cache.nodeMap_.lookup key = none) :
    Linked (cache.insertNode key value) (recency ++ [cache.allocated]) := by
  have unused : cache.allocated ∉ cache.residents := fun member => Nat.lt_irrefl _ (linked.fresh _ member)
  have members := insertNode_residents value absent
  have others : ∀ node ∈ cache.residents, node ≠ cache.allocated := by
    intro node inside same
    exact unused (same ▸ inside)
  refine ⟨?_, ?_, ?_, ?_, ?_⟩
  · intro entry member
    have cases : entry ∈ ⟨key, cache.allocated⟩ :: cache.nodeMap_.entries := by
      rw [← AList.entries_insert_of_notMem (AList.lookup_eq_none.mp absent)]
      exact member
    rcases List.mem_cons.mp cases with rfl | inside
    · simp [insertNode, newNode, addToFreqList]
    · have old := others entry.2 (mem_residents.mpr ⟨entry.1, inside⟩)
      simp only [insertNode, newNode, addToFreqList, Function.update_of_ne old]
      exact linked.keyed entry inside
  · rw [members]
    intro node member
    rcases List.mem_cons.mp member with rfl | inside
    · exact Nat.lt_succ_self _
    · exact Nat.lt_succ_of_lt (linked.fresh node inside)
  · exact insertNode_used value absent linked.used
  · rw [members]
    exact (List.perm_append_singleton _ _).trans (linked.resident.cons _)
  · exact insertNode_filed linked.filed (fun member => unused (linked.resident.mem_iff.mp member)) key value

end Keys
end Webserver.RLfuCache
