import Webserver.Proofs.CacheLists
import Webserver.Proofs.FrequencyLists

/-! The cache keeps each frequency list as a plain list of nodes. On the heap of links the
same calls do the same to linked lists: one mirrors the other. -/

namespace Webserver
open Library

universe u v w
variable {α : Type u}

namespace LinkedLists
open FreqLists (Faithful Dummy Fresh)
open RLfuCache (NodePtr)

/-- Each list of the cache is the sequence of a linked list of its own. -/
structure Mirrors (address : NodePtr → α) (buckets : AList fun _ : Int => List NodePtr) (linked : LinkedLists α)
    (sequences : Nat → List α) : Prop where
  faithful : Faithful linked.lists sequences
  mapped : ∀ freq, (buckets.lookup freq).map (List.map address) = (linked.freqToFreqList_.lookup freq).map sequences
  made : ∀ (freq : Int) (i : Nat), linked.freqToFreqList_.lookup freq = some i → ∃ list, linked.lists.lists[i]? = some list
  apart : ∀ (first second : Int) (i : Nat), linked.freqToFreqList_.lookup first = some i →
    linked.freqToFreqList_.lookup second = some i → first = second

variable {address : NodePtr → α} {buckets : AList fun _ : Int => List NodePtr} {linked : LinkedLists α}
variable {sequences : Nat → List α} {freq : Int} {node : NodePtr}

namespace Mirrors

theorem of_faithful {lists : FreqLists α} (faithful : Faithful lists sequences) :
    Mirrors address ∅ ⟨lists, ∅⟩ sequences := by
  refine ⟨faithful, ?_, ?_, ?_⟩
  · intro freq
    simp
  · intro freq i leads
    simp at leads
  · intro first second i leads
    simp at leads

theorem readdress {other : NodePtr → α} (mirrors : Mirrors address buckets linked sequences)
    (same : ∀ freq nodes, buckets.lookup freq = some nodes → ∀ node ∈ nodes, other node = address node) :
    Mirrors other buckets linked sequences := by
  refine ⟨mirrors.faithful, fun freq => ?_, mirrors.made, mirrors.apart⟩
  rw [← mirrors.mapped freq]
  cases found : buckets.lookup freq with
  | none => rfl
  | some nodes => exact congrArg some (List.map_congr_left (same freq nodes found))

theorem remake (mirrors : Mirrors address buckets linked sequences) {made : List α}
    (alive : ∀ i node, FreqLists.Has linked.lists sequences i node → node ∈ made) :
    Mirrors address buckets { linked with lists := { linked.lists with made := made } } sequences :=
  ⟨mirrors.faithful.remake alive, mirrors.mapped, mirrors.made, mirrors.apart⟩

theorem refile (mirrors : Mirrors address buckets linked sequences) {i : Nat}
    (leads : linked.freqToFreqList_.lookup freq = some i) {heap : LinkHeap α} {nodes : List NodePtr}
    (kept : Faithful { linked.lists with heap := heap } (Function.update sequences i (nodes.map address))) :
    Mirrors address (buckets.insert freq nodes) { linked with lists := { linked.lists with heap := heap } }
      (Function.update sequences i (nodes.map address)) := by
  refine ⟨kept, ?_, mirrors.made, mirrors.apart⟩
  intro level
  by_cases same : level = freq
  · subst same
    rw [AList.lookup_insert, leads, Option.map_some, Option.map_some, Function.update_self]
  · rw [AList.lookup_insert_ne same, mirrors.mapped level]
    cases other : linked.freqToFreqList_.lookup level with
    | none => rfl
    | some j =>
      have different : j ≠ i := by
        rintro rfl
        exact same (mirrors.apart level freq j other leads)
      rw [Option.map_some, Option.map_some, Function.update_of_ne different]

theorem keepList (mirrors : Mirrors address buckets linked sequences) {nodes : List NodePtr}
    (found : buckets.lookup freq = some nodes) : Mirrors address (buckets.insert freq nodes) linked sequences := by
  refine ⟨mirrors.faithful, ?_, mirrors.made, mirrors.apart⟩
  intro level
  by_cases same : level = freq
  · subst same
    rw [AList.lookup_insert, ← mirrors.mapped level, found]
  · rw [AList.lookup_insert_ne same, mirrors.mapped level]

variable [DecidableEq α]

theorem shows (mirrors : Mirrors address buckets linked sequences) {nodes : List NodePtr}
    (found : buckets.lookup freq = some nodes) : ∃ (i : Nat) (list : FreqList α),
      linked.freqToFreqList_.lookup freq = some i ∧ linked.lists.lists[i]? = some list ∧
      nodes.map address = sequences i ∧ list.Shows linked.lists.heap (nodes.map address) := by
  have mapped := mirrors.mapped freq
  rw [found, Option.map_some] at mapped
  obtain ⟨i, leads, same⟩ := Option.map_eq_some_iff.mp mapped.symm
  obtain ⟨list, present⟩ := mirrors.made freq i leads
  exact ⟨i, list, leads, present, same.symm, same ▸ (mirrors.faithful.holds i list present).shows⟩

theorem firstNode_spec (mirrors : Mirrors address buckets linked sequences) {nodes : List NodePtr}
    (found : buckets.lookup freq = some nodes) : ∃ first, linked.firstNode freq = some (some first) ∧
      (∀ node rest, nodes = node :: rest → first = address node) ∧ (nodes = [] → Dummy linked.lists first) := by
  obtain ⟨i, list, leads, listed, _, shows⟩ := mirrors.shows found
  refine ⟨(nodes.map address).headD list.tail_, ?_, ?_, ?_⟩
  · rw [firstNode, leads, Option.bind_some, listed, Option.map_some, shows.getFirstNode]
  · rintro node rest rfl
    rfl
  · rintro rfl
    exact ⟨list, List.mem_of_getElem? listed, Or.inr rfl⟩

/-- What `kickOut` passes when the list of `minFreq_` is empty: a dummy, which no list is linked to. -/
theorem removeDummy (mirrors : Mirrors address buckets linked sequences) (present : (buckets.lookup freq).isSome) {dummy : α}
    (idle : Dummy linked.lists dummy) : linked.removeFromFreqList freq (some dummy) = some linked := by
  obtain ⟨nodes, found⟩ := Option.isSome_iff_exists.mp present
  obtain ⟨i, list, leads, listed, _⟩ := mirrors.shows found
  have null := (mirrors.faithful.idle (Or.inr idle)).2
  rw [removeFromFreqList, call, leads, Option.bind_some, FreqLists.step_removeNode listed, FreqList.removeNode_loose null]
  rfl

theorem newList (mirrors : Mirrors address buckets linked sequences) (freq : Int) {head tail : α}
    (fresh : Fresh linked.lists head tail) : Mirrors address (buckets.insert freq [])
      ⟨FreqLists.constructed freq head tail linked.lists, linked.freqToFreqList_.insert freq linked.lists.lists.length⟩
      sequences := by
  have beyond : linked.lists.lists[linked.lists.lists.length]? = none := List.getElem?_eq_none (Nat.le_refl _)
  have older : ∀ (level : Int) (i : Nat), linked.freqToFreqList_.lookup level = some i → i ≠ linked.lists.lists.length := by
    rintro level i other rfl
    obtain ⟨list, present⟩ := mirrors.made level _ other
    exact absurd (present.symm.trans beyond) (Option.some_ne_none list)
  refine ⟨mirrors.faithful.construct fresh, ?_, ?_, ?_⟩
  · intro level
    by_cases same : level = freq
    · subst same
      rw [AList.lookup_insert, AList.lookup_insert, Option.map_some, Option.map_some, mirrors.faithful.beyond _ beyond]
      rfl
    · rw [AList.lookup_insert_ne same, AList.lookup_insert_ne same, mirrors.mapped level]
  · intro level i other
    by_cases same : level = freq
    · subst same
      rw [AList.lookup_insert, Option.some_inj] at other
      exact ⟨_, FreqLists.found_concat.mpr (Or.inr ⟨other.symm, rfl⟩)⟩
    · rw [AList.lookup_insert_ne same] at other
      obtain ⟨list, present⟩ := mirrors.made level i other
      exact ⟨list, FreqLists.found_concat.mpr (Or.inl present)⟩
  · intro first second i leadsFirst leadsSecond
    by_cases same : first = freq <;> by_cases also : second = freq
    · exact same.trans also.symm
    · rw [same, AList.lookup_insert, Option.some_inj] at leadsFirst
      rw [AList.lookup_insert_ne also] at leadsSecond
      exact absurd leadsFirst.symm (older second i leadsSecond)
    · rw [also, AList.lookup_insert, Option.some_inj] at leadsSecond
      rw [AList.lookup_insert_ne same] at leadsFirst
      exact absurd leadsSecond.symm (older first i leadsFirst)
    · rw [AList.lookup_insert_ne same] at leadsFirst
      rw [AList.lookup_insert_ne also] at leadsSecond
      exact mirrors.apart first second i leadsFirst leadsSecond

/-- The list that a node is added to is there, if need be as a new one; live nodes stay as they are. -/
theorem makeList (mirrors : Mirrors address buckets linked sequences) (freq : Int) {head tail : α}
    (fresh : Fresh linked.lists head tail) : ∃ next, linked.makeList freq head tail = some next ∧
      Mirrors address (buckets.insert freq ((buckets.lookup freq).getD [])) next sequences ∧
      ∀ node ∈ linked.lists.made, node ∈ next.lists.made ∧ next.lists.heap node = linked.lists.heap node := by
  have mapped := mirrors.mapped freq
  cases leads : linked.freqToFreqList_.lookup freq with
  | some i =>
    rw [leads, Option.map_some] at mapped
    obtain ⟨nodes, found, _⟩ := Option.map_eq_some_iff.mp mapped
    refine ⟨linked, by rw [LinkedLists.makeList, leads], ?_, ?_⟩
    · rw [found]
      exact mirrors.keepList found
    · intro node alive
      exact ⟨alive, rfl⟩
  | none =>
    rw [leads, Option.map_none, Option.map_eq_none_iff] at mapped
    refine ⟨_, by rw [LinkedLists.makeList, leads, FreqLists.step_construct fresh]; rfl, ?_, ?_⟩
    · rw [mapped]
      exact mirrors.newList freq fresh
    · intro node alive
      obtain ⟨notHead, notTail⟩ := fresh.other alive
      exact ⟨List.mem_cons_of_mem _ (List.mem_cons_of_mem _ alive), FreqList.construct_frame freq _ notHead notTail⟩

end Mirrors

section Operations
variable [DecidableEq α] {Key : Type v} {Value : Type w} {cache : RLfuCache Key Value}

private theorem map_erase_of_nodup {nodes : List NodePtr} (nodup : (nodes.map address).Nodup) (member : node ∈ nodes) :
    (nodes.erase node).map address = (nodes.map address).erase (address node) := by
  induction nodes with
  | nil => cases member
  | cons other nodes ih =>
    obtain ⟨absent, nodup⟩ := List.nodup_cons.mp nodup
    rcases List.mem_cons.mp member with rfl | inside
    · rw [List.erase_cons_head, List.map_cons, List.erase_cons_head]
    · have different : address other ≠ address node := fun same => absent (same ▸ List.mem_map_of_mem inside)
      have apart : other ≠ node := fun same => different (congrArg address same)
      rw [List.erase_cons_tail (by simpa using apart), List.map_cons, List.map_cons,
        List.erase_cons_tail (by simpa using different), ih nodup inside]

theorem removeFromFreqList_mirrors
    (mirrors : Mirrors address cache.freqToFreqList_ linked sequences) (listed : node ∈ cache.bucket (cache.freq node)) :
    ∃ after next updated, cache.removeFromFreqList node = some after ∧
      linked.removeFromFreqList (cache.freq node) (some (address node)) = some next ∧
      Mirrors address after.freqToFreqList_ next updated ∧
      next.lists.heap (address node) = Links.unlinked ∧ next.lists.made = linked.lists.made := by
  have found := RLfuCache.bucket_made (List.ne_nil_of_mem listed)
  obtain ⟨i, list, leads, present, same, _⟩ := mirrors.shows found
  have member : address node ∈ sequences i := same ▸ List.mem_map_of_mem listed
  obtain ⟨heap, removed, kept, unlinked⟩ := mirrors.faithful.removeNode present member
  rw [← same, ← map_erase_of_nodup (same ▸ mirrors.faithful.nodup i) listed] at kept
  have erased : cache.removeFromFreqList node = some { cache with
      freqToFreqList_ := cache.freqToFreqList_.insert (cache.freq node) ((cache.bucket (cache.freq node)).erase node) } := by
    rw [RLfuCache.removeFromFreqList, found]
    rfl
  refine ⟨_, { linked with lists := { linked.lists with heap := heap } }, _, erased, ?_, mirrors.refile leads kept, unlinked, rfl⟩
  rw [removeFromFreqList, call, leads, Option.bind_some, FreqLists.step_removeNode present, removed]
  rfl

theorem addToFreqList_mirrors (mirrors : Mirrors address cache.freqToFreqList_ linked sequences) {head tail : α}
    (fresh : Fresh linked.lists head tail) (alive : address node ∈ linked.lists.made)
    (loose : linked.lists.heap (address node) = Links.unlinked) : ∃ next updated,
      linked.addToFreqList (cache.freq node) (some (address node)) head tail = some next ∧
      Mirrors address (cache.addToFreqList node).freqToFreqList_ next updated := by
  obtain ⟨made, reached, mirrors, kept⟩ := mirrors.makeList (cache.freq node) fresh
  obtain ⟨alive, same⟩ := kept _ alive
  obtain ⟨i, list, leads, present, listed, _⟩ := mirrors.shows (AList.lookup_insert _)
  obtain ⟨heap, added, faithful⟩ := mirrors.faithful.addNode present alive (same.trans loose)
  have longer : (cache.bucket (cache.freq node) ++ [node]).map address = sequences i ++ [address node] := by
    rw [List.map_append, ← listed]
    rfl
  rw [← longer] at faithful
  have filed := mirrors.refile leads faithful
  rw [AList.insert_insert] at filed
  refine ⟨_, _, ?_, filed⟩
  rw [addToFreqList, reached, Option.bind_some, call, leads, Option.bind_some, FreqLists.step_addNode present, added]
  rfl

theorem changeFreq_mirrors
    (mirrors : Mirrors address cache.freqToFreqList_ linked sequences) (listed : node ∈ cache.bucket (cache.freq node))
    (freq : Int) {head tail : α} (fresh : Fresh linked.lists head tail) : ∃ after next updated,
      cache.changeFreq node freq = some after ∧
      (linked.removeFromFreqList (cache.freq node) (some (address node))).bind
        (addToFreqList freq (some (address node)) head tail) = some next ∧
      Mirrors address after.freqToFreqList_ next updated := by
  obtain ⟨i, _, _, _, same, _⟩ := mirrors.shows (RLfuCache.bucket_made (List.ne_nil_of_mem listed))
  have member : address node ∈ sequences i := same ▸ List.mem_map_of_mem listed
  have alive := mirrors.faithful.alive i _ (mirrors.faithful.has_of_mem member)
  obtain ⟨removed, between, kept, unfiled, detached, mirrors, loose, made⟩ := removeFromFreqList_mirrors mirrors listed
  change Mirrors address (removed.setFreq node freq).freqToFreqList_ between kept at mirrors
  have count : (removed.setFreq node freq).freq node = freq := by
    rw [RLfuCache.setFreq_freq, Function.update_self]
  have still : Fresh between.lists head tail := ⟨made ▸ fresh.first, made ▸ fresh.last, fresh.apart⟩
  obtain ⟨next, updated, attached, mirrors⟩ := addToFreqList_mirrors mirrors still (made ▸ alive) loose
  rw [count] at attached
  exact ⟨_, next, updated, by rw [RLfuCache.changeFreq, unfiled]; rfl, by rw [detached, Option.bind_some, attached], mirrors⟩

end Operations
end LinkedLists
end Webserver
