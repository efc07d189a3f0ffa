import Webserver.LinkedCache
import Webserver.Proofs.CacheLinks

/-! The cache with linked lists beside the one with plain lists: each node of a list stands
at an address of its own, and the functions on the lists do the same to both. -/

namespace Webserver
open Library

universe u v w
variable {α : Type u}

namespace LinkedLists
open FreqLists (Dummy)
variable [DecidableEq α] {before after : LinkedLists α} {freq : Int} {node : α} {i : Nat}

structure Kept (before after : LinkedLists α) : Prop where
  lists : after.lists.lists = before.lists.lists
  made : after.lists.made = before.lists.made
  freqToFreqList_ : after.freqToFreqList_ = before.freqToFreqList_

private theorem call_kept {event : Nat → ListEvent α}
    (plain : ∀ i, event i = .addNode i (some node) ∨ event i = .removeNode i (some node))
    (called : before.call event freq = some after) : Kept before after := by
  obtain ⟨i, _, called⟩ := Option.bind_eq_some_iff.mp called
  obtain ⟨lists, stepped, rfl⟩ := Option.map_eq_some_iff.mp called
  rcases plain i with same | same <;> rw [same] at stepped
  all_goals
    obtain ⟨list, _, rest⟩ := Option.bind_eq_some_iff.mp stepped
    obtain ⟨heap, _, done⟩ := Option.bind_eq_some_iff.mp rest
    cases done
    exact ⟨rfl, rfl, rfl⟩

theorem removeFromFreqList_kept (removed : before.removeFromFreqList freq (some node) = some after) : Kept before after :=
  call_kept (fun _ => .inr rfl) removed

private theorem addToFreqList_dummy {head tail : α} (added : before.addToFreqList freq (some node) head tail = some after)
    {dummy : α} (idle : Dummy after.lists dummy) :
    Dummy before.lists dummy ∨ before.freqToFreqList_.lookup freq = none ∧ (dummy = head ∨ dummy = tail) := by
  obtain ⟨made, making, called⟩ := Option.bind_eq_some_iff.mp added
  have kept := call_kept (fun _ => .inl rfl) called
  obtain ⟨list, member, ends⟩ := idle
  rw [kept.lists] at member
  unfold makeList at making
  split at making
  next missing =>
    obtain ⟨lists, stepped, rfl⟩ := Option.map_eq_some_iff.mp making
    simp only [FreqLists.step] at stepped
    split at stepped
    · cases stepped
    · cases stepped
      rcases List.mem_append.mp member with old | new
      · exact .inl ⟨list, old, ends⟩
      · rw [List.mem_singleton.mp new] at ends
        exact .inr ⟨missing, ends⟩
  next =>
    cases making
    exact .inl ⟨list, member, ends⟩

end LinkedLists

namespace LinkedCache
open LinkedLists (Mirrors)
open FreqLists (Faithful Dummy Fresh)
open RLfuCache (Node NodePtr decayed average INT8_MAX)

variable {Key : Type v} {Value : Type w}

def shown [DecidableEq α] (linked : LinkedCache α Key Value) (list : Sigma fun _ : Int => Nat) :
    Sigma fun _ : Int => List NodePtr :=
  ⟨list.1, if linked.isEmpty list.2 then [] else [0]⟩

private theorem shown_isEmpty [DecidableEq α] (linked : LinkedCache α Key Value) (list : Sigma fun _ : Int => Nat) :
    (shown linked list).2.isEmpty = linked.isEmpty list.2 := by
  rw [shown]
  split <;> simp_all

private theorem least_le {lists others : List (Sigma fun _ : Int => List NodePtr)} (start : Int)
    (covered : ∀ list ∈ others, list.2 ≠ [] → ∃ other ∈ lists, other.2 ≠ [] ∧ other.1 = list.1) :
    lists.foldl (fun least list => if list.2.isEmpty then least else min least list.1) start ≤
      others.foldl (fun least list => if list.2.isEmpty then least else min least list.1) start := by
  obtain ⟨upper, below, _⟩ := RLfuCache.fold_least lists start
  obtain ⟨_, _, attained⟩ := RLfuCache.fold_least others start
  rcases attained with same | ⟨list, member, listed, same⟩
  · exact Int.le_trans upper (Int.le_of_eq same.symm)
  · obtain ⟨other, inside, some, level⟩ := covered list member listed
    exact Int.le_trans (below other inside some) (Int.le_of_eq (level.trans same.symm))

private theorem setFreq_key (cache : RLfuCache Key Value) (node other : NodePtr) (freq : Int) :
    ((cache.setFreq node freq).nodes other).key = (cache.nodes other).key := by
  simp only [RLfuCache.setFreq, Function.update_apply]
  split
  next same => rw [same]
  next => rfl

variable [Inhabited Key] [Inhabited Value]

/-- Only the dummies of a new list are written, besides the links. -/
theorem addToFreqList_spec [DecidableEq α] {allocator : Allocator α} {before : LinkedCache α Key Value} {node : α}
    {freq : Int} {next : LinkedLists α} (count : before.freq node = freq)
    (linking : before.linked.addToFreqList freq (some node) (allocator.make before.linked.lists.made)
      (allocator.make (allocator.make before.linked.lists.made :: before.linked.lists.made)) = some next) :
    ∃ nodes, before.addToFreqList allocator node = some { before with linked := next, nodes := nodes } ∧
      (∀ other ∈ before.linked.lists.made, nodes other = before.nodes other) ∧
      ∀ dummy, Dummy next.lists dummy → Dummy before.linked.lists dummy ∨ nodes dummy = emptyNode := by
  subst count
  refine ⟨_, congrArg (Option.map _) linking, ?_, ?_⟩
  · intro other member
    split
    · rfl
    · have notTail : other ≠ allocator.make (allocator.make before.linked.lists.made :: before.linked.lists.made) := by
        rintro rfl
        exact allocator.fresh _ (List.mem_cons_of_mem _ member)
      have notHead : other ≠ allocator.make before.linked.lists.made := by
        rintro rfl
        exact allocator.fresh _ member
      rw [Function.update_of_ne notTail, Function.update_of_ne notHead]
  · intro dummy idle
    rcases LinkedLists.addToFreqList_dummy linking idle with old | ⟨missing, ends⟩
    · exact .inl old
    · right
      rw [missing, if_neg (by simp)]
      rcases ends with rfl | rfl
      · rw [Function.update_apply]
        split
        · rfl
        · rw [Function.update_self]
      · rw [Function.update_self]

def place (address : NodePtr → α) (entry : Sigma fun _ : Key => NodePtr) : Sigma fun _ : Key => α :=
  ⟨entry.1, address entry.2⟩

/-- The nodes of the cache at their addresses; `recency` are those in a list, which the
map does not have to lead to. -/
structure Stands (address : NodePtr → α) (recency : List NodePtr) (linked : LinkedCache α Key Value)
    (cache : RLfuCache Key Value) : Prop where
  mirrors : ∃ sequences, Mirrors address cache.freqToFreqList_ linked.linked sequences
  filed : Filed cache.bucket recency cache.freq
  nodes : ∀ node ∈ recency, linked.nodes (address node) = cache.nodes node
  dummies : ∀ dummy, Dummy linked.linked.lists dummy → linked.nodes dummy = emptyNode
  fresh : ∀ node ∈ recency, node < cache.allocated
  keyed : ∀ entry ∈ cache.nodeMap_.entries, (cache.nodes entry.2).key = entry.1
  inside : ∀ node ∈ cache.residents, node ∈ recency
  once : cache.residents.Nodup
  nodeMap_ : linked.nodeMap_.entries = cache.nodeMap_.entries.map (place address)
  capacity_ : linked.capacity_ = cache.capacity_
  minFreq_ : linked.minFreq_ = cache.minFreq_
  maxAverageNum_ : linked.maxAverageNum_ = cache.maxAverageNum_
  curAverageNum_ : linked.curAverageNum_ = cache.curAverageNum_
  curTotalNum_ : linked.curTotalNum_ = cache.curTotalNum_

namespace Stands
variable {address : NodePtr → α} {recency : List NodePtr} {linked : LinkedCache α Key Value} {cache : RLfuCache Key Value}
variable {node : NodePtr}

theorem listed (stands : Stands address recency linked cache) (member : node ∈ recency) :
    node ∈ cache.bucket (cache.freq node) := stands.filed.mem.mpr ⟨member, rfl⟩

theorem freq (stands : Stands address recency linked cache) (member : node ∈ recency) :
    linked.freq (address node) = cache.freq node := congrArg Node.freq (stands.nodes node member)

theorem young (stands : Stands address recency linked cache) : cache.allocated ∉ recency :=
  fun member => Nat.lt_irrefl _ (stands.fresh _ member)

theorem elsewhere (stands : Stands address recency linked cache) (new : α) (member : node ∈ recency) :
    Function.update address cache.allocated new node = address node := by
  apply Function.update_of_ne
  rintro rfl
  exact stands.young member

theorem residents (stands : Stands address recency linked cache) : linked.residents = cache.residents.map address := by
  rw [LinkedCache.residents, stands.nodeMap_, RLfuCache.residents, List.map_map, List.map_map]
  rfl

theorem size (stands : Stands address recency linked cache) : linked.size = cache.size := by
  rw [LinkedCache.size, stands.nodeMap_, List.length_map, RLfuCache.size]

theorem dummy_alive (stands : Stands address recency linked cache) {dummy : α} (idle : Dummy linked.linked.lists dummy) :
    dummy ∈ linked.linked.lists.made := by
  obtain ⟨sequences, mirrors⟩ := stands.mirrors
  obtain ⟨list, member, ends⟩ := idle
  obtain ⟨i, found⟩ := List.mem_iff_getElem?.mp member
  exact mirrors.faithful.alive i dummy ⟨list, found, mem_row.mpr (ends.imp_right Or.inr)⟩

theorem allocator_fresh (allocator : Allocator α) (lists : FreqLists α) :
    Fresh lists (allocator.make lists.made) (allocator.make (allocator.make lists.made :: lists.made)) := by
  refine ⟨allocator.fresh _, ?_, ?_⟩
  · exact fun member => allocator.fresh _ (List.mem_cons_of_mem _ member)
  · exact fun same => allocator.fresh _ (List.mem_cons.mpr (.inl same.symm))

theorem setMinFreq (stands : Stands address recency linked cache) (least : Int) :
    Stands address recency { linked with minFreq_ := least } { cache with minFreq_ := least } :=
  ⟨stands.mirrors, stands.filed, stands.nodes, stands.dummies, stands.fresh, stands.keyed, stands.inside,
    stands.once, stands.nodeMap_, stands.capacity_, rfl, stands.maxAverageNum_, stands.curAverageNum_, stands.curTotalNum_⟩

theorem setTotal (stands : Stands address recency linked cache) (total average : Int) :
    Stands address recency { linked with curTotalNum_ := total, curAverageNum_ := average }
      { cache with curTotalNum_ := total, curAverageNum_ := average } :=
  ⟨stands.mirrors, stands.filed, stands.nodes, stands.dummies, stands.fresh, stands.keyed, stands.inside,
    stands.once, stands.nodeMap_, stands.capacity_, stands.minFreq_, stands.maxAverageNum_, rfl, rfl⟩

variable [DecidableEq α]

theorem cell (stands : Stands address recency linked cache) {sequences : Nat → List α}
    (mirrors : Mirrors address cache.freqToFreqList_ linked.linked sequences) (member : node ∈ recency) :
    ∃ i, linked.linked.freqToFreqList_.lookup (cache.freq node) = some i ∧ address node ∈ sequences i ∧
      (cache.bucket (cache.freq node)).map address = sequences i := by
  have listed := stands.listed member
  obtain ⟨i, list, leads, _, same, _⟩ := mirrors.shows (RLfuCache.bucket_made (List.ne_nil_of_mem listed))
  exact ⟨i, leads, same ▸ List.mem_map_of_mem listed, same⟩

theorem alive (stands : Stands address recency linked cache) (member : node ∈ recency) :
    address node ∈ linked.linked.lists.made ∧ ¬Dummy linked.linked.lists (address node) := by
  obtain ⟨sequences, mirrors⟩ := stands.mirrors
  obtain ⟨i, _, among, _⟩ := stands.cell mirrors member
  refine ⟨mirrors.faithful.alive i _ (mirrors.faithful.has_of_mem among), ?_⟩
  intro dummy
  exact (mirrors.faithful.idle (.inr dummy)).1 i among

theorem address_inj (stands : Stands address recency linked cache) {other : NodePtr} (first : node ∈ recency)
    (second : other ∈ recency) (same : address node = address other) : node = other := by
  obtain ⟨sequences, mirrors⟩ := stands.mirrors
  obtain ⟨i, leads, among, bucket⟩ := stands.cell mirrors first
  obtain ⟨j, leadsOther, amongOther, _⟩ := stands.cell mirrors second
  obtain rfl := mirrors.faithful.unique among (same ▸ amongOther)
  have freqs := mirrors.apart _ _ i leads leadsOther
  have nodup : ((cache.bucket (cache.freq node)).map address).Nodup := bucket ▸ mirrors.faithful.nodup i
  exact List.inj_on_of_nodup_map nodup (stands.listed first) (freqs ▸ stands.listed second) same

theorem setFreq_nodes (stands : Stands address recency linked cache) (member : node ∈ recency) (freq : Int)
    {other : NodePtr} (inside : other ∈ recency) :
    (linked.setFreq (address node) freq).nodes (address other) = (cache.setFreq node freq).nodes other := by
  simp only [LinkedCache.setFreq, RLfuCache.setFreq]
  by_cases here : other = node
  · subst here
    rw [Function.update_self, Function.update_self, stands.nodes other inside]
  · rw [Function.update_of_ne here, Function.update_of_ne, stands.nodes other inside]
    exact fun same => here (stands.address_inj inside member same)

theorem setFreq_dummy (stands : Stands address recency linked cache) (member : node ∈ recency) (freq : Int) {dummy : α}
    (idle : Dummy linked.linked.lists dummy) : (linked.setFreq (address node) freq).nodes dummy = emptyNode := by
  simp only [LinkedCache.setFreq]
  rw [Function.update_of_ne, stands.dummies dummy idle]
  rintro rfl
  exact (stands.alive member).2 idle

theorem mem_moved {other : NodePtr} (member : node ∈ recency) : other ∈ recency.erase node ++ [node] ↔ other ∈ recency := by
  rw [List.mem_append, List.mem_singleton]
  constructor
  · rintro (old | rfl)
    · exact List.mem_of_mem_erase old
    · exact member
  · intro inside
    by_cases here : other = node
    · exact .inr here
    · exact .inl ((List.mem_erase_of_ne here).mpr inside)

theorem changeFreq (stands : Stands address recency linked cache) (allocator : Allocator α) (member : node ∈ recency)
    (freq : Int) : ∃ lists after,
      cache.changeFreq node freq = some { cache.setFreq node freq with freqToFreqList_ := lists } ∧
      linked.changeFreq allocator (address node) freq = some after ∧
      Stands address (recency.erase node ++ [node]) after { cache.setFreq node freq with freqToFreqList_ := lists } := by
  obtain ⟨sequences, mirrors⟩ := stands.mirrors
  obtain ⟨lists, moved, filed, _⟩ := RLfuCache.changeFreq_spec stands.filed member freq
  obtain ⟨_, next, updated, again, links, mirrors⟩ := LinkedLists.changeFreq_mirrors mirrors (stands.listed member) freq
    (allocator_fresh allocator linked.linked.lists)
  cases moved.symm.trans again
  obtain ⟨between, removed, added⟩ := Option.bind_eq_some_iff.mp links
  have kept := LinkedLists.removeFromFreqList_kept removed
  let changed : LinkedCache α Key Value := { linked with linked := between }.setFreq (address node) freq
  have made : changed.linked.lists.made = linked.linked.lists.made := kept.made
  have count : changed.freq (address node) = freq := by
    simp only [LinkedCache.freq, changed, LinkedCache.setFreq, Function.update_self]
  rw [← made] at added
  obtain ⟨nodes, adding, frame, dummies⟩ := addToFreqList_spec count added
  have moving : linked.changeFreq allocator (address node) freq = some { changed with linked := next, nodes := nodes } := by
    rw [LinkedCache.changeFreq, LinkedCache.removeFromFreqList, stands.freq member, removed]
    exact adding
  refine ⟨lists, _, moved, moving, ⟨updated, mirrors⟩, RLfuCache.setFreq_freq cache node freq ▸ filed, ?_, ?_, ?_, ?_, ?_,
    stands.once, stands.nodeMap_, stands.capacity_, stands.minFreq_, stands.maxAverageNum_, stands.curAverageNum_,
    stands.curTotalNum_⟩
  · intro other inside
    have among := (mem_moved member).mp inside
    exact (frame _ (made ▸ (stands.alive among).1)).trans (stands.setFreq_nodes member freq among)
  · intro dummy idle
    rcases dummies dummy idle with ⟨list, inside, ends⟩ | new
    · have before : Dummy linked.linked.lists dummy := ⟨list, kept.lists ▸ inside, ends⟩
      exact (frame _ (made ▸ stands.dummy_alive before)).trans (stands.setFreq_dummy member freq before)
    · exact new
  · exact fun other inside => stands.fresh other ((mem_moved member).mp inside)
  · exact fun entry inside => (setFreq_key cache node entry.2 freq).trans (stands.keyed entry inside)
  · exact fun other resident => (mem_moved member).mpr (stands.inside other resident)

theorem decay (stands : Stands address recency linked cache) (allocator : Allocator α) {visited : List NodePtr}
    (members : ∀ node ∈ visited, node ∈ recency) : ∃ order final after,
      visited.foldlM (fun cache node => cache.changeFreq node (decayed cache.maxAverageNum_ (cache.freq node))) cache =
        some final ∧
      (visited.map address).foldlM
        (fun cache node => cache.changeFreq allocator node (decayed cache.maxAverageNum_ (cache.freq node))) linked =
        some after ∧
      Stands address order after final := by
  induction visited generalizing recency linked cache with
  | nil => exact ⟨recency, cache, linked, rfl, rfl, stands⟩
  | cons node visited ih =>
    have member := members node List.mem_cons_self
    obtain ⟨lists, between, moved, moving, still⟩ :=
      stands.changeFreq allocator member (decayed cache.maxAverageNum_ (cache.freq node))
    have kept : ∀ other ∈ visited, other ∈ recency.erase node ++ [node] := by
      intro other inside
      have among := members other (List.mem_cons_of_mem _ inside)
      by_cases here : other = node
      · exact List.mem_append_right _ (List.mem_singleton.mpr here)
      · exact List.mem_append_left _ ((List.mem_erase_of_ne here).mpr among)
    obtain ⟨order, final, after, first, second, stands'⟩ := ih still kept
    refine ⟨order, final, after, ?_, ?_, stands'⟩
    · rw [List.foldlM_cons, moved]
      exact first
    · rw [List.map_cons, List.foldlM_cons, stands.maxAverageNum_, stands.freq member, moving]
      exact second

theorem lookup (stands : Stands address recency linked cache) (freq : Int) :
    (linked.linked.freqToFreqList_.lookup freq).Rel (fun i nodes => linked.isEmpty i = nodes.isEmpty)
      (cache.freqToFreqList_.lookup freq) := by
  obtain ⟨sequences, mirrors⟩ := stands.mirrors
  have mapped := mirrors.mapped freq
  cases found : cache.freqToFreqList_.lookup freq with
  | none =>
    rw [found, Option.map_none, eq_comm, Option.map_eq_none_iff] at mapped
    rw [mapped]
    exact .none
  | some nodes =>
    obtain ⟨i, list, leads, present, _, shows⟩ := mirrors.shows found
    rw [leads]
    refine .some ?_
    rw [isEmpty, present, Option.all_some, Bool.eq_iff_iff, shows.isEmpty, List.map_eq_nil_iff, List.isEmpty_iff]

theorem raiseMinFreq (stands : Stands address recency linked cache) (member : node ∈ recency) :
    (linked.raiseMinFreq (address node)).Rel (Stands address recency) (cache.raiseMinFreq node) := by
  rw [LinkedCache.raiseMinFreq, RLfuCache.raiseMinFreq, stands.freq member, stands.minFreq_]
  split
  · refine Machine.rel_map (stands.lookup _) fun i nodes same => ?_
    rw [same]
    split
    · exact stands.setMinFreq _
    · exact stands
  · exact .some stands

theorem updateMinFreq (stands : Stands address recency linked cache) :
    Stands address recency linked.updateMinFreq cache.updateMinFreq := by
  have folded : linked.linked.freqToFreqList_.entries.foldl
      (fun least list => if linked.isEmpty list.2 then least else min least list.1) INT8_MAX =
      (linked.linked.freqToFreqList_.entries.map (shown linked)).foldl
        (fun least list => if list.2.isEmpty then least else min least list.1) INT8_MAX := by
    simp only [List.foldl_map, shown_isEmpty]
    rfl
  have same : linked.linked.freqToFreqList_.entries.foldl
      (fun least list => if linked.isEmpty list.2 then least else min least list.1) INT8_MAX =
      cache.freqToFreqList_.entries.foldl
        (fun least list => if list.2.isEmpty then least else min least list.1) INT8_MAX := by
    rw [folded]
    apply Int.le_antisymm
    · apply least_le
      intro ⟨freq, nodes⟩ member listed
      have rel := stands.lookup freq
      rw [AList.mem_lookup_iff.mpr member] at rel
      cases leads : linked.linked.freqToFreqList_.lookup freq with
      | none =>
        rw [leads] at rel
        cases rel
      | some i =>
        rw [leads, Option.rel_some_some] at rel
        refine ⟨_, List.mem_map_of_mem (AList.mem_lookup_iff.mp leads), ?_, rfl⟩
        rwa [ne_eq, ← List.isEmpty_iff, shown_isEmpty, rel, List.isEmpty_iff]
    · apply least_le
      intro list member listed
      obtain ⟨⟨freq, i⟩, among, rfl⟩ := List.mem_map.mp member
      have rel := stands.lookup freq
      rw [AList.mem_lookup_iff.mpr among] at rel
      cases found : cache.freqToFreqList_.lookup freq with
      | none =>
        rw [found] at rel
        cases rel
      | some nodes =>
        rw [found, Option.rel_some_some] at rel
        refine ⟨⟨freq, nodes⟩, AList.mem_lookup_iff.mp found, ?_, rfl⟩
        rwa [ne_eq, ← List.isEmpty_iff, shown_isEmpty, rel, List.isEmpty_iff] at listed
  rw [LinkedCache.updateMinFreq, RLfuCache.updateMinFreq, same]
  exact stands.setMinFreq _

end Stands
end LinkedCache
end Webserver
