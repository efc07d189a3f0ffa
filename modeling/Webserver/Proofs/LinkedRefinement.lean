import Mathlib.Algebra.Order.BigOperators.Group.List
import Mathlib.Algebra.Order.Group.Nat
import Webserver.Proofs.CacheIntegrity
import Webserver.Proofs.LinkedNodes

/-! The cache with linked lists does what the cache with plain lists does, operation for
operation, and fails where that one fails. -/

namespace Webserver
open Library

universe u v w

namespace RLfuCache
variable {Key : Type v} {Value : Type w} [DecidableEq Key] [Inhabited Key] {cache freed : RLfuCache Key Value}

private theorem kickOut_nodeMap_ (kicked : cache.kickOut = some freed) :
    ∃ key, freed.nodeMap_ = cache.nodeMap_.erase key := by
  unfold kickOut at kicked
  split at kicked
  · cases kicked
  next node _ _ =>
    obtain ⟨removed, unfiled, same⟩ := Option.bind_eq_some_iff.mp kicked
    obtain ⟨_, _, rfl⟩ := Option.map_eq_some_iff.mp unfiled
    cases same
    exact ⟨(cache.nodes node).key, rfl⟩
  next =>
    obtain ⟨_, _, rfl⟩ := Option.map_eq_some_iff.mp kicked
    exact ⟨default, rfl⟩

private theorem makeRoom_absent {key : Key} (absent : cache.nodeMap_.lookup key = none)
    (made : cache.makeRoom = some freed) : freed.nodeMap_.lookup key = none := by
  unfold makeRoom at made
  split at made
  · obtain ⟨other, same⟩ := kickOut_nodeMap_ made
    rw [AList.lookup_eq_none] at absent ⊢
    rw [same, AList.mem_erase]
    exact fun member => absent member.2
  · cases made
    exact absent

/-- With the usual limits every operation goes through, whatever came before. -/
theorem run_enabled [Inhabited Value] (capacity : Nat) {maxAverageNum : Int} (lower : 2 ≤ maxAverageNum)
    (upper : maxAverageNum ≤ 250) (events : List (CacheEvent Key Value)) : ∃ cache ledger,
      recorded.run events (new capacity maxAverageNum, fun _ => none) = some (cache, ledger) ∧
      Kept capacity cache ledger := by
  have enabled : ∀ event (before : RLfuCache Key Value × (Key → Option Value)), Kept capacity before.1 before.2 →
      ∃ after, recorded.step event before = some after ∧ Kept capacity after.1 after.2 := by
    intro event ⟨cache, ledger⟩ kept
    obtain ⟨recency, linked⟩ := kept.light.sound.linked
    obtain ⟨after, stepped, _⟩ := step_spec event linked (kept.light.sound.evictable event)
    exact ⟨(after, record event cache ledger), Machine.watch_step.mpr ⟨stepped, rfl⟩, step_kept kept stepped⟩
  let start : RLfuCache Key Value × (Key → Option Value) := (new capacity maxAverageNum, fun _ => none)
  have initial : Kept capacity start.1 start.2 := new_kept capacity lower upper
  obtain ⟨⟨cache, ledger⟩, reached, kept⟩ := Machine.run_enabled enabled events initial
  exact ⟨cache, ledger, reached, kept⟩

end RLfuCache

namespace LinkedCache
open LinkedLists (Mirrors)
open FreqLists (Faithful Dummy Fresh)
open RLfuCache (Node NodePtr decayed average INT8_MAX)

variable {α : Type u} {Key : Type v} {Value : Type w} [Inhabited Key] [Inhabited Value]
variable {address : NodePtr → α} {recency : List NodePtr} {linked : LinkedCache α Key Value} {cache : RLfuCache Key Value}
variable {node : NodePtr}

/-- The two caches stand for one another. -/
def Related (linked : LinkedCache α Key Value) (cache : RLfuCache Key Value) : Prop :=
  ∃ address recency, Stands address recency linked cache

namespace Stands

theorem decreaseFreqNum (stands : Stands address recency linked cache) (num : Int) :
    Stands address recency (linked.decreaseFreqNum num) (cache.decreaseFreqNum num) := by
  rw [LinkedCache.decreaseFreqNum, RLfuCache.decreaseFreqNum, stands.curTotalNum_, stands.size]
  exact stands.setTotal _ _

section Maps
variable [DecidableEq Key]

theorem nodeMap_lookup (stands : Stands address recency linked cache) (key : Key) :
    linked.nodeMap_.lookup key = (cache.nodeMap_.lookup key).map address := by
  rw [AList.lookup, stands.nodeMap_]
  exact @List.dlookup_map₂ Key _ (fun _ => NodePtr) (fun _ => α) cache.nodeMap_.entries (fun _ => address) key

theorem nodeMap_erase (stands : Stands address recency linked cache) (key : Key) :
    (linked.nodeMap_.erase key).entries = (cache.nodeMap_.erase key).entries.map (place address) := by
  change linked.nodeMap_.entries.kerase key = (cache.nodeMap_.entries.kerase key).map _
  rw [stands.nodeMap_]
  induction cache.nodeMap_.entries with
  | nil => rfl
  | cons entry entries ih =>
    by_cases here : key = entry.1
    · rw [List.map_cons, List.kerase_cons_eq (s := place address entry) here, List.kerase_cons_eq here]
    · rw [List.map_cons, List.kerase_cons_ne (s := place address entry) here, List.kerase_cons_ne here, ih, List.map_cons]

theorem eraseKey {order : List NodePtr} {links : LinkedLists α} {lists : AList fun _ : Int => List NodePtr} {key : Key}
    (stands : Stands address recency linked cache) (mirrors : ∃ sequences, Mirrors address lists links sequences)
    (filed : Filed ({ cache with freqToFreqList_ := lists } : RLfuCache Key Value).bucket order cache.freq)
    (dummies : ∀ dummy, Dummy links.lists dummy → Dummy linked.linked.lists dummy)
    (fewer : ∀ node ∈ order, node ∈ recency) (left : ∀ node ∈ (cache.eraseKey key).residents, node ∈ order) :
    Stands address order ({ linked with linked := links }.eraseKey key)
      ({ cache with freqToFreqList_ := lists }.eraseKey key) := by
  have sublist := List.kerase_sublist key cache.nodeMap_.entries
  refine ⟨mirrors, filed, fun node member => stands.nodes node (fewer node member),
    fun dummy idle => stands.dummies dummy (dummies dummy idle), fun node member => stands.fresh node (fewer node member),
    fun entry member => stands.keyed entry (sublist.subset member), left, (sublist.map _).nodup stands.once,
    stands.nodeMap_erase key, stands.capacity_, stands.minFreq_, stands.maxAverageNum_, stands.curAverageNum_,
    stands.curTotalNum_⟩

/-- A node that its key does not lead to any more has left the map. -/
theorem erased_residents (stands : Stands address recency linked cache) {other : NodePtr}
    (member : other ∈ (cache.eraseKey (cache.nodes node).key).residents) : other ∈ recency ∧ other ≠ node := by
  have sublist := List.kerase_sublist (cache.nodes node).key cache.nodeMap_.entries
  refine ⟨stands.inside other ((sublist.map Sigma.snd).subset member), ?_⟩
  rintro rfl
  obtain ⟨key, among⟩ := RLfuCache.mem_residents.mp member
  have keyed : (cache.nodes other).key = key := stands.keyed _ (sublist.subset among)
  have left : key ∈ (cache.nodeMap_.entries.kerase (cache.nodes other).key).keys := List.mem_keys_of_mem among
  have absent := List.notMem_keys_kerase (cache.nodes other).key cache.nodeMap_.nodupKeys
  rw [keyed] at left absent
  exact absent left

theorem insertNode_keyed (stands : Stands address recency linked cache) {key : Key} (value : Value)
    (absent : key ∉ cache.nodeMap_) :
    ∀ entry ∈ (cache.insertNode key value).nodeMap_.entries, ((cache.insertNode key value).nodes entry.2).key = entry.1 := by
  have entries : (cache.insertNode key value).nodeMap_.entries = ⟨key, cache.allocated⟩ :: cache.nodeMap_.entries :=
    AList.entries_insert_of_notMem absent
  intro entry member
  rw [entries] at member
  simp only [RLfuCache.insertNode, RLfuCache.addToFreqList, RLfuCache.newNode]
  rcases List.mem_cons.mp member with rfl | old
  · rw [Function.update_self]
  · have resident : entry.2 ∈ cache.residents := List.mem_map_of_mem old
    have other : entry.2 ≠ cache.allocated := fun same => stands.young (same ▸ stands.inside _ resident)
    rw [Function.update_of_ne other]
    exact stands.keyed entry old

end Maps

variable [DecidableEq α]

theorem handleOverMaxAverageNum (stands : Stands address recency linked cache) (allocator : Allocator α) (visit : Visit) :
    ∃ order final after, cache.handleOverMaxAverageNum visit.order = some final ∧
      linked.handleOverMaxAverageNum allocator visit = some after ∧ Stands address order after final := by
  have residents := stands.residents
  have empty : linked.residents.isEmpty = cache.residents.isEmpty := by
    rw [residents]
    simp
  by_cases none : cache.residents.isEmpty
  · exact ⟨recency, cache, linked, if_pos none, if_pos (empty.trans none), stands⟩
  · have visited : ∀ node ∈ visit.order.visit cache.residents, node ∈ recency :=
      fun node member => stands.inside node ((visit.order.perm _).mem_iff.mp member)
    obtain ⟨order, final, after, first, second, still⟩ := stands.decay allocator visited
    refine ⟨order, final.updateMinFreq, after.updateMinFreq, ?_, ?_, still.updateMinFreq⟩
    · rw [RLfuCache.handleOverMaxAverageNum, if_neg none, first]
      rfl
    · have arranged : visit.arrange cache.residents = visit.order.visit cache.residents := rfl
      rw [LinkedCache.handleOverMaxAverageNum, empty, if_neg none, residents, visit.arrange_map, arranged, second]
      rfl

theorem addFreqNum (stands : Stands address recency linked cache) (allocator : Allocator α) (visit : Visit) :
    ∃ order final after, cache.addFreqNum visit.order = some final ∧ linked.addFreqNum allocator visit = some after ∧
      Stands address order after final := by
  have counted := stands.setTotal (cache.curTotalNum_ + 1) (average (cache.curTotalNum_ + 1) cache.size)
  rw [RLfuCache.addFreqNum, LinkedCache.addFreqNum, stands.curTotalNum_, stands.size]
  dsimp only
  have limit := stands.maxAverageNum_
  by_cases exceeded : average (cache.curTotalNum_ + 1) cache.size > cache.maxAverageNum_
  · rw [if_pos exceeded, if_pos (limit ▸ exceeded)]
    exact counted.handleOverMaxAverageNum allocator visit
  · rw [if_neg exceeded, if_neg (limit ▸ exceeded)]
    exact ⟨recency, _, _, rfl, rfl, counted⟩

theorem getInternal (stands : Stands address recency linked cache) (allocator : Allocator α) (visit : Visit)
    (member : node ∈ recency) :
    (linked.getInternal allocator visit (address node)).Rel
      (fun found other => found.1 = other.1 ∧ Related found.2 other.2) (cache.getInternal visit.order node) := by
  obtain ⟨lists, after, moved, moving, still⟩ := stands.changeFreq allocator member (cache.freq node + 1)
  rw [LinkedCache.getInternal, RLfuCache.getInternal, stands.freq member, moved, moving]
  refine Machine.rel_bind (still.raiseMinFreq (List.mem_append_right _ (List.mem_singleton_self node))) ?_
  intro raised other again
  obtain ⟨order, final, last, first, second, done⟩ := again.addFreqNum allocator visit
  rw [first, second]
  exact .some ⟨congrArg Node.value (stands.nodes node member), address, order, done⟩

theorem release (stands : Stands address recency linked cache) (gone : α) :
    Stands address recency (linked.release gone) cache := by
  obtain ⟨sequences, mirrors⟩ := stands.mirrors
  rw [LinkedCache.release, FreqLists.step]
  split
  next loose =>
    have alive : ∀ i node, FreqLists.Has linked.linked.lists sequences i node →
        node ∈ linked.linked.lists.made.filter (· ≠ gone) := by
      intro i node has
      refine List.mem_filter.mpr ⟨mirrors.faithful.alive i node has, decide_eq_true ?_⟩
      rintro rfl
      exact mirrors.faithful.linked has loose
    exact ⟨⟨sequences, mirrors.remake alive⟩, stands.filed, stands.nodes, stands.dummies,
      stands.fresh, stands.keyed, stands.inside, stands.once, stands.nodeMap_, stands.capacity_,
      stands.minFreq_, stands.maxAverageNum_, stands.curAverageNum_, stands.curTotalNum_⟩
  next => exact stands

theorem setValue (stands : Stands address recency linked cache) (member : node ∈ recency) (value : Value) :
    Stands address recency (linked.setValue (address node) value) (cache.setValue node value) := by
  refine ⟨stands.mirrors, ?_, ?_, ?_, stands.fresh, ?_, stands.inside, stands.once, stands.nodeMap_, stands.capacity_,
    stands.minFreq_, stands.maxAverageNum_, stands.curAverageNum_, stands.curTotalNum_⟩
  · rw [RLfuCache.setValue_freq]
    exact stands.filed
  · intro other inside
    simp only [LinkedCache.setValue, RLfuCache.setValue]
    by_cases here : other = node
    · subst here
      rw [Function.update_self, Function.update_self, stands.nodes other inside]
    · rw [Function.update_of_ne here, Function.update_of_ne, stands.nodes other inside]
      exact fun same => here (stands.address_inj inside member same)
  · intro dummy idle
    simp only [LinkedCache.setValue]
    rw [Function.update_of_ne, stands.dummies dummy idle]
    rintro rfl
    exact (stands.alive member).2 idle
  · intro entry inside
    refine Eq.trans ?_ (stands.keyed entry inside)
    simp only [RLfuCache.setValue, Function.update_apply]
    split <;> simp_all

/-- An address that no live node has belongs to no list, whatever was there before. -/
theorem unused (stands : Stands address recency linked cache) {new : α} (fresh : new ∉ linked.linked.lists.made) :
    linked.linked.lists.heap new = Links.unlinked ∧
      FreqList.makeNode new linked.linked.lists.heap = linked.linked.lists.heap := by
  obtain ⟨sequences, mirrors⟩ := stands.mirrors
  have free : ∀ i, ¬FreqLists.Has linked.linked.lists sequences i new :=
    fun i has => fresh (mirrors.faithful.alive i new has)
  exact ⟨mirrors.faithful.loose new free, mirrors.faithful.makeNode_eq free⟩

variable [DecidableEq Key]

theorem kickFirst (stands : Stands address recency linked cache) (member : node ∈ recency) :
    (((linked.removeFromFreqList (address node)).map fun removed =>
      ((removed.eraseKey (linked.nodes (address node)).key).decreaseFreqNum (linked.freq (address node))).release
        (address node))).Rel Related
      ((cache.removeFromFreqList node).bind fun removed =>
        some ((removed.eraseKey (cache.nodes node).key).decreaseFreqNum (cache.freq node))) := by
  obtain ⟨sequences, mirrors⟩ := stands.mirrors
  have listed := stands.listed member
  obtain ⟨lists, removed, erased, _⟩ := RLfuCache.removeFromFreqList_spec (List.ne_nil_of_mem listed)
  obtain ⟨_, next, updated, again, links, mirrors, _⟩ := LinkedLists.removeFromFreqList_mirrors mirrors listed
  cases removed.symm.trans again
  have kept := LinkedLists.removeFromFreqList_kept links
  have filed := stands.filed.remove node
  rw [← erased] at filed
  rw [LinkedCache.removeFromFreqList, stands.freq member, links, removed, stands.nodes node member]
  have dummies : ∀ dummy, Dummy next.lists dummy → Dummy linked.linked.lists dummy := by
    rintro dummy ⟨list, inside, ends⟩
    exact ⟨list, kept.lists ▸ inside, ends⟩
  have left : ∀ other ∈ (cache.eraseKey (cache.nodes node).key).residents, other ∈ recency.erase node := by
    intro other resident
    obtain ⟨inside, apart⟩ := stands.erased_residents resident
    exact (List.mem_erase_of_ne apart).mpr inside
  have still := stands.eraseKey ⟨updated, mirrors⟩ filed dummies (fun other inside => List.mem_of_mem_erase inside) left
  exact .some ⟨address, recency.erase node, (still.decreaseFreqNum _).release _⟩

/-- The dummy of an empty list stays where it is, and its key leaves the map. -/
theorem kickDummy (stands : Stands address recency linked cache) {dummy : α} (idle : Dummy linked.linked.lists dummy) :
    (((linked.removeFromFreqList dummy).map fun removed =>
      ((removed.eraseKey (linked.nodes dummy).key).decreaseFreqNum (linked.freq dummy)).release dummy)).Rel Related
      ((cache.freqToFreqList_.lookup 1).map fun _ => (cache.eraseKey default).decreaseFreqNum 1) := by
  obtain ⟨sequences, mirrors⟩ := stands.mirrors
  have empty := stands.dummies dummy idle
  have one : linked.freq dummy = 1 := congrArg Node.freq empty
  rw [LinkedCache.removeFromFreqList, one, empty]
  cases found : cache.freqToFreqList_.lookup 1 with
  | none =>
    have mapped := mirrors.mapped 1
    rw [found, Option.map_none, eq_comm, Option.map_eq_none_iff] at mapped
    rw [LinkedLists.removeFromFreqList, LinkedLists.call, mapped]
    exact .none
  | some nodes =>
    rw [mirrors.removeDummy (by rw [found]; rfl) idle]
    have sublist := List.kerase_sublist (default : Key) cache.nodeMap_.entries
    have still := stands.eraseKey ⟨sequences, mirrors⟩ stands.filed (fun _ => id) (fun _ => id)
      fun other member => stands.inside other ((sublist.map Sigma.snd).subset member)
    exact .some ⟨address, recency, (still.decreaseFreqNum 1).release dummy⟩

theorem kickOut (stands : Stands address recency linked cache) : linked.kickOut.Rel Related cache.kickOut := by
  obtain ⟨sequences, mirrors⟩ := stands.mirrors
  rw [LinkedCache.kickOut, RLfuCache.kickOut, stands.minFreq_]
  cases found : cache.freqToFreqList_.lookup cache.minFreq_ with
  | none =>
    have mapped := mirrors.mapped cache.minFreq_
    rw [found, Option.map_none, eq_comm, Option.map_eq_none_iff] at mapped
    rw [LinkedLists.firstNode, mapped]
    exact .none
  | some nodes =>
    cases nodes with
    | cons node rest =>
      obtain ⟨first, looked, real, _⟩ := mirrors.firstNode_spec found
      obtain rfl := real node rest rfl
      have bucket : node ∈ cache.bucket cache.minFreq_ := by
        rw [RLfuCache.bucket, found]
        exact List.mem_cons_self
      rw [looked]
      exact stands.kickFirst (stands.filed.mem.mp bucket).1
    | nil =>
      obtain ⟨first, looked, _, idle⟩ := mirrors.firstNode_spec found
      rw [looked]
      exact stands.kickDummy (idle rfl)

def withNode (new : α) (key : Key) (value : Value) (linked : LinkedCache α Key Value) : LinkedCache α Key Value :=
  { linked with
    linked := { linked.linked with lists := { linked.linked.lists with made := new :: linked.linked.lists.made } }
    nodes := Function.update linked.nodes new ⟨1, key, value⟩
    nodeMap_ := linked.nodeMap_.insert key new }

theorem newNode_eq (stands : Stands address recency linked cache) (allocator : Allocator α) (key : Key) (value : Value) :
    linked.newNode allocator key value = some (withNode (allocator.make linked.linked.lists.made) key value linked) := by
  have fresh := allocator.fresh linked.linked.lists.made
  rw [LinkedCache.newNode, FreqLists.step, if_neg fresh, (stands.unused fresh).2]
  rfl

theorem withNode_added (stands : Stands address recency linked cache) (allocator : Allocator α) {new : α} (key : Key)
    (value : Value) (fresh : new ∉ linked.linked.lists.made) {made : List α} (has : made = new :: linked.linked.lists.made) :
    ∃ next updated,
      (withNode new key value linked).linked.addToFreqList 1 (some new) (allocator.make made)
        (allocator.make (allocator.make made :: made)) = some next ∧
      Mirrors (Function.update address cache.allocated new) (cache.insertNode key value).freqToFreqList_ next updated := by
  subst has
  obtain ⟨sequences, mirrors⟩ := stands.mirrors
  have placed : Mirrors (Function.update address cache.allocated new) (cache.newNode key value).freqToFreqList_
      (withNode new key value linked).linked sequences := by
    refine (mirrors.readdress ?_).remake fun i node has => List.mem_cons_of_mem _ (mirrors.faithful.alive i node has)
    intro freq nodes found node member
    have bucket : node ∈ cache.bucket freq := by rwa [RLfuCache.bucket, found]
    exact stands.elsewhere new (stands.filed.mem.mp bucket).1
  have here : Function.update address cache.allocated new cache.allocated = new := Function.update_self ..
  have alive : Function.update address cache.allocated new cache.allocated ∈
      (withNode new key value linked).linked.lists.made := by
    rw [here]
    exact List.mem_cons_self
  have loose : (withNode new key value linked).linked.lists.heap
      (Function.update address cache.allocated new cache.allocated) = Links.unlinked := by
    rw [here]
    exact (stands.unused fresh).1
  have count : (cache.newNode key value).freq cache.allocated = 1 := by
    simp only [RLfuCache.freq, RLfuCache.newNode, Function.update_self]
  obtain ⟨next, updated, added, mirrors⟩ :=
    LinkedLists.addToFreqList_mirrors placed (allocator_fresh allocator _) alive loose
  rw [count, here] at added
  exact ⟨next, updated, added, mirrors⟩

theorem withNode_nodes (stands : Stands address recency linked cache) {new : α} (key : Key) (value : Value)
    (fresh : new ∉ linked.linked.lists.made) (member : node ∈ recency) :
    (withNode new key value linked).nodes (address node) = (cache.insertNode key value).nodes node := by
  have apart : address node ≠ new := by
    rintro rfl
    exact fresh (stands.alive member).1
  have other : node ≠ cache.allocated := by
    rintro rfl
    exact stands.young member
  simp only [withNode, RLfuCache.insertNode, RLfuCache.addToFreqList, RLfuCache.newNode, Function.update_of_ne apart,
    Function.update_of_ne other, stands.nodes node member]

theorem insertNode_nodeMap (stands : Stands address recency linked cache) (new : α) {key : Key} (value : Value)
    (absent : key ∉ cache.nodeMap_) :
    (withNode new key value linked).nodeMap_.entries =
      (cache.insertNode key value).nodeMap_.entries.map (place (Function.update address cache.allocated new)) := by
  have missed : key ∉ linked.nodeMap_ := by
    rw [← AList.lookup_eq_none, stands.nodeMap_lookup, AList.lookup_eq_none.mpr absent]
    rfl
  have entries : (cache.insertNode key value).nodeMap_.entries = ⟨key, cache.allocated⟩ :: cache.nodeMap_.entries :=
    AList.entries_insert_of_notMem absent
  rw [entries, List.map_cons]
  refine (AList.entries_insert_of_notMem missed).trans (congr (congrArg List.cons ?_) ?_)
  · rw [place, Function.update_self]
  · rw [stands.nodeMap_]
    refine List.map_congr_left fun entry old => ?_
    rw [place, place, stands.elsewhere new (stands.inside _ (List.mem_map_of_mem old))]

theorem insertNode (stands : Stands address recency linked cache) (allocator : Allocator α) {new : α} {key : Key}
    (value : Value) (fresh : new ∉ linked.linked.lists.made) (absent : cache.nodeMap_.lookup key = none) :
    ∃ added, (withNode new key value linked).addToFreqList allocator new = some added ∧
      Stands (Function.update address cache.allocated new) (recency ++ [cache.allocated]) added
        (cache.insertNode key value) := by
  obtain ⟨next, updated, linking, mirrors⟩ := stands.withNode_added allocator key value fresh rfl
  have counted : (withNode new key value linked).freq new = 1 := by
    simp only [LinkedCache.freq, withNode, Function.update_self]
  obtain ⟨nodes, added, frame, dummies⟩ := addToFreqList_spec counted linking
  have missing : key ∉ cache.nodeMap_ := AList.lookup_eq_none.mp absent
  have residents := RLfuCache.insertNode_residents value absent
  have among : ∀ node ∈ recency ++ [cache.allocated], node ∈ recency ∨ node = cache.allocated := by
    simp
  refine ⟨_, added, ⟨updated, mirrors⟩, RLfuCache.insertNode_filed stands.filed stands.young key value, ?_, ?_, ?_,
    stands.insertNode_keyed value missing, ?_, ?_, stands.insertNode_nodeMap new value missing,
    stands.capacity_, stands.minFreq_, stands.maxAverageNum_, stands.curAverageNum_, stands.curTotalNum_⟩
  · intro node member
    rcases among node member with old | rfl
    · rw [stands.elsewhere new old]
      exact (frame _ (List.mem_cons_of_mem _ (stands.alive old).1)).trans (stands.withNode_nodes key value fresh old)
    · rw [Function.update_self]
      refine (frame _ List.mem_cons_self).trans ?_
      simp only [withNode, RLfuCache.insertNode, RLfuCache.addToFreqList, RLfuCache.newNode, Function.update_self]
  · intro dummy idle
    rcases dummies dummy idle with old | done
    · have alive := stands.dummy_alive old
      refine (frame _ (List.mem_cons_of_mem _ alive)).trans ?_
      simp only [withNode]
      rw [Function.update_of_ne, stands.dummies dummy old]
      rintro rfl
      exact fresh alive
    · exact done
  · intro node member
    rcases among node member with old | rfl
    · exact Nat.lt_succ_of_lt (stands.fresh node old)
    · exact Nat.lt_succ_self _
  · intro node member
    rw [residents] at member
    rcases List.mem_cons.mp member with rfl | old
    · exact List.mem_append_right _ (List.mem_singleton_self _)
    · exact List.mem_append_left _ (stands.inside node old)
  · rw [residents]
    exact List.nodup_cons.mpr ⟨fun member => stands.young (stands.inside _ member), stands.once⟩

end Stands

private theorem purge_related (related : Related linked cache) : Related linked.purge cache.purge := by
  obtain ⟨address, _, stands⟩ := related
  obtain ⟨sequences, mirrors⟩ := stands.mirrors
  have nobody : cache.purge.bucket = fun _ => [] := by
    funext freq
    simp [RLfuCache.bucket, RLfuCache.purge]
  refine ⟨address, [], ⟨sequences, .of_faithful mirrors.faithful⟩, nobody ▸ .empty, ?_, stands.dummies, ?_, ?_, ?_,
    List.nodup_nil, rfl, stands.capacity_, stands.minFreq_, stands.maxAverageNum_, stands.curAverageNum_, stands.curTotalNum_⟩
  all_goals
    intro node member
    cases member

theorem new_related [Inhabited α] (capacity : Nat) (maxAverageNum : Int) :
    Related (new capacity maxAverageNum : LinkedCache α Key Value) (RLfuCache.new capacity maxAverageNum) := by
  have nobody : (RLfuCache.new capacity maxAverageNum : RLfuCache Key Value).bucket = fun _ => [] := by
    funext freq
    simp [RLfuCache.bucket, RLfuCache.new]
  refine ⟨fun _ => default, [], ⟨_, .of_faithful FreqLists.faithful_empty⟩, nobody ▸ .empty, ?_, fun _ _ => rfl, ?_, ?_, ?_,
    List.nodup_nil, rfl, rfl, rfl, rfl, rfl, rfl⟩
  all_goals
    intro node member
    cases member

section Operations
variable [DecidableEq α] [DecidableEq Key]

private theorem makeRoom_related (related : Related linked cache) : linked.makeRoom.Rel Related cache.makeRoom := by
  obtain ⟨address, recency, stands⟩ := related
  rw [LinkedCache.makeRoom, RLfuCache.makeRoom, stands.size, stands.capacity_]
  split
  · exact stands.kickOut
  · exact .some ⟨address, recency, stands⟩

private theorem putInternal_related (related : Related linked cache) (allocator : Allocator α) (visit : Visit) {key : Key}
    (value : Value) (absent : cache.nodeMap_.lookup key = none) :
    (linked.putInternal allocator visit key value).Rel Related (cache.putInternal visit.order key value) := by
  have room := makeRoom_related related
  rw [LinkedCache.putInternal, RLfuCache.putInternal]
  cases made : cache.makeRoom with
  | none =>
    rw [made] at room
    cases roomy : linked.makeRoom with
    | none => exact .none
    | some freed => simp [roomy] at room
  | some other =>
    rw [made] at room
    cases roomy : linked.makeRoom with
    | none => simp [roomy] at room
    | some freed =>
      rw [roomy, Option.rel_some_some] at room
      obtain ⟨address, recency, stands⟩ := room
      obtain ⟨added, adding, still⟩ :=
        stands.insertNode allocator value (allocator.fresh _) (RLfuCache.makeRoom_absent absent made)
      obtain ⟨order, final, last, first, second, done⟩ := still.addFreqNum allocator visit
      simp only [Option.bind_eq_bind, Option.bind_some, stands.newNode_eq, adding, first, second, done.minFreq_]
      exact .some ⟨_, order, done.setMinFreq _⟩

private theorem put_related (related : Related linked cache) (allocator : Allocator α) (visit : Visit) (key : Key)
    (value : Value) :
    (linked.put allocator visit key value).Rel Related (cache.put visit.order key value) := by
  obtain ⟨address, recency, stands⟩ := related
  rw [LinkedCache.put, RLfuCache.put, stands.capacity_, stands.nodeMap_lookup]
  split
  · exact .some ⟨address, recency, stands⟩
  · cases found : cache.nodeMap_.lookup key with
    | none => exact putInternal_related ⟨address, recency, stands⟩ allocator visit value found
    | some node =>
      have member := stands.inside node (RLfuCache.mem_residents.mpr ⟨key, AList.mem_lookup_iff.mp found⟩)
      exact Machine.rel_map ((stands.setValue member value).getInternal allocator visit member) fun _ _ same => same.2

private theorem get_related (related : Related linked cache) (allocator : Allocator α) (visit : Visit) (key : Key) :
    (linked.get allocator visit key).Rel (fun found other => found.1 = other.1 ∧ Related found.2 other.2)
      (cache.get visit.order key) := by
  obtain ⟨address, recency, stands⟩ := related
  rw [LinkedCache.get, RLfuCache.get, stands.nodeMap_lookup]
  cases found : cache.nodeMap_.lookup key with
  | none => exact .some ⟨rfl, address, recency, stands⟩
  | some node =>
    have member := stands.inside node (RLfuCache.mem_residents.mpr ⟨key, AList.mem_lookup_iff.mp found⟩)
    exact Machine.rel_map (stands.getInternal allocator visit member) fun _ _ same => ⟨congrArg some same.1, same.2⟩

theorem step_related (related : Related linked cache) (event : LinkedEvent α Key Value) :
    (machine.step event linked).Rel Related (RLfuCache.machine.step event.plain cache) := by
  cases event with
  | put key value visit allocator => exact put_related related allocator visit key value
  | get key visit allocator => exact Machine.rel_map (get_related related allocator visit key) fun _ _ same => same.2
  | purge => exact .some (purge_related related)

theorem run_related [Inhabited α] (capacity : Nat) (maxAverageNum : Int) (events : List (LinkedEvent α Key Value)) :
    (machine.run events (new capacity maxAverageNum)).Rel Related
      (RLfuCache.machine.run (events.map LinkedEvent.plain) (RLfuCache.new capacity maxAverageNum)) :=
  Machine.run_bisimulates (fun event _ _ related => step_related related event) events (new_related capacity maxAverageNum)

/-- What can be asked of the two caches. -/
structure Agrees (linked : LinkedCache α Key Value) (cache : RLfuCache Key Value) : Prop where
  found : ∀ key visit allocator, (linked.get allocator visit key).map Prod.fst = (cache.get visit.order key).map Prod.fst
  keys : linked.nodeMap_.keys = cache.nodeMap_.keys
  alive : ∀ node ∈ linked.residents, node ∈ linked.linked.lists.made
  lists : ∀ freq nodes, cache.freqToFreqList_.lookup freq = some nodes → ∃ (i : Nat) (list : FreqList α) (addresses : List α),
    linked.linked.freqToFreqList_.lookup freq = some i ∧ linked.linked.lists.lists[i]? = some list ∧
    list.Shows linked.linked.lists.heap addresses ∧ addresses.map linked.nodes = nodes.map cache.nodes ∧
    ∀ node ∈ addresses, node ∈ linked.linked.lists.made

theorem Related.agrees (related : Related linked cache) : Agrees linked cache := by
  obtain ⟨address, recency, stands⟩ := related
  obtain ⟨sequences, mirrors⟩ := stands.mirrors
  refine ⟨?_, ?_, ?_, ?_⟩
  · intro key visit allocator
    have rel := get_related ⟨address, recency, stands⟩ allocator visit key
    generalize linked.get allocator visit key = found at *
    generalize cache.get visit.order key = other at *
    cases rel with
    | some same => exact congrArg some same.1
    | none => rfl
  · rw [AList.keys, stands.nodeMap_]
    exact List.map_map
  · intro node member
    rw [stands.residents] at member
    obtain ⟨resident, inside, rfl⟩ := List.mem_map.mp member
    exact (stands.alive (stands.inside resident inside)).1
  · intro freq nodes found
    obtain ⟨i, list, leads, present, _, shows⟩ := mirrors.shows found
    have members : ∀ node ∈ nodes, node ∈ recency := by
      intro node member
      have bucket : node ∈ cache.bucket freq := by rwa [RLfuCache.bucket, found]
      exact (stands.filed.mem.mp bucket).1
    refine ⟨i, list, nodes.map address, leads, present, shows, ?_, ?_⟩
    · rw [List.map_map]
      exact List.map_congr_left fun node member => stands.nodes node (members node member)
    · intro node member
      obtain ⟨resident, inside, rfl⟩ := List.mem_map.mp member
      exact (stands.alive (members resident inside)).1

/-- Over any operations, with any addresses and any order of the loops, the cache with
linked lists goes through a null pointer where the cache with plain lists does, and else
the two agree on all that can be asked of them. -/
theorem linked_cache_refines [Inhabited α] (capacity : Nat) (maxAverageNum : Int) (events : List (LinkedEvent α Key Value)) :
    (machine.run events (new capacity maxAverageNum)).Rel Agrees
      (RLfuCache.machine.run (events.map LinkedEvent.plain) (RLfuCache.new capacity maxAverageNum)) := by
  have rel := run_related capacity maxAverageNum events
  generalize machine.run events (new capacity maxAverageNum) = linked at *
  generalize RLfuCache.machine.run (events.map LinkedEvent.plain) (RLfuCache.new capacity maxAverageNum) = cache at *
  cases rel with
  | some related => exact .some related.agrees
  | none => exact .none

/-- With a limit from 2 to 250 no operation goes through a null pointer, the cache keeps
to its capacity, and a key is found with the last value put under it, unless it was
evicted or purged since. -/
theorem linked_cache_remembers [Inhabited α] (capacity : Nat) {maxAverageNum : Int} (lower : 2 ≤ maxAverageNum)
    (upper : maxAverageNum ≤ 250) (events : List (LinkedEvent α Key Value)) : ∃ linked cache ledger,
      machine.run events (new capacity maxAverageNum) = some linked ∧
      RLfuCache.recorded.run (events.map LinkedEvent.plain) (RLfuCache.new capacity maxAverageNum, fun _ => none) =
        some (cache, ledger) ∧
      linked.size ≤ capacity ∧ ∀ key visit allocator, (linked.get allocator visit key).map Prod.fst =
        some (if capacity = 0 then none else ledger key) := by
  obtain ⟨cache, ledger, reached, kept⟩ :=
    RLfuCache.run_enabled capacity lower upper (events.map (LinkedEvent.plain (α := α)))
  have rel := run_related capacity maxAverageNum events
  rw [Machine.run_of_watch reached] at rel
  cases ran : machine.run events (new capacity maxAverageNum : LinkedCache α Key Value) with
  | none => simp [ran] at rel
  | some linked =>
    rw [ran, Option.rel_some_some] at rel
    obtain ⟨bounded, _, _, _, found, _⟩ := kept.intact
    refine ⟨linked, cache, ledger, rfl, reached, ?_, fun key visit allocator => ?_⟩
    · obtain ⟨_, _, stands⟩ := rel
      exact stands.size ▸ bounded
    · obtain ⟨after, got⟩ := found key visit.order
      rw [rel.agrees.found, got]
      rfl

def above : Allocator Nat where
  make made := made.sum + 1
  fresh _ member := Nat.not_succ_le_self _ (List.le_sum_of_mem member)

def forwards : Visit := ⟨List.range, fun _ => .refl _⟩

/-- The third key evicts the second, whose address it may get. -/
theorem linked_cache_remembers_three : ∃ linked : LinkedCache Nat Nat Nat,
    machine.run [.put 1 10 forwards above, .put 2 20 forwards above, .get 1 forwards above, .put 3 30 forwards above]
      (new 2 10) = some linked ∧
    (linked.get above forwards 1).map Prod.fst = some (some 10) ∧ (linked.get above forwards 2).map Prod.fst = some none := by
  obtain ⟨linked, cache, ledger, reached, recorded, _, found⟩ := linked_cache_remembers 2 (by decide : (2 : Int) ≤ 10) (by decide)
    [LinkedEvent.put 1 10 forwards above, .put 2 20 forwards above, .get 1 forwards above, .put 3 30 forwards above]
  have ledgers : (RLfuCache.recorded.run ([LinkedEvent.put 1 10 forwards above, .put 2 20 forwards above,
      .get 1 forwards above, .put 3 30 forwards above].map LinkedEvent.plain) (RLfuCache.new 2 10, fun _ => none)).map
      (fun final : RLfuCache Nat Nat × (Nat → Option Nat) => (final.2 1, final.2 2)) = some (some 10, none) := by
    decide +kernel
  rw [recorded, Option.map_some, Option.some_inj, Prod.mk.injEq] at ledgers
  refine ⟨linked, reached, ?_, ?_⟩
  · rw [found, if_neg (by decide)]
    exact congrArg some ledgers.1
  · rw [found, if_neg (by decide)]
    exact congrArg some ledgers.2

end Operations
end LinkedCache
end Webserver
