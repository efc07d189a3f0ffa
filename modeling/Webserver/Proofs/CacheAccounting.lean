import Webserver.Library.Tally
import Webserver.Proofs.CacheEviction

/-! When `curTotalNum_` is the sum of the stored frequencies. Decay and `purge` change
the frequencies and leave the total alone. -/

namespace Webserver.RLfuCache
open Library

universe u v
variable {Key : Type u} {Value : Type v} {before after : RLfuCache Key Value} {recency : List NodePtr}
  {node : NodePtr}

def usage (cache : RLfuCache Key Value) : Int := tally cache.residents cache.freq

theorem Touched.usage {value : Value} (access : Touched before node value recency after)
    (linked : Linked before recency) (member : node ∈ before.residents) : after.usage = before.usage + 1 := by
  rw [RLfuCache.usage, RLfuCache.usage, access.residents, access.freq, tally_update linked.nodup member]
  omega

theorem Counted.usage_calm (count : Counted before after) (calm : ¬ before.Overflows) : after.usage = before.usage := by
  rw [count.calm calm]
  rfl

theorem Counted.usage_decay (count : Counted before after) (overflows : before.Overflows) :
    after.usage = tally before.residents fun node => decayed before.maxAverageNum_ (before.freq node) := by
  rw [usage, count.residents]
  apply tally_congr
  intro node member
  rw [count.freq member, if_pos overflows]

private theorem decayed_le {maxAverageNum freq : Int} (positive : 0 ≤ maxAverageNum) (used : 1 ≤ freq) :
    decayed maxAverageNum freq ≤ freq := by
  have half : 0 ≤ maxAverageNum.tdiv 2 := Int.tdiv_nonneg positive (by omega)
  rw [decayed]
  split <;> omega

private theorem decayed_lt {maxAverageNum freq : Int} (half : 1 ≤ maxAverageNum.tdiv 2) (used : 2 ≤ freq) :
    decayed maxAverageNum freq < freq := by
  rw [decayed]
  split <;> omega

private theorem decayed_none {maxAverageNum freq : Int} (half : maxAverageNum.tdiv 2 = 0) (used : 1 ≤ freq) :
    decayed maxAverageNum freq = freq := by
  rw [decayed, half]
  split <;> omega

theorem Counted.usage_le (count : Counted before after) (linked : Linked before recency)
    (positive : 0 ≤ before.maxAverageNum_) : after.usage ≤ before.usage := by
  by_cases overflows : before.Overflows
  · rw [count.usage_decay overflows]
    exact tally_le fun node member => decayed_le positive (linked.used node member)
  · exact Int.le_of_eq (count.usage_calm overflows)

theorem Counted.usage_none (count : Counted before after) (linked : Linked before recency)
    (half : before.maxAverageNum_.tdiv 2 = 0) : after.usage = before.usage := by
  by_cases overflows : before.Overflows
  · rw [count.usage_decay overflows]
    exact tally_congr fun node member => decayed_none half (linked.used node member)
  · exact count.usage_calm overflows

/-- A decay takes at least one from a node that was accessed twice. -/
theorem Counted.usage_lt (count : Counted before after) (linked : Linked before recency)
    (positive : 0 ≤ before.maxAverageNum_) (half : 1 ≤ before.maxAverageNum_.tdiv 2) (overflows : before.Overflows)
    (again : ∃ node ∈ before.residents, 2 ≤ before.freq node) : after.usage < before.usage := by
  obtain ⟨node, member, twice⟩ := again
  rw [count.usage_decay overflows]
  exact tally_lt (fun node member => decayed_le positive (linked.used node member)) ⟨node, member, decayed_lt half twice⟩

theorem usage_insertNode [DecidableEq Key] {cache : RLfuCache Key Value} {key : Key} (value : Value)
    (unused : cache.allocated ∉ cache.residents) (absent : cache.nodeMap_.lookup key = none) :
    (cache.insertNode key value).usage = cache.usage + 1 := by
  rw [usage, insertNode_residents value absent, insertNode_freq, tally_cons, Function.update_self, Int.add_comm]
  apply congrArg (· + 1)
  apply tally_congr
  intro node member
  apply Function.update_of_ne
  rintro rfl
  exact unused member

theorem Freed.usage [DecidableEq Key] {victim : NodePtr} (left : Freed before victim recency after) :
    after.usage = before.usage - before.freq victim := by
  have counts : after.freq = before.freq := by
    funext node
    rw [RLfuCache.freq, left.nodes]
    rfl
  rw [RLfuCache.usage, RLfuCache.usage, tally_perm left.residents, tally_cons, counts]
  omega

private theorem average_of_nonneg {total : Int} (positive : 0 ≤ total) (size : Nat) :
    average total size = if size = 0 then 0 else total / size := by
  rw [average, if_pos positive]

theorem Linked.usage_nonneg {cache : RLfuCache Key Value} (linked : Linked cache recency) : 0 ≤ cache.usage := by
  have above := length_le_tally linked.used
  rw [usage]
  omega

theorem average_le {total limit : Int} {size : Nat} (counted : 0 ≤ total) (positive : 0 ≤ limit) :
    average total size ≤ limit ↔ size = 0 ∨ total < size * (limit + 1) := by
  rw [average_of_nonneg counted]
  split
  next empty => simp [empty, positive]
  next occupied =>
    have some : (0 : Int) < size := by omega
    rw [← Int.lt_add_one_iff, Int.ediv_lt_iff_lt_mul some, Int.mul_comm]
    simp [occupied]

/-- The counters agree with the frequencies that are stored. -/
structure Accounted (cache : RLfuCache Key Value) : Prop where
  total : cache.curTotalNum_ = cache.usage
  average : cache.curAverageNum_ = if cache.size = 0 then 0 else cache.usage / cache.size

/-- Where a decay takes something away, none has come yet. -/
structure Audited (cache : RLfuCache Key Value) : Prop where
  linked : ∃ recency, Linked cache recency
  lower : Lower cache
  accounted : Accounted cache
  limit : 0 ≤ cache.maxAverageNum_
  calm : 1 ≤ cache.maxAverageNum_.tdiv 2 → cache.curAverageNum_ ≤ cache.maxAverageNum_
  attained : 1 ≤ cache.maxAverageNum_.tdiv 2 → cache.residents ≠ [] → cache.bucket cache.minFreq_ ≠ []

theorem new_audited [Inhabited Key] [Inhabited Value] (capacity : Nat) {maxAverageNum : Int} (positive : 1 ≤ maxAverageNum) :
    Audited (new capacity maxAverageNum : RLfuCache Key Value) := by
  have sound : Sound (new capacity maxAverageNum : RLfuCache Key Value) := new_sound capacity maxAverageNum
  have limit : (new capacity maxAverageNum : RLfuCache Key Value).maxAverageNum_ = maxAverageNum := rfl
  refine ⟨sound.linked, sound.lower, ⟨rfl, rfl⟩, ?_, ?_, fun _ => sound.attained⟩
  · omega
  · intro _
    show 0 ≤ maxAverageNum
    omega

private theorem purge_audited (audited : Audited before) :
    (Accounted before.purge ↔ before.residents = []) ∧ (Accounted before.purge → Audited before.purge) := by
  obtain ⟨⟨recency, linked⟩, lower, accounted, limit, calm, attained⟩ := audited
  have nobody : before.purge.residents = [] := rfl
  have nothing : before.purge.usage = 0 := rfl
  refine ⟨?_, ?_⟩
  · constructor
    · intro purged
      have total : before.curTotalNum_ = 0 := purged.total
      have above := length_le_tally linked.used
      rw [← List.length_eq_zero_iff]
      have same : before.usage = 0 := accounted.total.symm.trans total
      rw [usage] at same
      omega
    · intro empty
      have size : before.size = 0 := by rw [← length_residents, empty]; rfl
      have average := accounted.average
      rw [if_pos size] at average
      refine ⟨?_, average⟩
      have total := accounted.total
      rw [usage, empty] at total
      exact total
  · intro purged
    refine ⟨⟨[], Linked.empty rfl rfl⟩, ⟨lower.positive, ?_⟩, purged, limit, calm, ?_⟩
    · simp [nobody]
    · simp [nobody]

private theorem accessed_audited {touched : RLfuCache Key Value} {value : Value} (audited : Audited before)
    (linked : Linked before recency) (member : node ∈ before.residents)
    (access : Touched before node value recency touched) (count : Counted touched after) :
    (Accounted after ↔ (before.Overflows → before.maxAverageNum_.tdiv 2 = 0)) ∧ (Accounted after → Audited after) := by
  have limit : touched.maxAverageNum_ = before.maxAverageNum_ := access.maxAverageNum_
  have total : after.curTotalNum_ = touched.usage := by
    rw [count.total, access.total, audited.accounted.total, access.usage linked member]
  have again : ∃ node ∈ touched.residents, 2 ≤ touched.freq node := by
    refine ⟨node, access.residents ▸ member, ?_⟩
    have used := linked.used node member
    rw [access.freq_apply, if_pos rfl]
    omega
  have half : 0 ≤ before.maxAverageNum_.tdiv 2 := Int.tdiv_nonneg audited.limit (by omega)
  have kept : Accounted after ↔ (before.Overflows → before.maxAverageNum_.tdiv 2 = 0) := by
    constructor
    · intro accounted overflows
      by_contra something
      have less := count.usage_lt access.linked (by rw [limit]; exact audited.limit) (by rw [limit]; omega)
        (access.overflows.mpr overflows) again
      have same := accounted.total
      omega
    · intro steady
      have same : after.usage = touched.usage := by
        by_cases overflows : before.Overflows
        · exact count.usage_none access.linked (by rw [limit]; exact steady overflows)
        · exact count.usage_calm fun above => overflows (access.overflows.mp above)
      refine ⟨total.trans same.symm, ?_⟩
      rw [count.average, ← count.total, total, average_of_nonneg access.linked.usage_nonneg, same, count.size]
  refine ⟨kept, ?_⟩
  intro accounted
  have quiet : 1 ≤ after.maxAverageNum_.tdiv 2 → ¬ before.Overflows := by
    intro large overflows
    rw [count.maxAverageNum_, limit, kept.mp accounted overflows] at large
    omega
  refine ⟨count.linked access.linked, count.lower (access.lower member audited.lower), accounted, ?_, ?_, ?_⟩
  · rw [count.maxAverageNum_, limit]
    exact audited.limit
  · intro large
    have calm := quiet large
    rw [← access.overflows, Overflows, Int.not_lt] at calm
    rw [count.average, count.maxAverageNum_]
    exact calm
  · intro large _
    rw [count.attained (access.attained linked member (audited.attained ?_ (List.ne_nil_of_mem member)))]
    · intro overflows
      exact absurd (access.overflows.mp overflows) (quiet large)
    · rwa [count.maxAverageNum_, limit] at large

/-- A decay by nothing, also where the lists hold more than the residents. -/
private theorem addFreqNum_none {cache counted : RLfuCache Key Value} {order : Order}
    (filed : Filed cache.bucket recency cache.freq) (once : cache.residents.Nodup)
    (members : ∀ node ∈ cache.residents, node ∈ recency) (occupied : cache.residents ≠ [])
    (used : ∀ node ∈ cache.residents, 1 ≤ cache.freq node) (half : cache.maxAverageNum_.tdiv 2 = 0)
    (counting : cache.addFreqNum order = some counted) :
    counted.curTotalNum_ = cache.curTotalNum_ + 1 ∧ counted.usage = cache.usage := by
  by_cases overflows : cache.Overflows
  · have decaying : cache.addFreqNum order = cache.ticked.handleOverMaxAverageNum order := if_pos overflows
    have ticked : Filed cache.ticked.bucket recency cache.ticked.freq := filed
    obtain ⟨lists, final, reached, _, _⟩ := handleOverMaxAverageNum_spec order ticked once members occupied
    cases counting.symm.trans (decaying.trans reached)
    refine ⟨rfl, ?_⟩
    apply tally_congr
    intro node member
    exact (decayedNodes_freq _ _ _).trans ((if_pos member).trans (decayed_none half (used node member)))
  · cases counting.symm.trans (if_neg overflows)
    exact ⟨rfl, rfl⟩

/-- When the list of `minFreq_` is empty, every resident has been used more than once. -/
private theorem used_twice (linked : Linked before recency) (lower : Lower before)
    (empty : before.bucket before.minFreq_ = []) :
    ∀ node ∈ before.residents, 2 ≤ before.freq node := by
  intro node member
  have below := lower.below node member
  have least := lower.positive
  have other : before.freq node ≠ before.minFreq_ := by
    intro same
    have listed := linked.listed member
    simp [same, empty] at listed
  omega

/-- A full cache can only have an empty list of `minFreq_` when a decay takes nothing away. -/
theorem Audited.undecayed (audited : Audited before) (occupied : before.residents ≠ [])
    (empty : before.bucket before.minFreq_ = []) : before.maxAverageNum_.tdiv 2 = 0 := by
  have bound : 0 ≤ before.maxAverageNum_.tdiv 2 := Int.tdiv_nonneg audited.limit (by omega)
  by_contra something
  exact audited.attained (by omega) occupied empty

section Events
variable [DecidableEq Key] {event : CacheEvent Key Value}

/-- The access lets nothing decay, unless a decay takes nothing away. -/
def Quiet (event : CacheEvent Key Value) (cache : RLfuCache Key Value) : Prop :=
  (hit event cache).isSome → cache.Overflows → cache.maxAverageNum_.tdiv 2 = 0

instance (event : CacheEvent Key Value) (cache : RLfuCache Key Value) : Decidable (Quiet event cache) :=
  inferInstanceAs (Decidable ((hit event cache).isSome → cache.Overflows → cache.maxAverageNum_.tdiv 2 = 0))

/-- An access is quiet, an eviction finds a real node, and `purge` finds the cache empty. -/
def Balanced (event : CacheEvent Key Value) (cache : RLfuCache Key Value) : Prop :=
  match event with
  | .put key value order => Evictable (.put key value order) cache ∧ Quiet (.put key value order) cache
  | .get key order => Quiet (.get key order) cache
  | .purge => cache.residents = []

instance (event : CacheEvent Key Value) (cache : RLfuCache Key Value) : Decidable (Balanced event cache) :=
  match event with
  | .put key value order =>
    inferInstanceAs (Decidable (Evictable (.put key value order) cache ∧ Quiet (.put key value order) cache))
  | .get key order => inferInstanceAs (Decidable (Quiet (.get key order) cache))
  | .purge => inferInstanceAs (Decidable (cache.residents = []))

section Inserts
variable {freed counted : RLfuCache Key Value} {rest : List NodePtr} {key : Key} {value : Value}

theorem Room.usage_lt (room : Room before recency freed rest) (linked : Linked before recency)
    (limit : 1 ≤ before.maxAverageNum_) (light : average before.usage before.size ≤ before.maxAverageNum_) :
    freed.usage + 1 < (freed.size + 1 : Nat) * (before.maxAverageNum_ + 1) := by
  have bounded := (average_le linked.usage_nonneg (by omega)).mp light
  cases room with
  | spare =>
    rw [Int.natCast_add, Int.add_mul]
    rcases bounded with empty | below
    · have nothing : before.usage = 0 := by
        rw [← length_residents, List.length_eq_zero_iff] at empty
        rw [usage, empty, tally_nil]
      rw [empty]
      omega
    · omega
  | @evicted victim _ _ full first left =>
    have sizes := left.residents.length_eq
    rw [List.length_cons, length_residents, length_residents] at sizes
    have used := linked.used victim (left.residents.mem_iff.mpr List.mem_cons_self)
    rw [left.usage, ← sizes]
    omega

theorem Room.accounted (room : Room before recency freed rest) (audited : Audited before) :
    freed.curTotalNum_ = freed.usage := by
  have total := audited.accounted.total
  cases room with
  | spare => exact total
  | evicted _ _ left => rw [left.total, left.usage, total]

private theorem inserted_audited (audited : Audited before) (linked : Linked before recency)
    (absent : before.nodeMap_.lookup key = none) (room : Room before recency freed rest)
    (count : Counted (freed.insertNode key value) counted) :
    Audited { counted with minFreq_ := min counted.minFreq_ 1 } := by
  have missing := room.lookup absent
  have unlinked := room.linked linked
  have inserted := insertNode_linked value unlinked missing
  have unused : freed.allocated ∉ freed.residents := fun member => Nat.lt_irrefl _ (unlinked.fresh _ member)
  have limit : (freed.insertNode key value).maxAverageNum_ = before.maxAverageNum_ := room.maxAverageNum_
  have quiet : 1 ≤ before.maxAverageNum_.tdiv 2 → ¬ (freed.insertNode key value).Overflows := by
    intro half
    have started : (freed.insertNode key value).curTotalNum_ = freed.usage := room.accounted audited
    have counted : 0 ≤ freed.usage + 1 := Int.le_add_one unlinked.usage_nonneg
    rw [Overflows, limit, insertNode_size value missing, Int.not_lt, started, average_le counted audited.limit]
    have light := audited.calm half
    rw [audited.accounted.average, ← average_of_nonneg linked.usage_nonneg] at light
    have positive : 1 ≤ before.maxAverageNum_ := by
      rw [Int.tdiv_eq_ediv_of_nonneg audited.limit] at half
      omega
    exact .inr (room.usage_lt linked positive light)
  have half : 0 ≤ before.maxAverageNum_.tdiv 2 := Int.tdiv_nonneg audited.limit (by omega)
  have same : counted.usage = (freed.insertNode key value).usage := by
    by_cases none : before.maxAverageNum_.tdiv 2 = 0
    · exact count.usage_none inserted (limit ▸ none)
    · exact count.usage_calm (quiet (by omega))
  have total : counted.curTotalNum_ = counted.usage := by
    rw [count.total, same, usage_insertNode value unused missing, ← room.accounted audited]
    rfl
  obtain ⟨ordered, lower, occupied⟩ := inserted_least unlinked missing (room.lower audited.lower) count
    (fun _ => room.maxAverageNum_ ▸ audited.limit)
  have bound : counted.maxAverageNum_ = before.maxAverageNum_ := count.maxAverageNum_.trans limit
  refine ⟨ordered, lower, ⟨total, ?_⟩, bound ▸ audited.limit, ?_, fun _ _ => occupied⟩
  · show counted.curAverageNum_ = if counted.size = 0 then 0 else counted.usage / counted.size
    obtain ⟨order, final⟩ := count.linked inserted
    rw [count.average, ← count.total, total, average_of_nonneg final.usage_nonneg, count.size]
  · intro half
    show counted.curAverageNum_ ≤ counted.maxAverageNum_
    have calm := quiet (bound ▸ half)
    rw [Overflows, Int.not_lt] at calm
    rw [count.average, count.maxAverageNum_]
    exact calm

private theorem eraseKey_absent {cache : RLfuCache Key Value} (absent : cache.nodeMap_.lookup key = none) :
    (cache.eraseKey key).residents = cache.residents := by
  rw [eraseKey_remaining, List.kerase_of_notMem_keys (AList.lookup_eq_none.mp absent), residents]

private theorem eraseKey_usage {cache : RLfuCache Key Value} (key : Key) :
    (cache.eraseKey key).residents.Sublist cache.residents ∧
      ((cache.eraseKey key).usage = cache.usage ∨
        ∃ node ∈ cache.residents, (cache.eraseKey key).usage = cache.usage - cache.freq node) := by
  refine ⟨(List.kerase_sublist _ _).map _, ?_⟩
  cases looked : cache.nodeMap_.lookup key with
  | none =>
    rw [usage, eraseKey_absent looked]
    exact .inl rfl
  | some node =>
    have split := eraseKey_residents looked
    refine .inr ⟨node, split.mem_iff.mpr List.mem_cons_self, ?_⟩
    rw [usage, usage, tally_perm split, tally_cons]
    show tally _ cache.freq = _
    omega

/-- The dummy counts for 1, and no resident can make up for it. -/
private theorem dummied_accounted [Inhabited Key] {order : Order} (audited : Audited before) (linked : Linked before recency)
    (evicts : Evicts (.put key value order) before) (empty : before.bucket before.minFreq_ = [])
    (counting : (((before.eraseKey default).decreaseFreqNum 1).insertNode key value).addFreqNum order = some counted) :
    ¬ Accounted { counted with minFreq_ := min counted.minFreq_ 1 } := by
  obtain ⟨positive, absent, full⟩ := evicts
  have occupied : before.residents ≠ [] := by
    rw [← List.length_pos_iff, length_residents]
    omega
  obtain ⟨fewer, lost⟩ := @eraseKey_usage Key Value _ before default
  have unused : before.allocated ∉ (before.eraseKey default).residents :=
    fun member => Nat.lt_irrefl _ (linked.fresh _ (fewer.subset member))
  have missing : (before.eraseKey default).nodeMap_.lookup key = none := by
    by_cases same : key = default
    · rw [same]
      exact AList.lookup_erase _ _
    · exact (AList.lookup_erase_ne same).trans absent
  have inserted := @insertNode_residents Key Value ((before.eraseKey default).decreaseFreqNum 1) _ key value missing
  have added := @usage_insertNode Key Value _ ((before.eraseKey default).decreaseFreqNum 1) key value unused missing
  have inactive : before.allocated ∉ recency :=
    fun member => Nat.lt_irrefl _ (linked.fresh _ (linked.resident.mem_iff.mp member))
  have filed := @insertNode_filed Key Value ((before.eraseKey default).decreaseFreqNum 1) recency _ linked.filed inactive
    key value
  have members : ∀ node ∈ (((before.eraseKey default).decreaseFreqNum 1).insertNode key value).residents,
      node ∈ recency ++ [before.allocated] := by
    rw [inserted]
    intro node member
    rcases List.mem_cons.mp member with rfl | inside
    · exact List.mem_append_right _ List.mem_cons_self
    · exact List.mem_append_left _ (linked.resident.mem_iff.mpr (fewer.subset inside))
  have used := @insertNode_used Key Value ((before.eraseKey default).decreaseFreqNum 1) _ key value missing
    fun node member => linked.used node (fewer.subset member)
  obtain ⟨total, same⟩ := addFreqNum_none filed
    (inserted ▸ List.nodup_cons.mpr ⟨unused, fewer.nodup linked.nodup⟩) members (inserted ▸ List.cons_ne_nil _ _)
    used (audited.undecayed occupied empty) counting
  intro accounted
  have balance : counted.curTotalNum_ = counted.usage := accounted.total
  have started := audited.accounted.total
  have erased : ((before.eraseKey default).decreaseFreqNum 1).usage = (before.eraseKey default).usage := rfl
  have taken : (((before.eraseKey default).decreaseFreqNum 1).insertNode key value).curTotalNum_ =
    before.curTotalNum_ - 1 := rfl
  rcases lost with kept | ⟨node, member, less⟩
  · omega
  · have bound := used_twice linked audited.lower empty node member
    omega

end Inserts

private theorem balanced_hit (found : hit event before = some node) :
    Balanced event before ↔ (before.Overflows → before.maxAverageNum_.tdiv 2 = 0) := by
  have quiet : Quiet event before ↔ (before.Overflows → before.maxAverageNum_.tdiv 2 = 0) := by
    rw [Quiet, found]
    simp
  cases event with
  | put key value order =>
    have evictable : Evictable (.put key value order) before := by
      intro ⟨positive, absent, _⟩
      cases absent.symm.trans ((if_neg positive).symm.trans found)
    exact (and_iff_right evictable).trans quiet
  | get key order => exact quiet
  | purge => cases found

private theorem quiet_miss (missed : hit event before = none) : Quiet event before := by
  intro found
  rw [missed] at found
  cases found

variable [Inhabited Key]

theorem step_accounted (audited : Audited before) (stepped : step event before = some after) :
    (Accounted after ↔ Balanced event before) ∧ (Accounted after → Audited after) := by
  obtain ⟨recency, linked⟩ := audited.linked
  cases step_change linked stepped with
  | purged => exact purge_audited audited
  | missed absent => exact ⟨⟨fun _ => quiet_miss absent, fun _ => audited.accounted⟩, fun _ => audited⟩
  | @ignored key value order zero =>
    have balanced : Balanced (.put key value order) before := ⟨fun evicts => absurd zero evicts.1, quiet_miss (if_pos zero)⟩
    exact ⟨⟨fun _ => balanced, fun _ => audited.accounted⟩, fun _ => audited⟩
  | accessed found access count =>
    rw [balanced_hit found]
    exact accessed_audited audited linked (linked.hit_resident found) access count
  | @inserted key value order _ _ _ positive absent room count =>
    have result := inserted_audited audited linked absent room count
    have evictable : Evictable (.put key value order) before := by
      intro evicts
      cases room with
      | spare free => exact absurd evicts.2.2 free
      | evicted _ first => simp [first]
    refine ⟨⟨fun _ => ⟨evictable, quiet_miss ((if_neg positive).trans absent)⟩, fun _ => result.accounted⟩, fun _ => result⟩
  | dummied evicts empty counting =>
    have lost := dummied_accounted audited linked evicts empty counting
    exact ⟨⟨fun kept => absurd kept lost, fun balanced => absurd empty (balanced.1 evicts)⟩, fun kept => absurd kept lost⟩

/-- In a run, the counters agree with the stored frequencies after every operation exactly
when every operation is balanced. -/
theorem run_accounted [Inhabited Value] {capacity : Nat} {maxAverageNum : Int} (positive : 1 ≤ maxAverageNum)
    {events : List (CacheEvent Key Value)} {final : RLfuCache Key Value}
    (reached : machine.run events (new capacity maxAverageNum) = some final) :
    machine.Along (fun event cache => ∀ next, step event cache = some next → Accounted next) events
        (new capacity maxAverageNum) ↔
      machine.Along Balanced events (new capacity maxAverageNum) := by
  have agree : ∀ event (before after : RLfuCache Key Value), Audited before → machine.step event before = some after →
      ((∀ next, step event before = some next → Accounted next) ↔ Balanced event before) := by
    intro event before after audited stepped
    rw [← (step_accounted audited stepped).1]
    exact Machine.forall_next stepped
  have preserved : ∀ event (before after : RLfuCache Key Value),
      (∀ next, step event before = some next → Accounted next) → Audited before →
      machine.step event before = some after → Audited after :=
    fun _ _ after accounted audited stepped => (step_accounted audited stepped).2 (accounted after stepped)
  exact Machine.along_iff agree preserved reached (new_audited capacity positive)

/-- One eviction, and one decay at `maxAverageNum` 1. -/
theorem run_accounted_evict : machine.Along (fun event cache => ∀ next, step event cache = some next → Accounted next)
    [.put 1 7 default, .get 1 default, .put 2 8 default, .get 2 default] (new 1 1 : RLfuCache Nat Nat) := by
  have computed : (machine.run
    [.put 1 7 default, .get 1 default, .put 2 8 default, .get 2 default] (new 1 1 : RLfuCache Nat Nat)).map size =
      some 1 := by
    decide +kernel
  obtain ⟨final, reached, _⟩ := Option.map_eq_some_iff.mp computed
  exact (run_accounted (by decide) reached).mpr (by decide +kernel)

/-- `purge` forgets the nodes, and not the accesses to them. -/
theorem purge_keeps_total : ∃ final : RLfuCache Nat Nat,
    machine.run [.put 1 7 default, .purge] (new 1 10) = some final ∧
    final.curTotalNum_ = 1 ∧ final.usage = 0 ∧ ¬ Accounted final := by
  have computed : (machine.run
    [.put 1 7 default, .purge] (new 1 10 : RLfuCache Nat Nat)).map (fun cache => (cache.curTotalNum_, cache.usage)) =
      some (1, 0) := by
    decide +kernel
  obtain ⟨final, reached, seen⟩ := Option.map_eq_some_iff.mp computed
  simp only [Prod.mk.injEq] at seen
  refine ⟨final, reached, seen.1, seen.2, ?_⟩
  intro accounted
  have balance := accounted.total
  omega

end Events
end Webserver.RLfuCache
