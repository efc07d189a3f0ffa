import Webserver.Proofs.CacheAccounting

/-! The cache as a map. Its average frequency stays near `maxAverageNum_`, although the
total is stale, and so `minFreq_` is never lost between 2 and 250. -/

namespace Webserver.RLfuCache
open Library

universe u v
variable {Key : Type u} {Value : Type v} {before after : RLfuCache Key Value} {recency : List NodePtr}
  {node : NodePtr}

/-- The stored frequencies stay light: at most `maxAverageNum_` on average, and no more
than were counted. -/
structure Light (cache : RLfuCache Key Value) : Prop where
  sound : Sound cache
  total : cache.usage ≤ cache.curTotalNum_
  light : average cache.usage cache.size ≤ cache.maxAverageNum_
  lower : 2 ≤ cache.maxAverageNum_
  upper : cache.maxAverageNum_ ≤ 250

private theorem half_bounds {limit : Int} (lower : 2 ≤ limit) (upper : limit ≤ 250) :
    1 ≤ limit.tdiv 2 ∧ limit + 1 - limit.tdiv 2 < INT8_MAX := by
  rw [Int.tdiv_eq_ediv_of_nonneg (by omega), INT8_MAX]
  omega

theorem Light.usage_lt (light : Light before) (occupied : before.residents ≠ []) :
    before.usage < before.size * (before.maxAverageNum_ + 1) := by
  have limit := light.lower
  obtain ⟨recency, linked⟩ := light.sound.linked
  rcases (average_le linked.usage_nonneg (by omega)).mp light.light with empty | below
  · rw [← length_residents, List.length_eq_zero_iff] at empty
    exact absurd empty occupied
  · exact below

private theorem counted_light (count : Counted before after) (total : before.usage ≤ before.curTotalNum_ + 1)
    (linked : Linked before recency) (limit : 0 ≤ before.maxAverageNum_)
    (decays : before.Overflows → after.usage < before.size * (before.maxAverageNum_ + 1)) :
    after.usage ≤ after.curTotalNum_ ∧ average after.usage after.size ≤ after.maxAverageNum_ := by
  have fewer := count.usage_le linked limit
  obtain ⟨order, final⟩ := count.linked linked
  have counted : 0 ≤ before.curTotalNum_ + 1 := Int.le_trans linked.usage_nonneg total
  refine ⟨by rw [count.total]; omega, ?_⟩
  rw [count.size, count.maxAverageNum_, average_le final.usage_nonneg limit]
  by_cases overflows : before.Overflows
  · exact .inr (decays overflows)
  · rw [Overflows, Int.not_lt, average_le counted limit] at overflows
    rcases overflows with empty | below
    · exact .inl empty
    · exact .inr (by omega)

section Events
variable [DecidableEq Key] {event : CacheEvent Key Value}

/-- Some resident stays at the average, and a decay brings it below `INT8_MAX`. -/
theorem Light.steady (light : Light before) (event : CacheEvent Key Value) : Steady event before := by
  intro node found _
  obtain ⟨recency, linked⟩ := light.sound.linked
  have member := linked.hit_resident found
  have bounds := half_bounds light.lower light.upper
  have below := light.usage_lt (List.ne_nil_of_mem member)
  have one : 0 < before.size := by
    rw [← length_residents]
    exact List.length_pos_of_mem member
  have counted : tally before.residents (Function.update before.freq node (before.freq node + 1)) <
      before.residents.length * (before.maxAverageNum_ + 1 + 1) := by
    rw [tally_update linked.nodup member, length_residents, Int.mul_add]
    rw [usage] at below
    omega
  obtain ⟨other, inside, few⟩ := exists_le_of_tally_lt counted
  refine ⟨other, inside, ?_⟩
  rw [decayed]
  split
  next => simp [INT8_MAX]
  next => omega

private theorem accessed_find {touched : RLfuCache Key Value} {value : Value} (linked : Linked before recency)
    (member : node ∈ before.residents) (access : Touched before node value recency touched)
    (count : Counted touched after) (key : Key) :
    after.find key = if (before.nodes node).key = key then some value else before.find key := by
  rw [find, find, count.nodeMap_, access.nodeMap_]
  split
  next same =>
    rw [linked.lookup_iff.mpr ⟨member, same⟩, Option.map_some, (count.stored node).2, access.nodes]
    simp
  next other =>
    cases looked : before.nodeMap_.lookup key with
    | none => rfl
    | some found =>
      have different : found ≠ node := by
        rintro rfl
        exact other (linked.lookup_iff.mp looked).2
      rw [Option.map_some, Option.map_some, (count.stored found).2, access.nodes, Function.update_of_ne different]

private theorem inserted_find {freed counted : RLfuCache Key Value} {key : Key} {value : Value} (linked : Linked freed recency)
    (count : Counted (freed.insertNode key value) counted) (other : Key) :
    counted.find other = if other = key then some value else freed.find other := by
  have map : counted.nodeMap_ = freed.nodeMap_.insert key freed.allocated := count.nodeMap_
  have nodes : (freed.insertNode key value).nodes = Function.update freed.nodes freed.allocated ⟨1, key, value⟩ := rfl
  rw [find, find, map]
  split
  next same =>
    rw [same, AList.lookup_insert, Option.map_some, (count.stored _).2, nodes]
    simp
  next different =>
    rw [AList.lookup_insert_ne different]
    cases looked : freed.nodeMap_.lookup other with
    | none => rfl
    | some found =>
      have old : found ≠ freed.allocated := Nat.ne_of_lt (linked.fresh found (linked.lookup_iff.mp looked).1)
      rw [Option.map_some, Option.map_some, (count.stored _).2, nodes, Function.update_of_ne old]

variable [Inhabited Key]

theorem step_light (light : Light before) (stepped : step event before = some after) : Light after := by
  have limit : 0 ≤ before.maxAverageNum_ := Int.le_trans (by omega) light.lower
  have sound := step_sound light.sound (.inl limit) (light.steady event) stepped
  obtain ⟨recency, linked⟩ := light.sound.linked
  have change := step_change linked stepped
  have config := (change.config (light.sound.evictable event)).2
  suffices counters : after.usage ≤ after.curTotalNum_ ∧ average after.usage after.size ≤ after.maxAverageNum_ from
    ⟨sound, counters.1, counters.2, config ▸ light.lower, config ▸ light.upper⟩
  cases change with
  | purged =>
    have above := length_le_tally linked.used
    have total := light.total
    have positive : 0 ≤ before.curTotalNum_ := by
      rw [usage] at total
      omega
    exact ⟨positive, limit⟩
  | missed => exact ⟨light.total, light.light⟩
  | ignored => exact ⟨light.total, light.light⟩
  | @accessed _ node touched _ found access count =>
    have member := linked.hit_resident found
    have one := access.usage linked member
    refine counted_light count ?_ access.linked (access.maxAverageNum_ ▸ limit) ?_
    · rw [one, access.total]
      exact Int.add_le_add_right light.total 1
    · intro overflows
      have half := (half_bounds light.lower light.upper).1
      have less := count.usage_lt access.linked (access.maxAverageNum_ ▸ limit) (access.maxAverageNum_ ▸ half) overflows
        ⟨node, access.residents ▸ member, by
          have used := linked.used node member
          rw [access.freq_apply, if_pos rfl]
          omega⟩
      have below := light.usage_lt (List.ne_nil_of_mem member)
      rw [size, access.nodeMap_, access.maxAverageNum_]
      rw [size] at below
      omega
  | @inserted key value order freed counted rest positive absent room count =>
    have missing := room.lookup absent
    have unlinked := room.linked linked
    have unused : freed.allocated ∉ freed.residents := fun member => Nat.lt_irrefl _ (unlinked.fresh _ member)
    have bound : (freed.insertNode key value).maxAverageNum_ = before.maxAverageNum_ := room.maxAverageNum_
    have one := usage_insertNode value unused missing
    have inserted := insertNode_linked value unlinked missing
    have total : freed.usage ≤ freed.curTotalNum_ := by
      have total := light.total
      cases room with
      | spare => exact total
      | evicted _ _ left =>
        rw [left.total, left.usage]
        omega
    show counted.usage ≤ counted.curTotalNum_ ∧ average counted.usage counted.size ≤ counted.maxAverageNum_
    refine counted_light count ?_ inserted (bound ▸ limit) ?_
    · rw [one]
      exact Int.add_le_add_right total 1
    · intro overflows
      have fewer := count.usage_le inserted (bound ▸ limit)
      have below := room.usage_lt linked (by have := light.lower; omega) light.light
      rw [bound, insertNode_size value missing]
      omega
  | dummied evicts empty => exact absurd empty (light.sound.evictable _ evicts)

def evicted (event : CacheEvent Key Value) (cache : RLfuCache Key Value) (key : Key) : Bool :=
  decide (Evicts event cache) && (cache.nodeMap_.lookup key).isSome &&
    cache.kickOut.any fun freed => (freed.nodeMap_.lookup key).isNone

/-- The last value put under each key since the last `purge`, until it is evicted. -/
def record (event : CacheEvent Key Value) (cache : RLfuCache Key Value) (ledger : Key → Option Value) :
    Key → Option Value :=
  match event with
  | .put key value order => fun other =>
    if other = key then some value else if evicted (.put key value order) cache other then none else ledger other
  | .get _ _ => ledger
  | .purge => fun _ => none

def recorded : Machine (RLfuCache Key Value × (Key → Option Value)) (CacheEvent Key Value) := machine.watch record

private theorem room_find {freed : RLfuCache Key Value} {rest : List NodePtr} {key : Key} {value : Value} {order : Order}
    (linked : Linked before recency) (positive : before.capacity_ ≠ 0)
    (absent : before.nodeMap_.lookup key = none) (other : Key) (room : Room before recency freed rest) :
    freed.find other = if evicted (.put key value order) before other then none else before.find other := by
  cases room with
  | spare free =>
    have calm : evicted (.put key value order) before other = false := by
      simp [evicted, Evicts, free]
    rw [calm]
    rfl
  | @evicted victim _ _ full first left =>
    have member : victim ∈ before.residents := left.residents.mem_iff.mpr List.mem_cons_self
    obtain ⟨kicked, reached, removed⟩ := kickOut_spec linked first
    have rule : evicted (.put key value order) before other = ((before.nodeMap_.lookup other).isSome &&
        ((before.nodeMap_.erase (before.nodes victim).key).lookup other).isNone) := by
      simp [evicted, Evicts, positive, absent, full, reached, removed.nodeMap_]
    rw [rule, find, left.nodeMap_, left.nodes]
    by_cases same : other = (before.nodes victim).key
    · rw [same, AList.lookup_erase, linked.lookup member]
      rfl
    · rw [AList.lookup_erase_ne same]
      cases looked : before.nodeMap_.lookup other <;> simp [find, looked]

structure Kept (capacity : Nat) (cache : RLfuCache Key Value) (ledger : Key → Option Value) : Prop where
  light : Light cache
  configured : cache.capacity_ = capacity
  found : ∀ key, cache.find key = if cache.capacity_ = 0 then none else ledger key

theorem step_kept {capacity : Nat} {ledger : Key → Option Value} (kept : Kept capacity before ledger)
    (stepped : step event before = some after) : Kept capacity after (record event before ledger) := by
  obtain ⟨light, configured, found⟩ := kept
  obtain ⟨recency, linked⟩ := light.sound.linked
  have change := step_change linked stepped
  have config := (change.config (light.sound.evictable event)).1
  refine ⟨step_light light stepped, config.trans configured, ?_⟩
  intro other
  rw [config]
  cases change with
  | purged =>
    simp only [record]
    split <;> rfl
  | missed => exact found other
  | ignored zero =>
    rw [found, if_pos zero, if_pos zero]
  | @accessed _ node touched _ hitting access count =>
    have member := linked.hit_resident hitting
    rw [accessed_find linked member access count]
    cases event with
    | purge => cases hitting
    | get key order =>
      split
      next same =>
        have held := found other
        rw [find, linked.lookup_iff.mpr ⟨member, same⟩] at held
        exact held
      next => exact found other
    | put key value order =>
      have positive : before.capacity_ ≠ 0 := by
        intro zero
        cases (if_pos zero).symm.trans hitting
      have looked : before.nodeMap_.lookup key = some node := (if_neg positive).symm.trans hitting
      have calm : evicted (.put key value order) before other = false := by
        simp [evicted, Evicts, looked]
      rw [(linked.lookup_iff.mp looked).2, found, if_neg positive, if_neg positive]
      simp only [record, calm, eq_comm (a := key), Bool.false_eq_true, if_false]
      rfl
  | @inserted key value order freed counted rest positive absent room count =>
    have unlinked := room.linked linked
    rw [if_neg positive]
    apply (inserted_find unlinked count other).trans
    rw [room_find linked positive absent other room, found, if_neg positive, record]
  | dummied evicts empty => exact absurd empty (light.sound.evictable _ evicts)

/-- What is asked of every state of a cache made for `capacity`, beside a ledger of what was put. -/
structure Intact (capacity : Nat) (cache : RLfuCache Key Value) (ledger : Key → Option Value) : Prop where
  bounded : cache.size ≤ capacity
  listed : ∀ key node, cache.nodeMap_.lookup key = some node →
    (cache.nodes node).key = key ∧ 1 ≤ cache.freq node ∧ ∀ freq, node ∈ cache.bucket freq ↔ freq = cache.freq node
  once : ∀ freq, (cache.bucket freq).Nodup
  mapped : ∀ freq, ∀ node ∈ cache.bucket freq, cache.nodeMap_.lookup (cache.nodes node).key = some node
  found : ∀ key order, ∃ after, cache.get order key = some (if capacity = 0 then none else ledger key, after)
  victim : ∀ event, Evicts event cache → ∃ node ∈ cache.residents, ∃ freed, cache.kickOut = some freed ∧
    freed.nodeMap_ = cache.nodeMap_.erase (cache.nodes node).key
  defined : ∀ event, (step event cache).isSome

theorem Kept.intact {capacity : Nat} {ledger : Key → Option Value} (kept : Kept capacity before ledger) :
    Intact capacity before ledger := by
  have sound := kept.light.sound
  obtain ⟨recency, linked⟩ := sound.linked
  refine ⟨kept.configured ▸ sound.bounded, ?_, linked.filed.nodup_bucket, ?_, ?_, ?_, ?_⟩
  · intro key node looked
    obtain ⟨member, keyed⟩ := linked.lookup_iff.mp looked
    refine ⟨keyed, linked.used node member, ?_⟩
    intro freq
    rw [linked.mem_bucket, and_iff_right member, eq_comm]
  · intro freq node listed
    exact linked.lookup (linked.mem_bucket.mp listed).1
  · intro key order
    obtain ⟨after, got⟩ := get_find linked key order
    exact ⟨after, got.trans (by rw [kept.found, kept.configured])⟩
  · intro event evicts
    obtain ⟨victim, rest, first⟩ := List.exists_cons_of_ne_nil (sound.evictable event evicts)
    obtain ⟨freed, evicted, left⟩ := kickOut_spec linked first
    exact ⟨victim, left.residents.mem_iff.mpr List.mem_cons_self, freed, evicted, left.nodeMap_⟩
  · intro event
    obtain ⟨after, reached, _⟩ := step_spec event linked (sound.evictable event)
    rw [reached]
    rfl

theorem new_kept [Inhabited Value] (capacity : Nat) {maxAverageNum : Int} (lower : 2 ≤ maxAverageNum)
    (upper : maxAverageNum ≤ 250) : Kept capacity (new capacity maxAverageNum : RLfuCache Key Value) fun _ => none := by
  have limit : 0 ≤ maxAverageNum := by omega
  refine ⟨⟨new_sound capacity maxAverageNum, Int.le_refl 0, limit, lower, upper⟩, rfl, ?_⟩
  intro key
  split <;> rfl

private theorem recorded_kept {capacity : Nat} {events : List (CacheEvent Key Value)}
    {start final : RLfuCache Key Value × (Key → Option Value)}
    (reached : recorded.run events start = some final) (kept : Kept capacity start.1 start.2) :
    Kept capacity final.1 final.2 := by
  have preserved : ∀ event (before after : RLfuCache Key Value × (Key → Option Value)),
      Kept capacity before.1 before.2 → recorded.step event before = some after → Kept capacity after.1 after.2 := by
    intro event before after kept stepped
    obtain ⟨stepped, recorded⟩ := Machine.watch_step.mp stepped
    rw [recorded]
    exact step_kept kept stepped
  exact Machine.run_preserves preserved reached kept

/-- With the default `maxAverageNum`, every state of every run is intact. -/
theorem run_intact [Inhabited Value] {capacity : Nat} {events : List (CacheEvent Key Value)}
    {cache : RLfuCache Key Value} {ledger : Key → Option Value}
    (reached : recorded.run events (new capacity 10, fun _ => none) = some (cache, ledger)) :
    Intact capacity cache ledger :=
  (recorded_kept reached (new_kept capacity (by omega) (by omega))).intact

/-- Two keys in a cache for one: the first was evicted. -/
theorem run_intact_evicted : ∃ cache : RLfuCache Nat Nat, ∃ ledger,
    recorded.run [.put 1 7 default, .get 1 default, .put 2 8 default] (new 1 10, fun _ => none) = some (cache, ledger) ∧
    ledger 1 = none ∧ ledger 2 = some 8 ∧ Intact 1 cache ledger := by
  have computed : (recorded.run
    [.put 1 7 default, .get 1 default, .put 2 8 default] ((new 1 10 : RLfuCache Nat Nat), fun _ => none)).map
    (fun state => (state.2 1, state.2 2)) = some (none, some 8) := by
    decide +kernel
  obtain ⟨⟨cache, ledger⟩, reached, seen⟩ := Option.map_eq_some_iff.mp computed
  simp only [Prod.mk.injEq] at seen
  exact ⟨cache, ledger, reached, seen.1, seen.2, run_intact reached⟩

/-- A cache without room ignores every `put`. -/
theorem put_ignored : ∃ cache : RLfuCache Nat Nat, ∃ ledger,
    recorded.run [.put 1 7 default] (new 0 10, fun _ => none) = some (cache, ledger) ∧
    ledger 1 = some 7 ∧ (cache.get default 1).map Prod.fst = some none := by
  have computed : (recorded.run
    [.put 1 7 default] ((new 0 10 : RLfuCache Nat Nat), fun _ => none)).map
    (fun state => (state.2 1, (state.1.get default 1).map Prod.fst)) = some (some 7, some none) := by
    decide +kernel
  obtain ⟨⟨cache, ledger⟩, reached, seen⟩ := Option.map_eq_some_iff.mp computed
  simp only [Prod.mk.injEq] at seen
  exact ⟨cache, ledger, reached, seen.1, seen.2⟩

end Events
end Webserver.RLfuCache
