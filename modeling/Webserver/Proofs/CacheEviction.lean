import Mathlib.Order.Bounds.Defs
import Webserver.Proofs.CacheSteps

/-! When `minFreq_` is the least frequency. A decay that leaves no frequency below
`INT8_MAX` resets it to 1, and the next eviction then takes no real node. -/

namespace Webserver.RLfuCache
open Library

universe u v
variable {Key : Type u} {Value : Type v} {before after : RLfuCache Key Value} {recency : List NodePtr}
  {node : NodePtr}

/-- `minFreq_` is the least frequency of a node, and the next eviction takes one of those. -/
structure Sound (cache : RLfuCache Key Value) : Prop where
  linked : ∃ recency, Linked cache recency
  lower : Lower cache
  attained : cache.residents ≠ [] → cache.bucket cache.minFreq_ ≠ []
  bounded : cache.size ≤ cache.capacity_

theorem Touched.freq_apply {value : Value} (access : Touched before node value recency after) (other : NodePtr) :
    after.freq other = if other = node then before.freq node + 1 else before.freq other := by
  rw [access.freq, Function.update_apply]

theorem Touched.lower {value : Value} (access : Touched before node value recency after)
    (member : node ∈ before.residents) (lower : Lower before) : Lower after := by
  have rule := access.minFreq_
  by_cases emptied : before.freq node = before.minFreq_ ∧ after.bucket before.minFreq_ = []
  · rw [if_pos emptied] at rule
    refine ⟨by have := lower.positive; omega, ?_⟩
    rw [access.residents]
    intro other inside
    have above : after.freq other ≠ before.minFreq_ := by
      intro same
      have found : other ∈ after.bucket before.minFreq_ :=
        access.linked.mem_bucket.mpr ⟨access.residents ▸ inside, same⟩
      simp [emptied.2] at found
    have moved := access.freq_apply other
    have bound := lower.below other inside
    split at moved <;> omega
  · rw [if_neg emptied] at rule
    refine ⟨rule ▸ lower.positive, ?_⟩
    rw [access.residents]
    intro other inside
    have bound := lower.below other inside
    rw [access.freq_apply, rule]
    split
    next same =>
      subst same
      omega
    next => exact bound

theorem Touched.attained {value : Value} (access : Touched before node value recency after)
    (linked : Linked before recency) (member : node ∈ before.residents)
    (attained : before.bucket before.minFreq_ ≠ []) : after.bucket after.minFreq_ ≠ [] := by
  have listed : ∀ other, other ∈ before.residents → after.freq other = after.minFreq_ →
      after.bucket after.minFreq_ ≠ [] := by
    intro other inside same
    exact List.ne_nil_of_mem (access.linked.mem_bucket.mpr ⟨access.residents ▸ inside, same⟩)
  have rule := access.minFreq_
  by_cases emptied : before.freq node = before.minFreq_ ∧ after.bucket before.minFreq_ = []
  · rw [if_pos emptied] at rule
    exact listed node member (by rw [access.freq_apply, if_pos rfl]; omega)
  · rw [if_neg emptied] at rule
    obtain ⟨other, found⟩ := List.exists_mem_of_ne_nil _ attained
    obtain ⟨inside, least⟩ := linked.mem_bucket.mp found
    by_cases same : other = node
    · subst same
      rw [rule]
      exact fun empty => emptied ⟨least, empty⟩
    · exact listed other inside (by rw [access.freq_apply, if_neg same, rule, least])

theorem Touched.overflows {value : Value} (access : Touched before node value recency after) :
    after.Overflows ↔ before.Overflows := by
  rw [Overflows, Overflows, access.maxAverageNum_, access.total, size, access.nodeMap_]
  rfl

theorem Counted.residents (count : Counted before after) : after.residents = before.residents := by
  rw [RLfuCache.residents, count.nodeMap_]
  rfl

theorem Counted.stored (count : Counted before after) (node : NodePtr) :
    (after.nodes node).key = (before.nodes node).key ∧ (after.nodes node).value = (before.nodes node).value := by
  by_cases overflows : before.Overflows
  · rw [(count.decay overflows).nodes]
    exact ⟨decayedNodes_key _ _ _, decayedNodes_value _ _ _⟩
  · rw [count.calm overflows]
    exact ⟨rfl, rfl⟩

theorem Counted.size (count : Counted before after) : after.size = before.size := by
  rw [RLfuCache.size, count.nodeMap_]
  rfl

theorem Counted.linked (count : Counted before after) (linked : Linked before recency) :
    ∃ order, Linked after order := by
  by_cases overflows : before.Overflows
  · exact (count.decay overflows).linked
  · rw [count.calm overflows]
    exact ⟨recency, linked.ticked⟩

theorem Counted.freq (count : Counted before after) (member : node ∈ before.residents) :
    after.freq node =
      if before.Overflows then decayed before.maxAverageNum_ (before.freq node) else before.freq node := by
  by_cases overflows : before.Overflows
  · rw [if_pos overflows, RLfuCache.freq, (count.decay overflows).nodes, decayedNodes_freq, if_pos member]
  · rw [if_neg overflows, count.calm overflows]
    rfl

theorem Counted.exceeds (count : Counted before after) (overflows : before.Overflows) :
    ¬ after.curAverageNum_ ≤ after.maxAverageNum_ := by
  rw [count.average, count.maxAverageNum_, Int.not_le]
  exact overflows

theorem Counted.lower (count : Counted before after) (lower : Lower before) : Lower after := by
  by_cases overflows : before.Overflows
  · exact (count.decay overflows).lower
  · exact count.calm overflows ▸ ⟨lower.positive, lower.below⟩

/-- A decay finds the least frequency exactly when there is one below `INT8_MAX`. -/
theorem Counted.attained (count : Counted before after) (attained : before.bucket before.minFreq_ ≠ []) :
    after.bucket after.minFreq_ ≠ [] ↔
      (before.Overflows → ∃ node ∈ before.residents, decayed before.maxAverageNum_ (before.freq node) < INT8_MAX) := by
  by_cases overflows : before.Overflows
  · exact (count.decay overflows).attained.trans ⟨fun small _ => small, fun small => small overflows⟩
  · constructor
    · intro _ above
      exact absurd above overflows
    · intro _
      exact count.calm overflows ▸ attained

private theorem decayed_one {maxAverageNum : Int} (positive : 0 ≤ maxAverageNum) : decayed maxAverageNum 1 = 1 := by
  have half : 0 ≤ maxAverageNum.tdiv 2 := Int.tdiv_nonneg positive (by omega)
  rw [decayed]
  split <;> omega

theorem new_sound [Inhabited Key] [Inhabited Value] (capacity : Nat) (maxAverageNum : Int) :
    Sound (new capacity maxAverageNum : RLfuCache Key Value) := by
  have nobody : (new capacity maxAverageNum : RLfuCache Key Value).residents = [] := rfl
  refine ⟨⟨[], Linked.empty rfl rfl⟩, ⟨by simp [new, INT8_MAX], ?_⟩, ?_, Nat.zero_le _⟩
  · simp [nobody]
  · simp [nobody]

theorem Sound.purge (sound : Sound before) : Sound before.purge := by
  have nobody : before.purge.residents = [] := rfl
  refine ⟨⟨[], Linked.empty rfl rfl⟩, ⟨sound.lower.positive, ?_⟩, ?_, Nat.zero_le _⟩
  · simp [nobody]
  · simp [nobody]

theorem Sound.least (sound : Sound before) {victim : NodePtr} {rest : List NodePtr}
    (first : before.bucket before.minFreq_ = victim :: rest) :
    victim ∈ before.residents ∧ ∀ node ∈ before.residents, before.freq victim ≤ before.freq node := by
  obtain ⟨recency, linked⟩ := sound.linked
  obtain ⟨member, least⟩ := linked.mem_bucket.mp (show victim ∈ before.bucket before.minFreq_ by rw [first]; simp)
  exact ⟨member, fun node inside => least ▸ sound.lower.below node inside⟩

section Events
variable [DecidableEq Key]

/-- A new node has frequency 1, which no decay changes. -/
theorem inserted_least {freed counted : RLfuCache Key Value} {key : Key} {value : Value}
    (linked : Linked freed recency) (absent : freed.nodeMap_.lookup key = none) (lower : Lower freed)
    (count : Counted (freed.insertNode key value) counted)
    (positive : (freed.insertNode key value).Overflows → 0 ≤ freed.maxAverageNum_) :
    (∃ order, Linked { counted with minFreq_ := min counted.minFreq_ 1 } order) ∧
      Lower { counted with minFreq_ := min counted.minFreq_ 1 } ∧ counted.bucket (min counted.minFreq_ 1) ≠ [] := by
  have inserted := insertNode_linked value linked absent
  have added : freed.allocated ∈ (freed.insertNode key value).residents := by
    rw [insertNode_residents value absent]
    exact List.mem_cons_self
  have once : (freed.insertNode key value).freq freed.allocated = 1 := by
    have counts := congrFun (insertNode_freq freed key value) freed.allocated
    rwa [Function.update_self] at counts
  have kept : counted.freq freed.allocated = 1 := by
    rw [count.freq added, once]
    split
    next overflows => exact decayed_one (positive overflows)
    next => rfl
  have least : min counted.minFreq_ 1 = 1 := by
    by_cases overflows : (freed.insertNode key value).Overflows
    · exact Int.min_eq_right (count.decay overflows).lower.positive
    · rw [count.calm overflows]
      exact Int.min_eq_right lower.positive
  obtain ⟨order, final⟩ := count.linked inserted
  refine ⟨⟨order, final.least _⟩, ⟨Int.le_of_eq least.symm, ?_⟩, ?_⟩
  · intro node member
    exact Int.le_trans (Int.le_of_eq least) (final.used node member)
  · rw [least]
    exact List.ne_nil_of_mem (final.mem_bucket.mpr ⟨count.residents ▸ added, kept⟩)

/-- The access lets nothing decay, or leaves a frequency below `INT8_MAX`. -/
def Steady (event : CacheEvent Key Value) (cache : RLfuCache Key Value) : Prop :=
  ∀ node ∈ hit event cache, cache.Overflows → ∃ other ∈ cache.residents,
    decayed cache.maxAverageNum_ (Function.update cache.freq node (cache.freq node + 1) other) < INT8_MAX

instance (event : CacheEvent Key Value) (cache : RLfuCache Key Value) : Decidable (Steady event cache) :=
  match found : hit event cache with
  | none => isTrue fun node member => by simp [found] at member
  | some node =>
    decidable_of_iff (cache.Overflows → ∃ other ∈ cache.residents,
      decayed cache.maxAverageNum_ (Function.update cache.freq node (cache.freq node + 1) other) < INT8_MAX)
      (by simp [Steady, found])

variable {event : CacheEvent Key Value}

/-- After an access, `minFreq_` is right exactly when the decay was steady. -/
private theorem accessed_attained {touched : RLfuCache Key Value} {value : Value} (linked : Linked before recency)
    (attained : before.residents ≠ [] → before.bucket before.minFreq_ ≠ []) (found : hit event before = some node)
    (access : Touched before node value recency touched) (count : Counted touched after) :
    after.bucket after.minFreq_ ≠ [] ↔ Steady event before := by
  have member := linked.hit_resident found
  apply (count.attained (access.attained linked member (attained (List.ne_nil_of_mem member)))).trans
  rw [access.overflows, access.residents, access.maxAverageNum_, access.freq]
  simp [Steady, found]

theorem Sound.evictable (sound : Sound before) (event : CacheEvent Key Value) : Evictable event before := by
  intro evicts
  apply sound.attained
  cases event with
  | get => cases evicts
  | purge => cases evicts
  | put key value order =>
    obtain ⟨positive, _, full⟩ := evicts
    rw [← List.length_pos_iff, length_residents]
    omega

variable [Inhabited Key]

/-- Every state of a run is sound for as long as its decays are steady. -/
theorem step_sound (sound : Sound before)
    (limit : 0 ≤ before.maxAverageNum_ ∨ after.curAverageNum_ ≤ after.maxAverageNum_) (steady : Steady event before)
    (stepped : step event before = some after) : Sound after := by
  obtain ⟨recency, linked⟩ := sound.linked
  cases step_change linked stepped with
  | purged => exact sound.purge
  | missed => exact sound
  | ignored => exact sound
  | accessed found access count =>
    have member := linked.hit_resident found
    refine ⟨count.linked access.linked, count.lower (access.lower member sound.lower),
      fun _ => (accessed_attained linked sound.attained found access count).mpr steady, ?_⟩
    rw [count.size, size, count.capacity_, access.nodeMap_, access.capacity_]
    exact sound.bounded
  | @inserted key value order freed counted rest _ absent room count =>
    have missing := room.lookup absent
    obtain ⟨ordered, lower, occupied⟩ := inserted_least (room.linked linked) missing (room.lower sound.lower) count
      fun overflows => room.maxAverageNum_ ▸ limit.resolve_right (count.exceeds overflows)
    have bounded : counted.size ≤ counted.capacity_ := by
      rw [count.size, insertNode_size value missing, count.capacity_]
      exact room.capacity_ ▸ room.size sound.bounded
    exact ⟨ordered, lower, fun _ => occupied, bounded⟩
  | dummied evicts empty => exact absurd empty (sound.evictable _ evicts)

/-- What is asked of an operation: afterwards `minFreq_` is the least frequency; where it
evicts, the key that leaves the map is that of a resident with the least frequency; and
no other operation but `purge` takes a key away. -/
structure EvictsLeast (capacity : Nat) (event : CacheEvent Key Value) (before after : RLfuCache Key Value) : Prop where
  least : after.residents ≠ [] →
    IsLeast {freq | ∃ node ∈ after.residents, after.freq node = freq} after.minFreq_ ∧
      after.bucket after.minFreq_ ≠ []
  victim : ∀ key value order, event = .put key value order → Evicts event before →
    ∃ victim ∈ before.residents, (∀ node ∈ before.residents, before.freq victim ≤ before.freq node) ∧
      after.nodeMap_ = (before.nodeMap_.erase (before.nodes victim).key).insert key before.allocated
  spared : ¬Evicts event before → event ≠ .purge → before.residents ⊆ after.residents
  bounded : after.size ≤ capacity

theorem Sound.evictsLeast {capacity : Nat} (sound : Sound before) (configured : before.capacity_ = capacity)
    (stepped : step event before = some after) (result : Sound after) : EvictsLeast capacity event before after := by
  obtain ⟨recency, linked⟩ := sound.linked
  have change := step_change linked stepped
  refine ⟨?_, ?_, ?_, ?_⟩
  · intro occupied
    obtain ⟨recency, linked⟩ := result.linked
    have attained := result.attained occupied
    obtain ⟨node, listed⟩ := List.exists_mem_of_ne_nil _ attained
    refine ⟨⟨⟨node, linked.mem_bucket.mp listed⟩, ?_⟩, attained⟩
    rintro freq ⟨other, member, rfl⟩
    exact result.lower.below other member
  · rintro key value order rfl ⟨positive, absent, full⟩
    cases change with
    | ignored zero => exact absurd zero positive
    | accessed found => cases absent.symm.trans ((if_neg positive).symm.trans found)
    | @inserted _ _ _ freed _ _ _ _ room count =>
      cases room with
      | spare free => exact absurd full free
      | @evicted victim _ _ _ first left =>
        obtain ⟨member, least⟩ := sound.least first
        have inserted : (freed.insertNode key value).nodeMap_ = freed.nodeMap_.insert key freed.allocated := rfl
        refine ⟨victim, member, least, ?_⟩
        rw [show _ = _ from count.nodeMap_, inserted, left.nodeMap_, left.allocated]
    | dummied evicts empty => exact absurd empty (sound.evictable _ evicts)
  · intro stays used
    cases change with
    | purged => exact absurd rfl used
    | missed => exact List.Subset.refl _
    | ignored => exact List.Subset.refl _
    | accessed found access count =>
      rw [count.residents, access.residents]
      exact List.Subset.refl _
    | inserted positive absent room count =>
      cases room with
      | evicted full => exact absurd ⟨positive, absent, full⟩ stays
      | spare =>
        have residents := count.residents.trans (insertNode_residents _ absent)
        intro node member
        exact residents.symm ▸ List.mem_cons_of_mem _ member
    | dummied evicts => exact absurd evicts stays
  · rw [← configured, ← (change.config (sound.evictable event)).1]
    exact result.bounded

theorem step_evicts_least {capacity : Nat} (sound : Sound before) (configured : before.capacity_ = capacity)
    (positive : 0 ≤ before.maxAverageNum_) (stepped : step event before = some after) :
    (∀ next, step event before = some next → EvictsLeast capacity event before next) ↔ Steady event before := by
  constructor
  · intro least node found overflows
    obtain ⟨recency, linked⟩ := sound.linked
    obtain ⟨touched, access, count⟩ := (step_change linked stepped).of_hit found
    have attained := accessed_attained linked sound.attained found access count
    have occupied : after.residents ≠ [] := by
      rw [count.residents, access.residents]
      exact List.ne_nil_of_mem (linked.hit_resident found)
    exact attained.mp ((least after stepped).least occupied).2 node found overflows
  · intro steady next same
    exact sound.evictsLeast configured same (step_sound sound (.inl positive) steady same)

/-- Every operation of a run keeps `minFreq_` the least frequency, and evicts only by it,
exactly when no access in the run lets all frequencies decay to `INT8_MAX` or more. -/
theorem run_evicts_least [Inhabited Value] {capacity : Nat} {maxAverageNum : Int} (positive : 1 ≤ maxAverageNum)
    {events : List (CacheEvent Key Value)} {final : RLfuCache Key Value}
    (reached : machine.run events (new capacity maxAverageNum) = some final) :
    machine.Along (fun event cache => ∀ next, step event cache = some next → EvictsLeast capacity event cache next) events
        (new capacity maxAverageNum) ↔
      machine.Along Steady events (new capacity maxAverageNum) := by
  let kept (cache : RLfuCache Key Value) : Prop :=
    Sound cache ∧ cache.capacity_ = capacity ∧ 1 ≤ cache.maxAverageNum_
  have agree : ∀ event (before after : RLfuCache Key Value), kept before → machine.step event before = some after →
      ((∀ next, step event before = some next → EvictsLeast capacity event before next) ↔ Steady event before) :=
    fun _ _ _ held stepped => step_evicts_least held.1 held.2.1 (by have := held.2.2; omega) stepped
  have preserved : ∀ event (before after : RLfuCache Key Value),
      (∀ next, step event before = some next → EvictsLeast capacity event before next) → kept before →
      machine.step event before = some after → kept after := by
    intro event before after least ⟨sound, configured, positive⟩ stepped
    have steady := (step_evicts_least sound configured (by omega) stepped).mp least
    obtain ⟨recency, linked⟩ := sound.linked
    have config := (step_change linked stepped).config (sound.evictable event)
    exact ⟨step_sound sound (.inl (by omega)) steady stepped, config.1.trans configured, config.2 ▸ positive⟩
  exact Machine.along_iff agree preserved reached ⟨new_sound capacity maxAverageNum, rfl, positive⟩

/-- The average passes 10 once, and the eviction takes the right node. -/
theorem run_evicts_least_after_decay :
    machine.Along (fun event cache => ∀ next, step event cache = some next → EvictsLeast 1 event cache next)
      ([.put 1 7 default] ++ List.replicate 10 (.get 1 default) ++ [.put 2 8 default]) (new 1 10 : RLfuCache Nat Nat) := by
  have computed : (machine.run
    ([.put 1 7 default] ++ List.replicate 10 (.get 1 default) ++ [.put 2 8 default])
    (new 1 10 : RLfuCache Nat Nat)).map size = some 1 := by
    decide +kernel
  obtain ⟨final, reached, _⟩ := Option.map_eq_some_iff.mp computed
  exact (run_evicts_least (by decide) reached).mpr (by decide +kernel)

/-- With `maxAverageNum` 1 a decay takes nothing away. The frequency of the only node
reaches `INT8_MAX`, and the next `put` evicts nothing. -/
theorem put_exceeds_capacity : ∃ before after : RLfuCache Nat Nat,
    machine.run ([.put 1 7 default] ++ List.replicate 126 (.get 1 default)) (new 1 1) = some before ∧
    before.minFreq_ = 1 ∧ before.residents.map before.freq = [INT8_MAX] ∧
    step (.put 2 8 default) before = some after ∧ ¬ EvictsLeast 1 (.put 2 8 default) before after := by
  have computed : (machine.run
    ([.put 1 7 default] ++ List.replicate 126 (.get 1 default)) (new 1 1 : RLfuCache Nat Nat)).bind
    (fun before => (step (.put 2 8 default) before).map fun after =>
      (before.minFreq_, before.residents.map before.freq, after.size)) = some (1, [INT8_MAX], 2) := by
    decide +kernel
  obtain ⟨before, reached, ended⟩ := Option.bind_eq_some_iff.mp computed
  obtain ⟨after, stepped, seen⟩ := Option.map_eq_some_iff.mp ended
  simp only [Prod.mk.injEq] at seen
  refine ⟨before, after, reached, seen.1, seen.2.1, stepped, ?_⟩
  intro least
  have bounded := least.bounded
  omega

end Events
end Webserver.RLfuCache
