import Mathlib.Data.Set.Function
import Webserver.Proofs.RingLookup

/-! Which virtual nodes are on the ring: those that `addNode` has labelled, and that
`removeNode` does not find because it builds other labels. -/

namespace Webserver
open Library

namespace ConsistentHash

def addedLabel (node : String) (i : Nat) : String := node ++ "_0" ++ toString i
def removedLabel (node : String) (i : Nat) : String := node ++ toString i

def labels (numReplicas : Nat) (names : Set String) : Set String :=
  fun label => ∃ node ∈ names, ∃ i < numReplicas, label = addedLabel node i ∨ label = removedLabel node i

private theorem last_split {α : Type} {x : α} {first second : List α} {tail other : List α} (firstFree : x ∉ tail)
    (secondFree : x ∉ other) (same : first ++ x :: tail = second ++ x :: other) : first = second ∧ tail = other := by
  rcases List.append_eq_append_iff.mp same with ⟨middle, rfl, shape⟩ | ⟨middle, rfl, shape⟩
  · rcases List.cons_eq_append_iff.mp shape with ⟨rfl, rest⟩ | ⟨more, rfl, rest⟩
    · cases rest
      exact ⟨(List.append_nil _).symm, rfl⟩
    · exact absurd (by simp [rest]) firstFree
  · rcases List.cons_eq_append_iff.mp shape with ⟨rfl, rest⟩ | ⟨more, rfl, rest⟩
    · cases rest
      exact ⟨List.append_nil _, rfl⟩
    · exact absurd (by simp [rest]) secondFree

private theorem addedLabel_toList (node : String) (i : Nat) :
    (addedLabel node i).toList = node.toList ++ '_' :: '0' :: Nat.toDigits 10 i := by
  simp [addedLabel, Nat.toString_eq_repr, Nat.toList_repr]

private theorem separator_free (i : Nat) : '_' ∉ '0' :: Nat.toDigits 10 i := by
  simp [Nat.underscore_not_in_toDigits]

/-- The separator keeps the labels of different nodes apart, even of those whose names extend each other. -/
private theorem addedLabel_injective {node other : String} {i j : Nat} (same : addedLabel node i = addedLabel other j) :
    node = other ∧ i = j := by
  have lists := congrArg String.toList same
  rw [addedLabel_toList, addedLabel_toList] at lists
  obtain ⟨names, digits⟩ := last_split (separator_free i) (separator_free j) lists
  have numbers := congrArg (fun digits => Nat.ofDigitChars 10 digits 0) (List.cons.inj digits).2
  exact ⟨String.toList_inj.mp names, by simpa using numbers⟩

/-- `removeNode` builds none of the labels that `addNode` builds for the same node. -/
private theorem removedLabel_ne (node : String) (i j : Nat) : removedLabel node i ≠ addedLabel node j := by
  intro same
  have lists := congrArg String.toList same
  rw [addedLabel_toList] at lists
  simp only [removedLabel, String.toList_append, Nat.toString_eq_repr, Nat.toList_repr, List.append_cancel_left_eq] at lists
  have inside : '_' ∈ Nat.toDigits 10 i := by simp [lists]
  exact Nat.underscore_not_in_toDigits inside

/-- The nodes that were added and not removed since. -/
def RingEvent.record : RingEvent → List String → List String
  | .addNode node, members => node :: members
  | .removeNode node, members => members.filter (· ≠ node)

def RingEvent.node : RingEvent → String
  | .addNode node => node
  | .removeNode node => node

def watched : Machine (ConsistentHash × List String) RingEvent :=
  machine.watch fun event _ members => event.record members

/-- The map has the virtual nodes of the members and no other entry. -/
def Exact (ring : ConsistentHash) (members : List String) : Prop :=
  ∀ hash node, ring.circle_.lookup hash = some node ↔
    node ∈ members ∧ ∃ i < ring.numReplicas_, ring.replicaHash node i = hash

/-- The operation leaves the virtual nodes of the members, as they are then, on the ring. -/
def RingEvent.KeepsExact (event : RingEvent) (before : ConsistentHash × List String) : Prop :=
  ∀ after, watched.step event before = some after → after.1.Exact after.2

/-- A removal names no member, and none of the labels that it builds is a virtual node of a member. -/
def RingEvent.Misses (event : RingEvent) (before : ConsistentHash × List String) : Prop :=
  match event with
  | .addNode _ => True
  | .removeNode node => before.1.numReplicas_ = 0 ∨ node ∉ before.2 ∧
      ∀ member ∈ before.2, ∀ i < before.1.numReplicas_, ∀ j < before.1.numReplicas_,
        removedLabel node i ≠ addedLabel member j

private theorem lookup_addNode (ring : ConsistentHash) (node : String) (hash : SizeT) :
    ((∃ i < ring.numReplicas_, ring.replicaHash node i = hash) → (ring.addNode node).circle_.lookup hash = some node) ∧
    ((¬∃ i < ring.numReplicas_, ring.replicaHash node i = hash) →
      (ring.addNode node).circle_.lookup hash = ring.circle_.lookup hash) := by
  have inserted (replicas : List Nat) (circle : AList fun _ : SizeT => String) :
      (replicas.foldl (fun circle i => circle.insert (ring.replicaHash node i) node) circle).lookup hash =
        if ∃ i ∈ replicas, ring.replicaHash node i = hash then some node else circle.lookup hash := by
    induction replicas generalizing circle with
    | nil => simp
    | cons i replicas ih =>
      rw [List.foldl_cons, ih]
      by_cases here : ring.replicaHash node i = hash
      · simp [here]
      · simp [here, AList.lookup_insert_ne (Ne.symm here)]
  have all := inserted (List.range ring.numReplicas_) ring.circle_
  simp only [List.mem_range] at all
  exact ⟨fun some => all.trans (if_pos some), fun none => all.trans (if_neg none)⟩

theorem lookup_removeNode (ring : ConsistentHash) (node : String) (hash : SizeT) :
    ((∃ i < ring.numReplicas_, ring.removedHash node i = hash) → (ring.removeNode node).circle_.lookup hash = none) ∧
    ((¬∃ i < ring.numReplicas_, ring.removedHash node i = hash) →
      (ring.removeNode node).circle_.lookup hash = ring.circle_.lookup hash) := by
  have erased (replicas : List Nat) (rest : ConsistentHash) :
      (replicas.foldl (fun rest i => rest.eraseHash (ring.removedHash node i)) rest).circle_.lookup hash =
        if ∃ i ∈ replicas, ring.removedHash node i = hash then none else rest.circle_.lookup hash := by
    induction replicas generalizing rest with
    | nil => simp
    | cons i replicas ih =>
      rw [List.foldl_cons, ih]
      by_cases here : ring.removedHash node i = hash
      · simp [here, eraseHash]
      · simp [here, eraseHash, AList.lookup_erase_ne (Ne.symm here)]
  have all := erased (List.range ring.numReplicas_) ring
  simp only [List.mem_range] at all
  exact ⟨fun some => all.trans (if_pos some), fun none => all.trans (if_neg none)⟩

private theorem removeNode_frame (ring : ConsistentHash) (node : String) :
    (ring.removeNode node).numReplicas_ = ring.numReplicas_ ∧ (ring.removeNode node).hashFunction_ = ring.hashFunction_ := by
  have erased (replicas : List Nat) (rest : ConsistentHash) :
      (replicas.foldl (fun rest i => rest.eraseHash (ring.removedHash node i)) rest).numReplicas_ = rest.numReplicas_ ∧
      (replicas.foldl (fun rest i => rest.eraseHash (ring.removedHash node i)) rest).hashFunction_ = rest.hashFunction_ := by
    induction replicas generalizing rest with
    | nil => exact ⟨rfl, rfl⟩
    | cons i replicas ih => exact ih (rest.eraseHash _)
  exact erased _ ring

private theorem removeNode_exact_iff (ring : ConsistentHash) (node : String) (members : List String) :
    (ring.removeNode node).Exact members ↔ ∀ hash other, (ring.removeNode node).circle_.lookup hash = some other ↔
      other ∈ members ∧ ∃ i < ring.numReplicas_, ring.replicaHash other i = hash := by
  simp only [Exact, replicaHash, (removeNode_frame ring node).1, (removeNode_frame ring node).2]

structure Settled (numReplicas : Nat) (hashFunc : String → SizeT) (names : Set String)
    (state : ConsistentHash × List String) : Prop where
  numReplicas_ : state.1.numReplicas_ = numReplicas
  hashFunction_ : state.1.hashFunction_ = hashFunc
  named : ∀ member ∈ state.2, member ∈ names
  exact : state.1.Exact state.2

section Injective
variable {numReplicas : Nat} {hashFunc : String → SizeT} {names : Set String} {state : ConsistentHash × List String}

theorem Settled.replica_eq (settled : Settled numReplicas hashFunc names state)
    (injective : Set.InjOn hashFunc (labels numReplicas names)) {node other : String} (nodeNamed : node ∈ names)
    (otherNamed : other ∈ names) {i j : Nat} (inside : i < numReplicas) (within : j < numReplicas)
    (same : state.1.replicaHash node i = state.1.replicaHash other j) : node = other := by
  rw [replicaHash, replicaHash, settled.hashFunction_] at same
  exact (addedLabel_injective (injective ⟨node, nodeNamed, i, inside, .inl rfl⟩ ⟨other, otherNamed, j, within, .inl rfl⟩ same)).1

theorem Settled.removed_eq (settled : Settled numReplicas hashFunc names state)
    (injective : Set.InjOn hashFunc (labels numReplicas names)) {node other : String} (nodeNamed : node ∈ names)
    (otherNamed : other ∈ names) {i j : Nat} (inside : i < numReplicas) (within : j < numReplicas)
    (same : state.1.removedHash node i = state.1.replicaHash other j) : removedLabel node i = addedLabel other j := by
  rw [removedHash, replicaHash, settled.hashFunction_] at same
  exact injective ⟨node, nodeNamed, i, inside, .inr rfl⟩ ⟨other, otherNamed, j, within, .inl rfl⟩ same

theorem Settled.addNode_exact (settled : Settled numReplicas hashFunc names state)
    (injective : Set.InjOn hashFunc (labels numReplicas names)) {node : String} (nodeNamed : node ∈ names) :
    (state.1.addNode node).Exact (node :: state.2) := by
  intro hash other
  change (state.1.addNode node).circle_.lookup hash = some other ↔
    other ∈ node :: state.2 ∧ ∃ i < state.1.numReplicas_, state.1.replicaHash other i = hash
  by_cases new : ∃ i < state.1.numReplicas_, state.1.replicaHash node i = hash
  · rw [(lookup_addNode _ _ _).1 new]
    obtain ⟨i, inside, rfl⟩ := new
    constructor
    · intro same
      cases same
      exact ⟨List.mem_cons_self, i, inside, rfl⟩
    · intro ⟨member, j, within, same⟩
      have otherNamed : other ∈ names := by
        rcases List.mem_cons.mp member with rfl | old
        · exact nodeNamed
        · exact settled.named other old
      rw [settled.numReplicas_] at inside within
      rw [settled.replica_eq injective otherNamed nodeNamed within inside same]
  · rw [(lookup_addNode _ _ _).2 new, settled.exact hash other]
    constructor
    · intro ⟨member, virtual⟩
      exact ⟨List.mem_cons_of_mem _ member, virtual⟩
    · intro ⟨member, virtual⟩
      rcases List.mem_cons.mp member with rfl | old
      · exact absurd virtual new
      · exact ⟨old, virtual⟩

/-- A member that is removed keeps its virtual nodes, and the entries that do go are those of another. -/
theorem Settled.misses_of_exact (settled : Settled numReplicas hashFunc names state)
    (injective : Set.InjOn hashFunc (labels numReplicas names)) {node : String} (nodeNamed : node ∈ names)
    (exact : (state.1.removeNode node).Exact (state.2.filter (· ≠ node))) : (RingEvent.removeNode node).Misses state := by
  rw [removeNode_exact_iff] at exact
  apply or_iff_not_imp_left.mpr
  intro some
  have absent : node ∉ state.2 := by
    intro member
    have missed : ¬∃ i < state.1.numReplicas_, state.1.removedHash node i = state.1.replicaHash node 0 := by
      intro ⟨i, inside, same⟩
      rw [settled.numReplicas_] at inside some
      exact removedLabel_ne node i 0 (settled.removed_eq injective nodeNamed nodeNamed inside (Nat.pos_of_ne_zero some) same)
    have before := (settled.exact (state.1.replicaHash node 0) node).mpr ⟨member, 0, Nat.pos_of_ne_zero some, rfl⟩
    have after := ((lookup_removeNode _ _ _).2 missed).trans before
    simpa using ((exact _ _).mp after).1
  refine ⟨absent, fun member inside i within j below same => ?_⟩
  have erased : state.1.removedHash node i = state.1.replicaHash member j := congrArg state.1.hashFunction_ same
  have apart : member ≠ node := by
    rintro rfl
    exact absent inside
  have gone := (lookup_removeNode state.1 node (state.1.replicaHash member j)).1 ⟨i, within, erased⟩
  rw [(exact _ member).mpr ⟨by simp [inside, apart], j, below, rfl⟩] at gone
  cases gone

theorem Settled.exact_of_misses (settled : Settled numReplicas hashFunc names state)
    (injective : Set.InjOn hashFunc (labels numReplicas names)) {node : String} (nodeNamed : node ∈ names)
    (misses : (RingEvent.removeNode node).Misses state) :
    (state.1.removeNode node).Exact (state.2.filter (· ≠ node)) := by
  rw [removeNode_exact_iff]
  intro hash other
  rcases misses with none | ⟨absent, apart⟩
  · rw [(lookup_removeNode _ _ _).2 (by simp [none]), settled.exact hash other]
    simp [none]
  · have same : state.2.filter (· ≠ node) = state.2 := by
      rw [List.filter_eq_self]
      intro member inside
      have other : member ≠ node := by
        rintro rfl
        exact absent inside
      simpa using other
    rw [same]
    by_cases erased : ∃ i < state.1.numReplicas_, state.1.removedHash node i = hash
    · rw [(lookup_removeNode _ _ _).1 erased]
      obtain ⟨i, inside, rfl⟩ := erased
      apply iff_of_false (by simp)
      intro ⟨member, j, within, hit⟩
      apply apart other member i inside j within
      rw [settled.numReplicas_] at inside within
      exact settled.removed_eq injective nodeNamed (settled.named other member) inside within hit.symm
    · rw [(lookup_removeNode _ _ _).2 erased]
      exact settled.exact hash other

/-- On a run whose names have labels that the hash function keeps apart, the ring has
exactly its members after each operation if and only if each removal misses. -/
theorem membership_exact_iff (numReplicas : Nat) (hashFunc : String → SizeT) (names : Set String)
    (injective : Set.InjOn hashFunc (labels numReplicas names)) (events : List RingEvent)
    (named : ∀ event ∈ events, event.node ∈ names) (final : ConsistentHash × List String)
    (reached : watched.run events (new numReplicas hashFunc, []) = some final) :
    watched.Along RingEvent.KeepsExact events (new numReplicas hashFunc, []) ↔
      watched.Along RingEvent.Misses events (new numReplicas hashFunc, []) := by
  have agree : ∀ event (before after : ConsistentHash × List String), event.node ∈ names →
      Settled numReplicas hashFunc names before → watched.step event before = some after →
      (event.KeepsExact before ↔ event.Misses before) := by
    intro event before after nodeNamed settled stepped
    have keeps : event.KeepsExact before ↔ after.1.Exact after.2 := Machine.forall_next stepped
    rw [keeps]
    obtain ⟨ring, members⟩ := after
    obtain ⟨stepped, rfl⟩ := Machine.watch_step.mp stepped
    cases event <;> cases stepped
    case addNode node => exact iff_of_true (settled.addNode_exact injective nodeNamed) trivial
    case removeNode node =>
      exact ⟨settled.misses_of_exact injective nodeNamed, settled.exact_of_misses injective nodeNamed⟩
  have preserved : ∀ event (before after : ConsistentHash × List String), event.node ∈ names → event.KeepsExact before →
      Settled numReplicas hashFunc names before → watched.step event before = some after →
      Settled numReplicas hashFunc names after := by
    intro event before after nodeNamed keeps settled stepped
    have exact := keeps after stepped
    obtain ⟨ring, members⟩ := after
    obtain ⟨stepped, rfl⟩ := Machine.watch_step.mp stepped
    cases event <;> cases stepped
    case addNode node =>
      refine ⟨settled.numReplicas_, settled.hashFunction_, ?_, exact⟩
      intro member inside
      rcases List.mem_cons.mp inside with rfl | old
      · exact nodeNamed
      · exact settled.named member old
    case removeNode node =>
      have frame := removeNode_frame before.1 node
      exact ⟨frame.1.trans settled.numReplicas_, frame.2.trans settled.hashFunction_,
        fun member inside => settled.named member (List.mem_of_mem_filter inside), exact⟩
  have initial : Settled numReplicas hashFunc names (new numReplicas hashFunc, []) := by
    refine ⟨rfl, rfl, by simp, fun hash node => ?_⟩
    simp [new]
  exact Machine.along_iff_within agree preserved reached (Machine.along_of_forall named _) initial

end Injective

def lengthHash (label : String) : SizeT := Fin.ofNat UInt64.size label.length

private theorem lengthHash_injective : Set.InjOn lengthHash (labels 1 {"a", "bc"}) := by
  intro first ⟨node, member, i, inside, shape⟩ second ⟨other, otherMember, j, within, otherShape⟩ same
  obtain rfl : i = 0 := by omega
  obtain rfl : j = 0 := by omega
  rcases member with rfl | rfl <;> rcases otherMember with rfl | rfl <;> rcases shape with rfl | rfl <;>
    rcases otherShape with rfl | rfl <;> revert same <;> decide +kernel

theorem membership_exact_two : watched.Along RingEvent.KeepsExact [.addNode "a", .addNode "a", .removeNode "bc"]
    (new 1 lengthHash, []) := by
  have reached : watched.run [.addNode "a", .addNode "a", .removeNode "bc"] (new 1 lengthHash, []) = some _ := rfl
  have named : ∀ event ∈ [RingEvent.addNode "a", .addNode "a", .removeNode "bc"], event.node ∈ ({"a", "bc"} : Set String) := by
    simp [RingEvent.node]
  apply (membership_exact_iff 1 lengthHash _ lengthHash_injective _ named _ reached).mpr
  simp +decide [Machine.Along, watched, Machine.watch, machine, step, RingEvent.Misses, RingEvent.record, addNode, new]

/-- A node that is removed is still on the ring. -/
theorem removed_node_stays : Set.InjOn lengthHash (labels 1 {"a", "bc"}) ∧
    ∃ final : ConsistentHash × List String, watched.run [.addNode "a", .removeNode "a"] (new 1 lengthHash, []) = some final ∧
      final.2 = [] ∧ final.1.circle_.lookup 4 = some "a" ∧ ¬final.1.Exact final.2 := by
  obtain ⟨final, reached, none, stale⟩ : ∃ final : ConsistentHash × List String,
      watched.run [.addNode "a", .removeNode "a"] (new 1 lengthHash, []) = some final ∧ final.2 = [] ∧
      final.1.circle_.lookup 4 = some "a" := ⟨_, rfl, rfl, by decide +kernel⟩
  refine ⟨lengthHash_injective, final, reached, none, stale, fun exact => ?_⟩
  have member := ((exact 4 "a").mp stale).1
  rw [none] at member
  cases member

end ConsistentHash
end Webserver
