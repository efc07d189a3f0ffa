import Mathlib.Data.List.Sort

/-! Points on a ring, kept as a sorted list: the next point after a given one,
with a wrap to the first. -/

namespace Webserver.Library

universe u
variable {η : Type u} [LinearOrder η]

/-- `std::upper_bound` on a sorted list: the first element above `point`. -/
def upperBound (ring : List η) (point : η) : Option η := ring.find? fun other => point < other

/-- The point after `point`, or the first of the ring. -/
def nextOnRing (ring : List η) (point : η) : Option η := (upperBound ring point).or ring.head?

theorem upperBound_spec {ring : List η} (sorted : ring.Pairwise (· ≤ ·)) {point found : η}
    (result : upperBound ring point = some found) :
    found ∈ ring ∧ point < found ∧ ∀ other ∈ ring, point < other → found ≤ other := by
  have above : point < found := by simpa using List.find?_some result
  refine ⟨List.mem_of_find?_eq_some result, above, fun other member beyond => ?_⟩
  obtain ⟨_, before, after, rfl, skipped⟩ := List.find?_eq_some_iff_append.mp result
  rcases List.mem_append.mp member with early | late
  · exact absurd beyond (by simpa using skipped other early)
  · rcases List.mem_cons.mp late with rfl | later
    · exact le_refl _
    · exact (List.pairwise_cons.mp (List.pairwise_append.mp sorted).2.1).1 other later

theorem upperBound_none {ring : List η} {point : η} (result : upperBound ring point = none) :
    ∀ other ∈ ring, other ≤ point :=
  fun other member => by simpa using List.find?_eq_none.mp result other member

theorem head_least {ring : List η} (sorted : ring.Pairwise (· ≤ ·)) {first : η} (head : ring.head? = some first) :
    ∀ other ∈ ring, first ≤ other := by
  obtain ⟨rest, rfl⟩ := List.head?_eq_some_iff.mp head
  intro other member
  rcases List.mem_cons.mp member with rfl | later
  · exact le_refl _
  · exact (List.pairwise_cons.mp sorted).1 other later

/-- The next point is the least one above, or the least of all when none is above. -/
theorem nextOnRing_spec {ring : List η} (sorted : ring.Pairwise (· ≤ ·)) (occupied : ring ≠ []) (point : η) :
    ∃ found ∈ ring, nextOnRing ring point = some found ∧
      (point < found ∧ (∀ other ∈ ring, point < other → found ≤ other) ∨
        (∀ other ∈ ring, other ≤ point) ∧ ∀ other ∈ ring, found ≤ other) := by
  unfold nextOnRing
  cases result : upperBound ring point with
  | some found =>
    obtain ⟨member, above, least⟩ := upperBound_spec sorted result
    exact ⟨found, member, rfl, .inl ⟨above, least⟩⟩
  | none =>
    obtain ⟨first, rest, rfl⟩ := List.exists_cons_of_ne_nil occupied
    exact ⟨first, List.mem_cons_self, rfl, .inr ⟨upperBound_none result, head_least sorted rfl⟩⟩

/-- More points on the ring: the next point is one of the new ones, or the same as before. -/
theorem nextOnRing_of_subset {ring larger : List η} (sorted : ring.Pairwise (· ≤ ·)) (largerSorted : larger.Pairwise (· ≤ ·))
    (subset : ring ⊆ larger) {point found : η} (result : nextOnRing larger point = some found) (old : found ∈ ring) :
    nextOnRing ring point = some found := by
  obtain ⟨other, otherMember, otherFound, otherShape⟩ := nextOnRing_spec sorted (List.ne_nil_of_mem old) point
  obtain ⟨same, member, again, shape⟩ := nextOnRing_spec largerSorted (List.ne_nil_of_mem (subset old)) point
  rw [result] at again
  cases again
  rw [otherFound]
  congr 1
  rcases shape with ⟨above, least⟩ | ⟨none, least⟩
  · rcases otherShape with ⟨otherAbove, otherLeast⟩ | ⟨otherNone, _⟩
    · exact le_antisymm (otherLeast found old above) (least other (subset otherMember) otherAbove)
    · exact absurd above (not_lt.mpr (otherNone found old))
  · rcases otherShape with ⟨otherAbove, _⟩ | ⟨_, otherLeast⟩
    · exact absurd otherAbove (not_lt.mpr (none other (subset otherMember)))
    · exact le_antisymm (otherLeast found old) (least other (subset otherMember))

/-- A property that holds below a bound holds of the next point exactly when some
candidate for it is below the bound. -/
theorem nextOnRing_below {ring : List η} (sorted : ring.Pairwise (· ≤ ·)) {point found : η}
    (result : nextOnRing ring point = some found) (below : η → Prop)
    (down : ∀ first second, first ≤ second → below second → below first) :
    below found ↔ (∃ other ∈ ring, point < other ∧ below other) ∨
      (∀ other ∈ ring, other ≤ point) ∧ ∃ other ∈ ring, below other := by
  have occupied : ring ≠ [] := by
    rintro rfl
    cases result
  obtain ⟨other, member, same, shape⟩ := nextOnRing_spec sorted occupied point
  rw [result] at same
  cases same
  rcases shape with ⟨above, least⟩ | ⟨none, least⟩
  · constructor
    · intro low
      exact .inl ⟨found, member, above, low⟩
    · rintro (⟨other, inside, beyond, low⟩ | ⟨none, _⟩)
      · exact down _ _ (least other inside beyond) low
      · exact absurd above (not_lt.mpr (none found member))
  · constructor
    · intro low
      exact .inr ⟨none, found, member, low⟩
    · rintro (⟨other, inside, beyond, _⟩ | ⟨_, other, inside, low⟩)
      · exact absurd beyond (not_lt.mpr (none other inside))
      · exact down _ _ (least other inside) low

/-- The least point at or after `point`, or the least of the ring when there is none. -/
def FirstFrom (ring : List η) (point found : η) : Prop :=
  found ∈ ring ∧ (point ≤ found ∧ (∀ other ∈ ring, point ≤ other → found ≤ other) ∨
    (∀ other ∈ ring, other < point) ∧ ∀ other ∈ ring, found ≤ other)

/-- A point of the ring comes first from itself. -/
theorem FirstFrom.of_mem {ring : List η} {point found : η} (first : FirstFrom ring point found) (member : point ∈ ring) :
    found = point := by
  rcases first.2 with ⟨above, least⟩ | ⟨below, _⟩
  · exact le_antisymm (least point member (le_refl _)) above
  · exact absurd (below point member) (lt_irrefl _)

/-- The next point passes over `point` itself, which matters when another point is on the ring. -/
theorem nextOnRing_firstFrom_iff {ring : List η} (sorted : ring.Pairwise (· ≤ ·)) {point found : η}
    (result : nextOnRing ring point = some found) :
    FirstFrom ring point found ↔ point ∉ ring ∨ ∀ other ∈ ring, other = point := by
  have occupied : ring ≠ [] := by
    rintro rfl
    cases result
  obtain ⟨other, member, same, shape⟩ := nextOnRing_spec sorted occupied point
  rw [result] at same
  cases same
  constructor
  · intro first
    by_cases present : point ∈ ring
    · right
      have found := first.of_mem present
      subst found
      rcases shape with ⟨above, _⟩ | ⟨none, least⟩
      · exact absurd above (lt_irrefl _)
      · exact fun other inside => le_antisymm (none other inside) (least other inside)
    · exact .inl present
  · rintro (absent | single)
    · have apart : ∀ other ∈ ring, other ≠ point := by
        rintro other inside rfl
        exact absent inside
      refine ⟨member, ?_⟩
      rcases shape with ⟨above, least⟩ | ⟨none, least⟩
      · left
        refine ⟨le_of_lt above, fun other inside beyond => ?_⟩
        exact least other inside (lt_of_le_of_ne beyond (apart other inside).symm)
      · right
        exact ⟨fun other inside => lt_of_le_of_ne (none other inside) (apart other inside), least⟩
    · obtain rfl := single found member
      exact ⟨member, .inl ⟨le_refl _, fun other _ beyond => beyond⟩⟩

end Webserver.Library
