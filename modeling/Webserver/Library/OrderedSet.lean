import Webserver.Library.Ring

/-! `std::set` as its sorted list of distinct elements: insertion, the first element,
and the cut of all elements below a bound. -/

namespace Webserver.Library

universe u

structure OrderedSet (η : Type u) [LinearOrder η] where
  entries : List η
  sorted : entries.Pairwise (· < ·)

namespace OrderedSet
variable {η : Type u} [LinearOrder η]

def empty : OrderedSet η := ⟨[], .nil⟩

theorem nodup (set : OrderedSet η) : set.entries.Nodup := set.sorted.imp fun below => below.ne

/-- An element that is already there is not inserted again. -/
def insert (set : OrderedSet η) (element : η) : OrderedSet η :=
  if member : element ∈ set.entries then set
  else
    ⟨set.entries.orderedInsert (· ≤ ·) element, by
      have sorted : (set.entries.orderedInsert (· ≤ ·) element).Pairwise (· ≤ ·) :=
        (set.sorted.imp fun below => le_of_lt below).orderedInsert element _
      have once : (set.entries.orderedInsert (· ≤ ·) element).Nodup :=
        (List.perm_orderedInsert (· ≤ ·) element set.entries).nodup_iff.mpr (List.nodup_cons.mpr ⟨member, set.nodup⟩)
      exact (sorted.and once).imp fun held => lt_of_le_of_ne held.1 held.2⟩

/-- The elements before `lower_bound`. -/
def below (set : OrderedSet η) (bound : η) : List η := set.entries.takeWhile (· < bound)

/-- What is left when the elements before `lower_bound` are erased. -/
def eraseBelow (set : OrderedSet η) (bound : η) : OrderedSet η :=
  ⟨set.entries.dropWhile (· < bound), set.sorted.sublist (List.dropWhile_sublist _)⟩

theorem insert_perm {set : OrderedSet η} {element : η} (fresh : element ∉ set.entries) :
    (set.insert element).entries.Perm (element :: set.entries) := by
  simp only [insert, dif_neg fresh]
  exact List.perm_orderedInsert _ _ _

theorem mem_insert {set : OrderedSet η} {element other : η} :
    other ∈ (set.insert element).entries ↔ other = element ∨ other ∈ set.entries := by
  by_cases member : element ∈ set.entries
  · simp only [insert, dif_pos member]
    constructor
    · exact .inr
    · rintro (rfl | inside)
      · exact member
      · exact inside
  · rw [(insert_perm member).mem_iff, List.mem_cons]

theorem below_append (set : OrderedSet η) (bound : η) :
    set.below bound ++ (set.eraseBelow bound).entries = set.entries := List.takeWhile_append_dropWhile

/-- In a sorted list the elements below a bound are those of its first part. -/
theorem below_eq_filter (set : OrderedSet η) (bound : η) :
    set.below bound = set.entries.filter (· < bound) ∧
      (set.eraseBelow bound).entries = set.entries.filter (¬ · < bound) := by
  obtain ⟨entries, sorted⟩ := set
  simp only [below, eraseBelow]
  induction entries with
  | nil => exact ⟨rfl, rfl⟩
  | cons first rest ih =>
    obtain ⟨least, tail⟩ := List.pairwise_cons.mp sorted
    by_cases low : first < bound
    · simpa [low] using ih tail
    · have high : ∀ other ∈ first :: rest, ¬ other < bound := by
        intro other member
        rcases List.mem_cons.mp member with rfl | later
        · exact low
        · exact not_lt.mpr ((not_lt.mp low).trans (least other later).le)
      have none : (first :: rest).filter (fun other => decide (other < bound)) = [] :=
        List.filter_eq_nil_iff.mpr fun other member => by simpa using high other member
      have all : (first :: rest).filter (fun other => decide (¬ other < bound)) = first :: rest :=
        List.filter_eq_self.mpr fun other member => by simpa using high other member
      rw [none, all]
      simp [low]

theorem first_least {set : OrderedSet η} {first : η} (head : set.entries.head? = some first) :
    ∀ element ∈ set.entries, first ≤ element :=
  head_least (set.sorted.imp fun below => le_of_lt below) head

end OrderedSet
end Webserver.Library
