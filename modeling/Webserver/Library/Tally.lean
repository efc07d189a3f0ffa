import Mathlib.Algebra.Order.BigOperators.Group.List
import Mathlib.Algebra.Order.Ring.Int

/-! The sum of the counts of some items, and its average rounded down. -/

namespace Webserver.Library

universe u
variable {ι : Type u}

def tally (items : List ι) (count : ι → Int) : Int := (items.map count).sum

@[simp]
theorem tally_nil (count : ι → Int) : tally [] count = 0 := rfl

@[simp]
theorem tally_cons (item : ι) (items : List ι) (count : ι → Int) :
    tally (item :: items) count = count item + tally items count := by
  simp [tally]

theorem tally_perm {items others : List ι} (perm : items.Perm others) (count : ι → Int) :
    tally items count = tally others count := (perm.map count).sum_eq

theorem tally_congr {items : List ι} {count other : ι → Int} (same : ∀ item ∈ items, count item = other item) :
    tally items count = tally items other := by
  rw [tally, tally, List.map_congr_left same]

theorem tally_le {items : List ι} {count other : ι → Int} (le : ∀ item ∈ items, count item ≤ other item) :
    tally items count ≤ tally items other := List.sum_le_sum le

theorem tally_lt {items : List ι} {count other : ι → Int} (le : ∀ item ∈ items, count item ≤ other item)
    (lt : ∃ item ∈ items, count item < other item) : tally items count < tally items other :=
  List.sum_lt_sum _ _ le lt

theorem tally_update [DecidableEq ι] {items : List ι} {item : ι} (once : items.Nodup) (member : item ∈ items)
    (count : ι → Int) (value : Int) :
    tally items (Function.update count item value) = tally items count - count item + value := by
  have split := List.perm_cons_erase member
  have others : tally (items.erase item) (Function.update count item value) = tally (items.erase item) count := by
    apply tally_congr
    intro other inside
    apply Function.update_of_ne
    rintro rfl
    exact once.not_mem_erase inside
  rw [tally_perm split, tally_perm split count, tally_cons, tally_cons, others, Function.update_self]
  omega

/-- The sum after one of the terms is replaced. -/
theorem sum_set {terms : List Nat} {i term : Nat} (found : terms[i]? = some term) (other : Nat) :
    (terms.set i other).sum + term = terms.sum + other := by
  induction terms generalizing i with
  | nil => cases found
  | cons first rest ih =>
    cases i with
    | zero =>
      cases found
      simp only [List.set_cons_zero, List.sum_cons]
      omega
    | succ i =>
      have tail := ih (show rest[i]? = some term from found)
      simp only [List.set_cons_succ, List.sum_cons]
      omega

theorem length_le_tally {items : List ι} {count : ι → Int} {bound : Int} (above : ∀ item ∈ items, bound ≤ count item) :
    items.length * bound ≤ tally items count := by
  induction items with
  | nil => simp
  | cons item items ih =>
    have rest := ih fun other member => above other (by simp [member])
    have first := above item (by simp)
    rw [tally_cons, List.length_cons, Int.natCast_add, Int.add_mul]
    omega

/-- Some item has no more than the average. -/
theorem exists_le_of_tally_lt {items : List ι} {count : ι → Int} {bound : Int}
    (below : tally items count < items.length * (bound + 1)) : ∃ item ∈ items, count item ≤ bound := by
  by_contra none
  simp only [not_exists, not_and, Int.not_le] at none
  have above := length_le_tally fun item member => Int.add_one_le_of_lt (none item member)
  omega

end Webserver.Library
