import Mathlib.Data.List.Nodup
import Mathlib.Logic.Function.Basic
import Mathlib.Order.Lattice

/-! Items filed in one list for each count. A list holds its items in the order in
which they were filed, so that all the lists together are one order of all items. -/

namespace Webserver.Library

universe u v
variable {ι : Type u} {κ : Type v}

/-- `recency` lists the items by their last filing. -/
structure Filed [DecidableEq κ] (bucket : κ → List ι) (recency : List ι) (count : ι → κ) : Prop where
  nodup : recency.Nodup
  listed : ∀ level, bucket level = recency.filter fun item => count item = level

namespace Filed
variable [DecidableEq κ] {bucket : κ → List ι} {recency : List ι} {count : ι → κ}

theorem empty : Filed (fun _ : κ => ([] : List ι)) [] count := ⟨List.nodup_nil, fun _ => rfl⟩

theorem mem (filed : Filed bucket recency count) {item : ι} {level : κ} :
    item ∈ bucket level ↔ item ∈ recency ∧ count item = level := by
  rw [filed.listed]
  simp

theorem nodup_bucket (filed : Filed bucket recency count) (level : κ) : (bucket level).Nodup := by
  rw [filed.listed]
  exact filed.nodup.filter _

theorem congr {other : κ → List ι} {counted : ι → κ} (filed : Filed bucket recency count)
    (lists : ∀ level, other level = bucket level) (counts : ∀ item ∈ recency, counted item = count item) :
    Filed other recency counted := by
  refine ⟨filed.nodup, ?_⟩
  intro level
  rw [lists, filed.listed]
  apply List.filter_congr
  intro item member
  rw [counts item member]

theorem add (filed : Filed bucket recency count) {item : ι} (absent : item ∉ recency) :
    Filed (Function.update bucket (count item) (bucket (count item) ++ [item])) (recency ++ [item]) count := by
  refine ⟨List.nodup_append.mpr ⟨filed.nodup, List.nodup_singleton item, ?_⟩, ?_⟩
  · intro first member second only
    rw [List.mem_singleton.mp only]
    intro same
    exact absent (same ▸ member)
  · intro level
    rw [List.filter_append]
    by_cases same : level = count item
    · subst same
      rw [Function.update_self, filed.listed]
      simp
    · rw [Function.update_of_ne same, filed.listed]
      simp [Ne.symm same]

section Moves
variable [DecidableEq ι]

theorem remove (filed : Filed bucket recency count) (item : ι) :
    Filed (Function.update bucket (count item) ((bucket (count item)).erase item)) (recency.erase item) count := by
  refine ⟨filed.nodup.erase item, ?_⟩
  intro level
  rw [filed.nodup.erase_eq_filter, List.filter_filter]
  by_cases same : level = count item
  · subst same
    rw [Function.update_self, (filed.nodup_bucket _).erase_eq_filter, filed.listed, List.filter_filter]
    apply List.filter_congr
    intro other _
    exact Bool.and_comm _ _
  · rw [Function.update_of_ne same, filed.listed]
    apply List.filter_congr
    intro other _
    by_cases moved : other = item
    · simp [moved, Ne.symm same]
    · simp [moved]

theorem recount (filed : Filed bucket recency count) {item : ι} (absent : item ∉ recency) (level : κ) :
    Filed bucket recency (Function.update count item level) := by
  apply filed.congr (fun _ => rfl)
  intro other member
  apply Function.update_of_ne
  intro same
  exact absent (same ▸ member)

/-- The item leaves the list of its count for the end of the list of another. -/
theorem move (filed : Filed bucket recency count) (item : ι) (level : κ) :
    Filed
      (Function.update (Function.update bucket (count item) ((bucket (count item)).erase item)) level
        (Function.update bucket (count item) ((bucket (count item)).erase item) level ++ [item]))
      (recency.erase item ++ [item]) (Function.update count item level) := by
  have absent : item ∉ recency.erase item := filed.nodup.not_mem_erase
  have added := ((filed.remove item).recount absent level).add absent
  rwa [Function.update_self] at added

end Moves

/-- The first item of the lowest occupied list is the first one filed of those with the least count. -/
theorem first_least [LinearOrder κ] (filed : Filed bucket recency count) {level : κ} {item : ι} {rest : List ι}
    (lower : ∀ other ∈ recency, level ≤ count other) (first : bucket level = item :: rest) :
    recency.find? (fun candidate => recency.all fun other => count candidate ≤ count other) = some item := by
  have attained : item ∈ recency ∧ count item = level := filed.mem.mp (by rw [first]; simp)
  have least : ∀ candidate ∈ recency,
      (recency.all fun other => count candidate ≤ count other) = decide (count candidate = level) := by
    intro candidate member
    rw [Bool.eq_iff_iff]
    simp only [List.all_eq_true, decide_eq_true_eq]
    constructor
    · intro below
      exact le_antisymm (attained.2 ▸ below item attained.1) (lower candidate member)
    · intro same other inside
      exact same ▸ lower other inside
  rw [← List.head?_filter, List.filter_congr least, ← filed.listed, first]
  rfl

end Filed
end Webserver.Library
