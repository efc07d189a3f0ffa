import Mathlib.Data.List.Pairwise

/-! Ranges of addresses. Two are apart when they share no address, so that an empty
range is apart from every other. -/

namespace Webserver.Library

universe u v

structure Region where
  start : Nat
  bytes : Nat
deriving DecidableEq, Repr

namespace Region

instance : Membership Nat Region := ⟨fun region address => region.start ≤ address ∧ address < region.start + region.bytes⟩

instance (region : Region) (address : Nat) : Decidable (address ∈ region) :=
  inferInstanceAs (Decidable (region.start ≤ address ∧ address < region.start + region.bytes))

theorem mem_iff {region : Region} {address : Nat} :
    address ∈ region ↔ region.start ≤ address ∧ address < region.start + region.bytes := Iff.rfl

def Apart (first second : Region) : Prop := ∀ address ∈ first, address ∉ second

/-- No address of the inner range is outside the outer one. -/
def Within (inner outer : Region) : Prop := ∀ address ∈ inner, address ∈ outer

theorem Apart.symm {first second : Region} (apart : first.Apart second) : second.Apart first :=
  fun address inside other => apart address other inside

theorem Apart.within {first second inner other : Region} (apart : first.Apart second) (left : inner.Within first)
    (right : other.Within second) : inner.Apart other :=
  fun address inside shared => apart address (left address inside) (right address shared)

theorem within_refl (region : Region) : region.Within region := fun _ inside => inside

theorem within_of_le {inner outer : Region} (start : outer.start ≤ inner.start)
    (last : inner.start + inner.bytes ≤ outer.start + outer.bytes) : inner.Within outer := by
  intro address inside
  rw [mem_iff] at *
  omega

/-- The bounds decide whether two ranges are apart. -/
theorem apart_iff {first second : Region} :
    first.Apart second ↔ first.bytes = 0 ∨ second.bytes = 0 ∨ first.start + first.bytes ≤ second.start ∨
      second.start + second.bytes ≤ first.start := by
  constructor
  · intro apart
    by_contra overlap
    apply apart (max first.start second.start) <;> rw [mem_iff] <;> omega
  · intro bounds address inside shared
    rw [mem_iff] at *
    omega

instance (first second : Region) : Decidable (first.Apart second) := decidable_of_iff _ apart_iff.symm

/-- A range that is apart from another has no start in common with it. -/
theorem Apart.start_ne {first second : Region} (apart : first.Apart second) (some : 0 < first.bytes)
    (other : 0 < second.bytes) : first.start ≠ second.start := by
  rw [apart_iff] at apart
  omega

end Region

/-- A relation that holds inside each class and across any two holds throughout. -/
theorem pairwise_of_classes {α : Type u} {κ : Type v} [DecidableEq κ] {related : α → α → Prop} (kind : α → κ)
    {items : List α} (inside : ∀ k, (items.filter fun item => kind item = k).Pairwise related)
    (across : ∀ first ∈ items, ∀ second ∈ items, kind first ≠ kind second → related first second) :
    items.Pairwise related := by
  rw [List.pairwise_iff_forall_sublist]
  intro first second pair
  by_cases same : kind first = kind second
  · apply List.pairwise_iff_forall_sublist.mp (inside (kind second))
    have both := pair.filter fun item => decide (kind item = kind second)
    simpa [same] using both
  · exact across first (pair.subset (by simp)) second (pair.subset (by simp)) same

end Webserver.Library
