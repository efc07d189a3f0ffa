import Mathlib.Data.List.Basic

/-! Segments of a flat memory, and the two primitives that change one: copying
a source over it and resizing it. -/

namespace Webserver.Library

universe u
variable {α : Type u}

/-- The cells from position `first` up to, not including, position `last`. -/
def segment (cells : List α) (first last : Nat) : List α := (cells.take last).drop first

/-- Copy `source` over the cells from position `start` on. -/
def overwrite (cells : List α) (start : Nat) (source : List α) : List α :=
  cells.take start ++ source ++ cells.drop (start + source.length)

def resize (cells : List α) (size : Nat) (fill : α) : List α :=
  cells.take size ++ List.replicate (size - cells.length) fill

@[simp]
theorem segment_length (cells : List α) (first last : Nat) :
    (segment cells first last).length = min last cells.length - first := by
  simp [segment]

@[simp]
theorem segment_empty (cells : List α) (position : Nat) : segment cells position position = [] := by
  apply List.drop_of_length_le
  rw [List.length_take]
  exact Nat.min_le_left _ _

theorem segment_drop (cells : List α) (first last count : Nat) :
    (segment cells first last).drop count = segment cells (first + count) last := by
  simp [segment]

theorem segment_take (cells : List α) (first last count : Nat) (inside : first + count ≤ last) :
    (segment cells first last).take count = segment cells first (first + count) := by
  simp only [segment, List.take_drop, List.take_take, Nat.min_eq_left inside]

/-- Two segments that meet are one. -/
theorem segment_append (cells : List α) {first middle last : Nat} (before : first ≤ middle) (after : middle ≤ last) :
    segment cells first middle ++ segment cells middle last = segment cells first last := by
  have front := segment_take cells first last (middle - first) (by omega)
  have back := segment_drop cells first last (middle - first)
  rw [Nat.add_sub_of_le before] at front back
  rw [← front, ← back, List.take_append_drop]

theorem overwrite_length (cells : List α) (start : Nat) (source : List α)
    (inside : start + source.length ≤ cells.length) : (overwrite cells start source).length = cells.length := by
  simp only [overwrite, List.length_append, List.length_take, List.length_drop]
  omega

@[simp]
theorem resize_length (cells : List α) (size : Nat) (fill : α) : (resize cells size fill).length = size := by
  simp only [resize, List.length_append, List.length_take, List.length_replicate]
  omega

/-- Copying to the end of a segment extends the segment by the source. -/
theorem segment_overwrite (cells : List α) (first start : Nat) (source : List α)
    (ordered : first ≤ start) (inside : start ≤ cells.length) :
    segment (overwrite cells start source) first (start + source.length) = segment cells first start ++ source := by
  have kept : (cells.take start).length = start := List.length_take_of_le inside
  have front : (overwrite cells start source).take (start + source.length) = cells.take start ++ source := by
    simp only [overwrite]
    exact List.take_left' (by simp [kept])
  rw [segment, front, segment, List.drop_append_of_le_length (by omega)]

theorem segment_resize (cells : List α) (first last size : Nat) (fill : α)
    (inside : last ≤ cells.length) (grows : cells.length ≤ size) :
    segment (resize cells size fill) first last = segment cells first last := by
  rw [segment, resize, List.take_of_length_le grows, List.take_append_of_le_length inside, segment]

end Webserver.Library
