import Mathlib.Data.List.Basic

/-! Pieces that are put into boxes in their order, none of them over two boxes. What is
packed in boxes, which are packed in larger ones themselves, is packed in the larger ones. -/

namespace Webserver.Library

universe u
variable {α : Type u}

/-- Each box is the pieces that are in it, joined. -/
def Packed (pieces boxes : List (List α)) : Prop :=
  ∃ parts : List (List (List α)), parts.flatten = pieces ∧ boxes = parts.map List.flatten

namespace Packed
variable {pieces boxes : List (List α)} {last : List α}

theorem empty : Packed ([] : List (List α)) [[]] := ⟨[[]], rfl, rfl⟩

/-- A piece goes into the last box. -/
theorem extend (packed : Packed pieces (boxes ++ [last])) (piece : List α) :
    Packed (pieces ++ [piece]) (boxes ++ [last ++ piece]) := by
  obtain ⟨parts, all, same⟩ := packed
  obtain ⟨early, late, rfl, earlier, rest⟩ := List.map_eq_append_iff.mp same.symm
  obtain ⟨part, rfl, final⟩ := List.map_eq_singleton_iff.mp rest
  refine ⟨early ++ [part ++ [piece]], ?_, ?_⟩
  · rw [← all]
    simp
  · simp [earlier, final]

/-- A piece goes into a box of its own. -/
theorem add (packed : Packed pieces boxes) (piece : List α) : Packed (pieces ++ [piece]) (boxes ++ [piece]) := by
  obtain ⟨parts, all, same⟩ := packed
  exact ⟨parts ++ [[piece]], by simp [all], by simp [same]⟩

theorem addEmpty (packed : Packed pieces boxes) : Packed pieces (boxes ++ [[]]) := by
  obtain ⟨parts, all, same⟩ := packed
  exact ⟨parts ++ [[]], by simp [all], by simp [same]⟩

/-- The pieces of the first boxes are the first pieces. -/
theorem split {first rest : List (List α)} (packed : Packed pieces (first ++ rest)) :
    ∃ early late, pieces = early ++ late ∧ Packed early first ∧ Packed late rest := by
  obtain ⟨parts, all, same⟩ := packed
  obtain ⟨early, late, rfl, earlier, later⟩ := List.map_eq_append_iff.mp same.symm
  exact ⟨early.flatten, late.flatten, by rw [← all, List.flatten_append], ⟨early, rfl, earlier.symm⟩,
    ⟨late, rfl, later.symm⟩⟩

theorem joined (packed : Packed pieces boxes) : boxes.flatten = pieces.flatten := by
  obtain ⟨parts, rfl, rfl⟩ := packed
  rw [List.flatten_flatten]

theorem trans {crates : List (List α)} (first : Packed pieces boxes) (second : Packed boxes crates) :
    Packed pieces crates := by
  obtain ⟨parts, rfl, rfl⟩ := second
  induction parts generalizing pieces with
  | nil =>
    obtain ⟨early, rfl, none⟩ := first
    rw [List.map_eq_nil_iff.mp none.symm]
    exact ⟨[], rfl, rfl⟩
  | cons part parts ih =>
    rw [List.flatten_cons] at first
    obtain ⟨early, late, rfl, here, there⟩ := first.split
    obtain ⟨others, rest, same⟩ := ih there
    refine ⟨early :: others, ?_, ?_⟩
    · rw [List.flatten_cons, rest]
    · rw [List.map_cons, List.map_cons, ← same, here.joined]

end Packed
end Webserver.Library
