import Mathlib.Data.List.Basic

/-! Logs of what has happened, oldest first, in which an entry depends on those before it. -/

namespace Webserver.Library

universe u
variable {ε : Type u}

/-- Each entry is allowed by the entries before it. -/
def Justified (allowed : List ε → ε → Prop) (log : List ε) : Prop :=
  ∀ before entry after, log = before ++ entry :: after → allowed before entry

theorem justified_nil (allowed : List ε → ε → Prop) : Justified allowed [] := by
  intro before entry after whole
  simp at whole

theorem justified_snoc {allowed : List ε → ε → Prop} {log : List ε} {last : ε} :
    Justified allowed (log ++ [last]) ↔ Justified allowed log ∧ allowed log last := by
  constructor
  · intro justified
    refine ⟨fun before entry after whole => ?_, justified log last [] rfl⟩
    exact justified before entry (after ++ [last]) (by simp [whole])
  · intro ⟨justified, allowed⟩ before entry after whole
    rcases List.eq_nil_or_concat after with rfl | ⟨rest, other, rfl⟩
    · obtain ⟨rfl, same⟩ := List.append_inj' whole rfl
      rwa [← List.singleton_inj.mp same]
    · rw [List.concat_eq_append, ← List.cons_append, ← List.append_assoc] at whole
      exact justified before entry rest (List.append_inj' whole rfl).1

end Webserver.Library
