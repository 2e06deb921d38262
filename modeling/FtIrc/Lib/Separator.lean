import Mathlib.Data.Finset.Image

/-!
# Two parts and a separator

When `left ++ sep :: right` can be read in two ways: one left part is the other one with
the separator and something behind it.
-/

namespace Separator

variable {α : Type*} {sep : α}

/-- `left` goes on where `left'` stops, and `right'` begins with what it has more. -/
def Overruns (sep : α) (left right left' right' : List α) : Prop :=
  ∃ x, left = left' ++ sep :: x ∧ right' = x ++ sep :: right

theorem Overruns.eq {left right left' right' : List α} (h : Overruns sep left right left' right') :
    left ++ sep :: right = left' ++ sep :: right' := by
  obtain ⟨x, rfl, rfl⟩ := h
  simp

theorem append_eq_iff {left right left' right' : List α} :
    left ++ sep :: right = left' ++ sep :: right' ↔
      left = left' ∧ right = right' ∨ Overruns sep left right left' right' ∨
        Overruns sep left' right' left right := by
  constructor
  · intro h
    rcases List.append_eq_append_iff.1 h with ⟨x, hl, hr⟩ | ⟨x, hl, hr⟩
    · cases x with
      | nil => exact Or.inl ⟨by simpa using hl.symm, by simpa using hr⟩
      | cons d x =>
        simp only [List.cons_append, List.cons.injEq] at hr
        obtain ⟨rfl, hr⟩ := hr
        exact Or.inr (Or.inr ⟨x, hl, hr⟩)
    · cases x with
      | nil => exact Or.inl ⟨by simpa using hl, by simpa using hr.symm⟩
      | cons d x =>
        simp only [List.cons_append, List.cons.injEq] at hr
        obtain ⟨rfl, hr⟩ := hr
        exact Or.inr (Or.inl ⟨x, hl, hr⟩)
  · rintro (⟨rfl, rfl⟩ | h | h)
    · rfl
    · exact h.eq
    · exact h.eq.symm

end Separator
