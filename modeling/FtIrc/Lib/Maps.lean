import Mathlib.Data.Finset.Image

/-!
# Sets gathered from a map

The elements of a set that a fold over an ordered map builds up.
-/

namespace OrderedMap

open Std

variable {α β γ : Type} [Ord α] [TransOrd α] [LawfulEqOrd α] [Ord γ] [TransOrd γ]

/-- A fold whose every turn adds the elements `P k v` of its entry gathers the elements of
all entries. -/
theorem mem_foldl {P : α → β → γ → Prop} {add : ExtTreeSet γ → α → β → ExtTreeSet γ}
    (hadd : ∀ acc k v x, x ∈ add acc k v ↔ x ∈ acc ∨ P k v x) (t : ExtTreeMap α β)
    (init : ExtTreeSet γ) (x : γ) :
    x ∈ t.foldl add init ↔ x ∈ init ∨ ∃ k v, t[k]? = some v ∧ P k v x := by
  have hlist : ∀ (l : List (α × β)) acc, x ∈ l.foldl (fun acc p => add acc p.1 p.2) acc ↔
      x ∈ acc ∨ ∃ p ∈ l, P p.1 p.2 x := by
    intro l
    induction l with
    | nil => simp
    | cons p l ih =>
      intro acc
      rw [List.foldl_cons, ih, hadd]
      simp [or_assoc]
  rw [ExtTreeMap.foldl_eq_foldl_toList, hlist]
  constructor
  · rintro (h | ⟨p, hp, h⟩)
    · exact Or.inl h
    · exact Or.inr ⟨p.1, p.2, ExtTreeMap.mem_toList_iff_getElem?_eq_some.1 hp, h⟩
  · rintro (h | ⟨k, v, hk, h⟩)
    · exact Or.inl h
    · exact Or.inr ⟨(k, v), ExtTreeMap.mem_toList_iff_getElem?_eq_some.2 hk, h⟩

end OrderedMap
