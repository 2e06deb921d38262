import Mathlib.Data.Finset.Image

/-!
# Texts that differ in patches

Two texts are patched when they are put together from the same pieces, but for some pieces
in whose place the second has another one.  What the pieces have in common letter by letter,
the texts have in common.
-/

namespace Patchwork

variable {α : Type*}

/-- The second text is the first with pieces replaced, each by one that `N` allows. -/
inductive Patched (N : List α → List α → Prop) : List α → List α → Prop where
  | nil : Patched N [] []
  | same (x : α) {xs ys : List α} : Patched N xs ys → Patched N (x :: xs) (x :: ys)
  | patch {p q xs ys : List α} : N p q → Patched N xs ys → Patched N (p ++ xs) (q ++ ys)

namespace Patched

variable {N : List α → List α → Prop} {xs ys xs' ys' p q : List α}

theorem refl (N : List α → List α → Prop) (xs : List α) : Patched N xs xs := by
  induction xs with
  | nil => exact .nil
  | cons x xs ih => exact .same x ih

theorem append (h : Patched N xs ys) (h' : Patched N xs' ys') : Patched N (xs ++ xs') (ys ++ ys') := by
  induction h with
  | nil => exact h'
  | same x _ ih => exact .same x ih
  | patch hpq _ ih =>
    rw [List.append_assoc, List.append_assoc]
    exact .patch hpq ih

theorem of (h : N p q) : Patched N p q := by
  have hpatch : Patched N (p ++ []) (q ++ []) := .patch h .nil
  rwa [List.append_nil, List.append_nil] at hpatch

/-- What is the same text in both may stand in front. -/
theorem prepend (h : Patched N xs ys) (text : List α) : Patched N (text ++ xs) (text ++ ys) :=
  (refl N text).append h

theorem extend (h : Patched N xs ys) (text : List α) : Patched N (xs ++ text) (ys ++ text) :=
  h.append (refl N text)

/-- A letterwise reading that does not see the patches does not see the difference. -/
theorem map_eq {β : Type*} {f : α → β} (hN : ∀ p q, N p q → q.map f = p.map f) (h : Patched N xs ys) :
    ys.map f = xs.map f := by
  induction h with
  | nil => rfl
  | same x _ ih => rw [List.map_cons, List.map_cons, ih]
  | patch hpq _ ih => rw [List.map_append, List.map_append, ih, hN _ _ hpq]

theorem length_eq (hN : ∀ p q, N p q → q.length = p.length) (h : Patched N xs ys) :
    ys.length = xs.length := by
  induction h with
  | nil => rfl
  | same x _ ih => rw [List.length_cons, List.length_cons, ih]
  | patch hpq _ ih => rw [List.length_append, List.length_append, ih, hN _ _ hpq]

end Patched

end Patchwork
