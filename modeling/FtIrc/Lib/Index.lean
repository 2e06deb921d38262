import Mathlib.Data.Finset.Image

/-!
# Exact indexes

An index from labels to owners, beside the labelling of the owners it duplicates.  It is
exact when it finds precisely the owner that carries the label, which makes labels unique.
Relabelling and unlabelling an owner keep it exact.
-/

namespace Index

variable {ι α : Type*}

def Exact (index : ι → Option α) (label : α → Option ι) : Prop :=
  ∀ k a, index k = some a ↔ label a = some k

variable {index index' : ι → Option α} {label label' : α → Option ι}

/-- No two owners carry one label. -/
theorem Exact.injective (h : Exact index label) {a b : α} {k : ι} (ha : label a = some k)
    (hb : label b = some k) : a = b := by
  have hk := (h k a).2 ha
  rw [(h k b).2 hb] at hk
  exact (Option.some.inj hk).symm

variable [DecidableEq α] [DecidableEq ι]

/-- `a` gives up its label, if it has one. -/
theorem Exact.unlabel (h : Exact index label) (a : α)
    (hindex : ∀ k, index' k = if label a = some k then none else index k)
    (hlabel : ∀ b, label' b = if a = b then none else label b) : Exact index' label' := by
  intro k b
  rw [hindex, hlabel]
  by_cases hab : a = b
  · subst hab
    by_cases hk : label a = some k
    · simp [hk]
    · simp [hk, h k a]
  · rw [if_neg hab]
    split
    · next hk =>
      constructor
      · intro hn
        cases hn
      · intro hb
        exact absurd (h.injective hk hb) hab
    · exact h k b

/-- `a` takes the label `k`, which nobody else carries, in place of its own. -/
theorem Exact.relabel (h : Exact index label) (a : α) {k : ι}
    (hfree : ∀ b, index k = some b → b = a)
    (hindex : ∀ j, index' j =
      if k = j then some a else if label a = some j then none else index j)
    (hlabel : ∀ b, label' b = if a = b then some k else label b) : Exact index' label' := by
  intro j b
  rw [hindex, hlabel]
  by_cases hab : a = b
  · subst hab
    rw [if_pos rfl]
    by_cases hj : k = j
    · subst hj
      simp
    · rw [if_neg hj]
      split
      · simp [hj]
      · next hold => simp [hj, h j a, hold]
  · rw [if_neg hab]
    by_cases hj : k = j
    · subst hj
      rw [if_pos rfl]
      constructor
      · intro hb
        exact absurd (Option.some.inj hb) hab
      · intro hb
        exact absurd (hfree b ((h k b).2 hb)).symm hab
    · rw [if_neg hj]
      split
      · next hold =>
        constructor
        · intro hn
          cases hn
        · intro hb
          exact absurd (h.injective hold hb) hab
      · exact h j b

end Index
