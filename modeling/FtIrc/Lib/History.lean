import Mathlib.Data.Finset.Image
import Mathlib.Data.List.DropRight

/-!
# Histories

Questions about a history, oldest entry first: whether something has happened and nothing of
another kind has since, whether an entry was ever made in the wrong place, and what there is
behind the last entry of a kind.  All are answered entry by entry.
-/

namespace History

variable {α : Type*} {log before after : List α} {x y : α}

theorem eq_snoc_iff :
    log ++ [y] = before ++ x :: after ↔
      (after = [] ∧ log = before ∧ y = x) ∨
        ∃ rest, after = rest ++ [y] ∧ log = before ++ x :: rest := by
  constructor
  · intro h
    rcases List.eq_nil_or_concat after with rfl | ⟨rest, z, rfl⟩
    · obtain ⟨h1, h2⟩ := List.append_inj' h rfl
      exact Or.inl ⟨rfl, h1, List.head_eq_of_cons_eq h2⟩
    · rw [List.concat_eq_append, ← List.cons_append, ← List.append_assoc] at h
      obtain ⟨h1, h2⟩ := List.append_inj' h rfl
      cases List.head_eq_of_cons_eq h2
      exact Or.inr ⟨rest, List.concat_eq_append, h1⟩
  · rintro (⟨rfl, rfl, rfl⟩ | ⟨rest, rfl, rfl⟩)
    · rfl
    · simp

/-- An entry with `p` was made, and none with `q` since. -/
def Since (p q : α → Prop) (log : List α) : Prop :=
  ∃ before x after, log = before ++ x :: after ∧ p x ∧ ∀ y ∈ after, ¬ q y

/-- Some entry was made, behind a history that stands in `P` to it. -/
def Ever (P : List α → α → Prop) (log : List α) : Prop :=
  ∃ before x after, log = before ++ x :: after ∧ P before x

variable {p q : α → Prop} {P : List α → α → Prop}

theorem not_ever_nil : ¬ Ever P [] := by
  rintro ⟨before, x, after, h, -⟩
  simp at h

theorem since_snoc : Since p q (log ++ [y]) ↔ p y ∨ Since p q log ∧ ¬ q y := by
  constructor
  · rintro ⟨before, x, after, h, hp, hq⟩
    rcases eq_snoc_iff.1 h with ⟨-, -, rfl⟩ | ⟨rest, rfl, hlog⟩
    · exact Or.inl hp
    · exact Or.inr ⟨⟨before, x, rest, hlog, hp, fun z hz => hq z (List.mem_append_left _ hz)⟩,
        hq y (List.mem_append_right _ List.mem_cons_self)⟩
  · rintro (hp | ⟨⟨before, x, rest, rfl, hp, hq⟩, hy⟩)
    · exact ⟨log, y, [], rfl, hp, nofun⟩
    · refine ⟨before, x, rest ++ [y], by simp, hp, ?_⟩
      intro z hz
      rcases List.mem_append.1 hz with hz | hz
      · exact hq z hz
      · cases List.mem_singleton.1 hz
        exact hy

theorem ever_snoc : Ever P (log ++ [y]) ↔ Ever P log ∨ P log y := by
  constructor
  · rintro ⟨before, x, after, h, hP⟩
    rcases eq_snoc_iff.1 h with ⟨-, rfl, rfl⟩ | ⟨rest, -, hlog⟩
    · exact Or.inr hP
    · exact Or.inl ⟨before, x, rest, hlog, hP⟩
  · rintro (⟨before, x, rest, rfl, hP⟩ | hP)
    · exact ⟨before, x, rest ++ [y], by simp, hP⟩
    · exact ⟨log, y, [], rfl, hP⟩

/-- Entries that are in no wrong place. -/
theorem ever_append {more : List α} (h : ∀ y ∈ more, ∀ before, ¬ P before y) :
    Ever P (log ++ more) ↔ Ever P log := by
  induction more generalizing log with
  | nil => rw [List.append_nil]
  | cons y more ih =>
    rw [List.append_cons, ih fun z hz => h z (List.mem_cons_of_mem _ hz), ever_snoc]
    exact or_iff_left (h y List.mem_cons_self log)

/-! ## Behind the last entry of a kind -/

section Recent

variable [DecidablePred q]

/-- What there is behind the last entry with `q`. -/
def recent (q : α → Prop) [DecidablePred q] (log : List α) : List α := log.rtakeWhile fun x => ¬ q x

theorem recent_snoc_of_pos (h : q y) : recent q (log ++ [y]) = [] :=
  List.rtakeWhile_concat_neg _ _ _ (by simpa using h)

theorem recent_append {more : List α} (h : ∀ y ∈ more, ¬ q y) :
    recent q (log ++ more) = recent q log ++ more := by
  induction more generalizing log with
  | nil => simp
  | cons y more ih =>
    have hy : recent q (log ++ [y]) = recent q log ++ [y] :=
      List.rtakeWhile_concat_pos _ _ _ (by simpa using h y List.mem_cons_self)
    rw [List.append_cons, ih fun z hz => h z (List.mem_cons_of_mem _ hz), hy, ← List.append_cons]

end Recent

end History
