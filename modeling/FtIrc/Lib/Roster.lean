import Mathlib.Data.Finset.Image

/-!
# Rosters

A membership with a flag for each member, seen through the members' names: a finite set of
names with flags.  Each update of the membership has an update of the roster beside it that
knows the names only, and the two stay in step as long as members have distinct names.
-/

namespace Roster

variable {ι ν φ : Type*}

/-! ## The membership behind a roster -/

/-- `roster` is the names and flags of the members, which have a flag in `flags`. -/
def Represents (roster : Finset (ν × φ)) (flags : ι → Option φ) (name : ι → ν) : Prop :=
  ∀ n f, (n, f) ∈ roster ↔ ∃ x, flags x = some f ∧ name x = n

variable {roster : Finset (ν × φ)} {flags flags' : ι → Option φ} {name name' : ι → ν} {a : ι}

theorem Represents.congr (h : Represents roster flags name)
    (hname : ∀ x f, flags x = some f → name' x = name x) : Represents roster flags name' := by
  intro n f
  rw [h n f]
  constructor
  · rintro ⟨x, hx, rfl⟩
    exact ⟨x, hx, hname x f hx⟩
  · rintro ⟨x, hx, rfl⟩
    exact ⟨x, hx, (hname x f hx).symm⟩

/-- The membership has one roster. -/
theorem Represents.eq {roster' : Finset (ν × φ)} (h : Represents roster flags name)
    (h' : Represents roster' flags name) : roster = roster' := by
  apply Finset.ext
  rintro ⟨n, f⟩
  rw [h n f, h' n f]

/-- No other member has the name of `a`. -/
def Sole (flags : ι → Option φ) (name : ι → ν) (a : ι) : Prop :=
  ∀ x f, flags x = some f → name x = name a → x = a

/-! ## Updates that know names only -/

variable [DecidableEq ν]

def leave (n : ν) (roster : Finset (ν × φ)) : Finset (ν × φ) := roster.filter (·.1 ≠ n)

theorem mem_leave {n k : ν} {f : φ} {roster : Finset (ν × φ)} :
    (k, f) ∈ leave n roster ↔ (k, f) ∈ roster ∧ k ≠ n := Finset.mem_filter

theorem Represents.leave [DecidableEq ι] (h : Represents roster flags name) (hsole : Sole flags name a)
    (hflags : ∀ x, flags' x = if a = x then none else flags x) :
    Represents (leave (name a) roster) flags' name := by
  intro n f
  rw [mem_leave, h n f]
  constructor
  · rintro ⟨⟨x, hx, rfl⟩, hne⟩
    refine ⟨x, ?_, rfl⟩
    rw [hflags, if_neg]
    · exact hx
    · rintro rfl
      exact hne rfl
  · rintro ⟨x, hx, rfl⟩
    rw [hflags] at hx
    split at hx
    · cases hx
    · next hax => exact ⟨⟨x, hx, rfl⟩, fun heq => hax (hsole x f hx heq).symm⟩

variable [DecidableEq φ]

def rename (old new : ν) (roster : Finset (ν × φ)) : Finset (ν × φ) :=
  roster.image fun p => if p.1 = old then (new, p.2) else p

def setFlag (n : ν) (flag : φ) (roster : Finset (ν × φ)) : Finset (ν × φ) :=
  roster.image fun p => if p.1 = n then (n, flag) else p

theorem mem_rename {old new k : ν} {f : φ} {roster : Finset (ν × φ)} :
    (k, f) ∈ rename old new roster ↔
      (old, f) ∈ roster ∧ new = k ∨ (k, f) ∈ roster ∧ k ≠ old := by
  unfold rename
  rw [Finset.mem_image]
  constructor
  · rintro ⟨⟨a, b⟩, hp, heq⟩
    by_cases ha : a = old
    · subst ha
      simp only [if_true, Prod.mk.injEq] at heq
      obtain ⟨rfl, rfl⟩ := heq
      exact Or.inl ⟨hp, rfl⟩
    · simp only [if_neg ha, Prod.mk.injEq] at heq
      obtain ⟨rfl, rfl⟩ := heq
      exact Or.inr ⟨hp, ha⟩
  · rintro (⟨hp, rfl⟩ | ⟨hp, hne⟩)
    · exact ⟨(old, f), hp, by simp⟩
    · exact ⟨(k, f), hp, by simp [hne]⟩

theorem mem_setFlag {n k : ν} {flag f : φ} {roster : Finset (ν × φ)} :
    (k, f) ∈ setFlag n flag roster ↔
      ((∃ g, (n, g) ∈ roster) ∧ n = k ∧ flag = f) ∨ (k, f) ∈ roster ∧ k ≠ n := by
  unfold setFlag
  rw [Finset.mem_image]
  constructor
  · rintro ⟨⟨a, b⟩, hp, heq⟩
    by_cases ha : a = n
    · subst ha
      simp only [if_true, Prod.mk.injEq] at heq
      exact Or.inl ⟨⟨b, hp⟩, heq⟩
    · simp only [if_neg ha, Prod.mk.injEq] at heq
      obtain ⟨rfl, rfl⟩ := heq
      exact Or.inr ⟨hp, ha⟩
  · rintro (⟨⟨g, hp⟩, rfl, rfl⟩ | ⟨hp, hne⟩)
    · exact ⟨(n, g), hp, by simp⟩
    · exact ⟨(k, f), hp, by simp [hne]⟩

/-! ## Keeping in step with the membership -/

variable [DecidableEq ι]

theorem Represents.join (h : Represents roster flags name) {flag : φ} (hnew : flags a = none)
    (hflags : ∀ x, flags' x = if a = x then some flag else flags x) :
    Represents (insert (name a, flag) roster) flags' name := by
  intro n f
  rw [Finset.mem_insert, h n f]
  constructor
  · rintro (heq | ⟨x, hx, rfl⟩)
    · simp only [Prod.mk.injEq] at heq
      obtain ⟨rfl, rfl⟩ := heq
      exact ⟨a, by rw [hflags, if_pos rfl], rfl⟩
    · refine ⟨x, ?_, rfl⟩
      rw [hflags, if_neg]
      · exact hx
      · rintro rfl
        rw [hnew] at hx
        cases hx
  · rintro ⟨x, hx, rfl⟩
    rw [hflags] at hx
    split at hx
    · next hax => subst hax; cases hx; exact Or.inl rfl
    · exact Or.inr ⟨x, hx, rfl⟩

theorem Represents.rename (h : Represents roster flags name) (hsole : Sole flags name a) {new : ν}
    (hname : ∀ x, name' x = if a = x then new else name x) :
    Represents (rename (name a) new roster) flags name' := by
  intro n f
  rw [mem_rename, h n f, h (name a) f]
  constructor
  · rintro (⟨⟨x, hx, heq⟩, rfl⟩ | ⟨⟨x, hx, rfl⟩, hne⟩)
    · have := hsole x f hx heq
      subst this
      exact ⟨x, hx, by rw [hname, if_pos rfl]⟩
    · refine ⟨x, hx, ?_⟩
      rw [hname, if_neg]
      rintro rfl
      exact hne rfl
  · rintro ⟨x, hx, rfl⟩
    rw [hname]
    split
    · next hax => subst hax; exact Or.inl ⟨⟨a, hx, rfl⟩, rfl⟩
    · next hax => exact Or.inr ⟨⟨x, hx, rfl⟩, fun heq => hax (hsole x f hx heq).symm⟩

theorem Represents.setFlag (h : Represents roster flags name) (hsole : Sole flags name a)
    {flag : φ} (hmem : flags a ≠ none)
    (hflags : ∀ x, flags' x = if a = x then some flag else flags x) :
    Represents (setFlag (name a) flag roster) flags' name := by
  obtain ⟨g, hg⟩ := Option.ne_none_iff_exists'.1 hmem
  intro n f
  rw [mem_setFlag, h n f]
  constructor
  · rintro (⟨-, rfl, rfl⟩ | ⟨⟨x, hx, rfl⟩, hne⟩)
    · exact ⟨a, by rw [hflags, if_pos rfl], rfl⟩
    · refine ⟨x, ?_, rfl⟩
      rw [hflags, if_neg]
      · exact hx
      · rintro rfl
        exact hne rfl
  · rintro ⟨x, hx, rfl⟩
    rw [hflags] at hx
    split at hx
    · next hax =>
      subst hax
      cases hx
      exact Or.inl ⟨⟨g, (h _ _).2 ⟨a, hg, rfl⟩⟩, rfl, rfl⟩
    · next hax => exact Or.inr ⟨⟨x, hx, rfl⟩, fun heq => hax (hsole x f hx heq).symm⟩

end Roster
