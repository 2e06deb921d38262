import Mathlib.Data.Finset.Basic
import Mathlib.Data.List.Count
import Mathlib.Data.Finset.Dedup

/-!
# Ledgers

What was opened and what was closed, oldest first.  Whoever hands the names out answers for
what is opened (`Fresh`), whoever holds them for what is closed (`Honest`).  When both keep to
it, a name is closed as often as it was opened as soon as it is not held any more.
-/

namespace Ledger

variable {α : Type*}

inductive Entry (α : Type*) where
  | opened (a : α)
  | closed (a : α)
deriving DecidableEq

variable [DecidableEq α]

def note (held : Finset α) : Entry α → Finset α
  | .opened a => insert a held
  | .closed a => held.erase a

/-- What is open after the entries. -/
def held (before : Finset α) (entries : List (Entry α)) : Finset α := entries.foldl note before

/-- Nothing is handed out that is open. -/
def Fresh (before : Finset α) : List (Entry α) → Prop
  | [] => True
  | .opened a :: entries => a ∉ before ∧ Fresh (insert a before) entries
  | .closed a :: entries => Fresh (before.erase a) entries

/-- Nothing is closed that is not open. -/
def Honest (before : Finset α) : List (Entry α) → Prop
  | [] => True
  | .opened a :: entries => Honest (insert a before) entries
  | .closed a :: entries => a ∈ before ∧ Honest (before.erase a) entries

instance decidableFresh : ∀ (before : Finset α) (entries : List (Entry α)),
    Decidable (Fresh before entries)
  | _, [] => inferInstanceAs (Decidable True)
  | before, .opened a :: entries =>
    have := decidableFresh (insert a before) entries
    inferInstanceAs (Decidable (_ ∧ _))
  | before, .closed a :: entries => decidableFresh (before.erase a) entries

variable {before : Finset α} {entries entries' : List (Entry α)} {a : α}

@[simp] theorem held_nil (before : Finset α) : held before [] = before := rfl

@[simp] theorem held_cons (before : Finset α) (entry : Entry α) (entries : List (Entry α)) :
    held before (entry :: entries) = held (note before entry) entries := rfl

theorem held_append (before : Finset α) (entries entries' : List (Entry α)) :
    held before (entries ++ entries') = held (held before entries) entries' := List.foldl_append

theorem fresh_append :
    Fresh before (entries ++ entries') ↔ Fresh before entries ∧ Fresh (held before entries) entries' := by
  induction entries generalizing before with
  | nil => simp [Fresh]
  | cons entry entries ih =>
    cases entry with
    | opened a => simp [Fresh, note, ih, and_assoc]
    | closed a => simp [Fresh, note, ih]

theorem honest_append :
    Honest before (entries ++ entries') ↔
      Honest before entries ∧ Honest (held before entries) entries' := by
  induction entries generalizing before with
  | nil => simp [Honest]
  | cons entry entries ih =>
    cases entry with
    | opened a => simp [Honest, note, ih]
    | closed a => simp [Honest, note, ih, and_assoc]

/-- Opening something and closing it right after. -/
theorem honest_passed : Honest before [.opened a, .closed a] := ⟨Finset.mem_insert_self a before, trivial⟩

theorem held_passed (ha : a ∉ before) : held before [.opened a, .closed a] = before :=
  Finset.erase_insert ha

/-! ## Closing everything -/

variable {names : List α}

theorem held_closed (before : Finset α) (names : List α) :
    held before (names.map .closed) = before \ names.toFinset := by
  induction names generalizing before with
  | nil => simp
  | cons a names ih =>
    rw [List.map_cons, held_cons, ih, List.toFinset_cons]
    show before.erase a \ _ = _
    rw [Finset.sdiff_insert, Finset.erase_sdiff_comm]

theorem honest_closed : Honest before (names.map .closed) ↔ names.Nodup ∧ names.toFinset ⊆ before := by
  induction names generalizing before with
  | nil => simp [Honest]
  | cons a names ih =>
    rw [List.map_cons, List.nodup_cons, List.toFinset_cons, Finset.insert_subset_iff]
    show a ∈ before ∧ Honest (before.erase a) _ ↔ _
    rw [ih, Finset.subset_erase, List.mem_toFinset]
    tauto

/-- **When only closing is left and everything gets closed, everything is closed once.** -/
theorem perm_of_closed {held₀ : List α} (hnodup : held₀.Nodup)
    (h : Honest held₀.toFinset (names.map .closed))
    (hend : held held₀.toFinset (names.map .closed) = ∅) : names.Perm held₀ := by
  obtain ⟨hnames, hsub⟩ := honest_closed.1 h
  rw [held_closed, Finset.sdiff_eq_empty_iff_subset] at hend
  exact List.perm_of_nodup_nodup_toFinset_eq hnames hnodup (hsub.antisymm hend)

/-! ## Counting -/

/-- One if `a` is open. -/
def isHeld (before : Finset α) (a : α) : Nat := if a ∈ before then 1 else 0

/-- **The balance.** -/
theorem count_opened (hfresh : Fresh before entries) (hhonest : Honest before entries) (a : α) :
    isHeld before a + entries.count (.opened a) =
      entries.count (.closed a) + isHeld (held before entries) a := by
  induction entries generalizing before with
  | nil => simp
  | cons entry entries ih =>
    cases entry with
    | opened b =>
      obtain ⟨hb, hfresh⟩ := hfresh
      have := ih hfresh hhonest
      rw [held_cons, note]
      by_cases hab : b = a
      · subst hab
        simp [isHeld, hb] at this ⊢
        omega
      · simp [isHeld, hab, Ne.symm hab] at this ⊢
        omega
    | closed b =>
      obtain ⟨hb, hhonest⟩ := hhonest
      have := ih hfresh hhonest
      rw [held_cons, note]
      by_cases hab : b = a
      · subst hab
        simp [isHeld, hb] at this ⊢
        omega
      · simp [isHeld, hab, Ne.symm hab] at this ⊢
        omega

theorem count_closed (hfresh : Fresh ∅ entries) (hhonest : Honest ∅ entries)
    (hend : held ∅ entries = ∅) (a : α) : entries.count (.closed a) = entries.count (.opened a) := by
  have := count_opened hfresh hhonest a
  rw [hend] at this
  omega

end Ledger
