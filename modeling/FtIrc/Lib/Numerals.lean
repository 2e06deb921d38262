import Mathlib.Data.List.Induction
import Mathlib.Data.List.TakeWhile
import Mathlib.Data.Nat.Digits.Defs

/-!
# Runs and numerals

The run of symbols of one kind that a list begins with, and the value of a numeral written
with its most significant digit first.
-/

namespace Numerals

variable {α : Type*} {p : α → Bool} {xs run rest : List α}

/-! ## Runs -/

/-- `xs` begins with `run`, which has `p` throughout, and goes on with `rest`, which does not
begin with `p`. -/
structure Span (p : α → Bool) (xs run rest : List α) : Prop where
  eq : xs = run ++ rest
  all : ∀ x ∈ run, p x = true
  stop : ∀ x ∈ rest.head?, p x = false

theorem span_takeWhile (p : α → Bool) (xs : List α) : Span p xs (xs.takeWhile p) (xs.dropWhile p) where
  eq := List.takeWhile_append_dropWhile.symm
  all _ hx := List.mem_takeWhile_imp hx
  stop x hx := by
    have hhead := List.head?_dropWhile_not p xs
    rw [Option.mem_def.1 hx] at hhead
    exact hhead

theorem Span.dropWhile (h : Span p xs run rest) : xs.dropWhile p = rest := by
  rw [h.eq, List.dropWhile_append_of_pos h.all]
  cases rest with
  | nil => rfl
  | cons y rest => rw [List.dropWhile_cons, if_neg (by simp [h.stop y rfl])]

theorem Span.takeWhile (h : Span p xs run rest) : xs.takeWhile p = run := by
  have hparts := (span_takeWhile p xs).eq
  rw [h.dropWhile] at hparts
  exact List.append_cancel_right (hparts.symm.trans h.eq)

/-! ## Numerals -/

variable (b : Nat) (digit : α → Nat)

/-- What a numeral in base `b` stands for. -/
def value (xs : List α) : Nat := Nat.ofDigits b (xs.reverse.map digit)

/-- The value is read from the left, digit by digit. -/
theorem foldl_eq_value (xs : List α) :
    xs.foldl (fun v x => v * b + digit x) 0 = value b digit xs := by
  induction xs using List.reverseRecOn with
  | nil => rfl
  | append_singleton xs x ih =>
    unfold value at ih ⊢
    rw [List.foldl_append, ih, List.reverse_append, List.reverse_singleton, List.singleton_append,
      List.map_cons, Nat.ofDigits_cons, Nat.mul_comm, Nat.add_comm]
    rfl

end Numerals
