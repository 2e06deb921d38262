import Mathlib.Data.Finset.Image

/-!
# Strings and IRC case folding (`srcs/Utils.cpp`)

A `std::string` is a list of characters, one `Char` a byte.  `ircCaseFold` is the
RFC 1459 folding every lookup of a nickname or a channel goes through.
-/

namespace FtIrc

abbrev Text := List Char

/-- A descriptor.  `-1`, which `accept` and `excludeFd` use for "none", is `none`
of an `Option Fd`. -/
abbrev Fd := Nat

/-- One turn of the loop of `ircCaseFold`. -/
def foldChar (c : Char) : Char :=
  if 'A' ≤ c ∧ c ≤ 'Z' then Char.ofNat (c.toNat - 'A'.toNat + 'a'.toNat)
  else if c = '[' then '{'
  else if c = ']' then '}'
  else if c = '\\' then '|'
  else if c = '~' then '^'
  else c

def ircCaseFold (value : Text) : Text := value.map foldChar

def ircEquals (left right : Text) : Bool := ircCaseFold left == ircCaseFold right

/-! ## Lemmas -/

@[simp] theorem ircCaseFold_nil : ircCaseFold [] = [] := rfl

@[simp] theorem ircCaseFold_eq_nil {value : Text} : ircCaseFold value = [] ↔ value = [] := by
  simp [ircCaseFold]

theorem foldChar_toNat_of_upper {c : Char} (h : 'A' ≤ c ∧ c ≤ 'Z') :
    (foldChar c).toNat = c.toNat + 32 := by
  have h1 : 65 ≤ c.toNat := h.1
  have h2 : c.toNat ≤ 90 := h.2
  have hv : (c.toNat - 'A'.toNat + 'a'.toNat).isValidChar := by
    left
    show c.toNat - 65 + 97 < 0xd800
    omega
  unfold foldChar
  rw [if_pos h, Char.ofNat, dif_pos hv]
  show c.toNat - 65 + 97 = c.toNat + 32
  omega

/-- Folding neither makes nor loses a character below the letters, such as `#`, `&` or
a space. -/
theorem foldChar_eq_iff {c d : Char} (hd : d.toNat < 65) : foldChar c = d ↔ c = d := by
  by_cases hu : 'A' ≤ c ∧ c ≤ 'Z'
  · have h1 : 65 ≤ c.toNat := hu.1
    constructor
    · rintro rfl
      rw [foldChar_toNat_of_upper hu] at hd
      omega
    · rintro rfl
      omega
  · unfold foldChar
    rw [if_neg hu]
    split
    · next h => subst h; constructor <;> (rintro rfl; exact absurd hd (by decide))
    split
    · next h => subst h; constructor <;> (rintro rfl; exact absurd hd (by decide))
    split
    · next h => subst h; constructor <;> (rintro rfl; exact absurd hd (by decide))
    split
    · next h => subst h; constructor <;> (rintro rfl; exact absurd hd (by decide))
    exact Iff.rfl

end FtIrc
