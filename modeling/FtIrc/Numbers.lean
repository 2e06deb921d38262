import FtIrc.Lib.Numerals
import FtIrc.Main

/-!
# Numbers read from a text

What `operator>>` reads into an unsigned number, and what becomes of it in the two parsers
built on it: the port of the command line and the argument of `+l`.
-/

namespace FtIrc

open Server (isSpace isDigit digitsValue parsePositiveUserLimit)
open Numerals (Span span_takeWhile)

/-- The number that digits stand for. -/
def decimal (digits : Text) : Nat := Numerals.value 10 (fun c => c.toNat - '0'.toNat) digits

theorem digitsValue_eq (digits : Text) : digitsValue digits = decimal digits :=
  Numerals.foldl_eq_value 10 _ digits

def Spaces (text : Text) : Prop := ∀ c ∈ text, isSpace c = true

structure Digits (text : Text) : Prop where
  ne_nil : text ≠ []
  all : ∀ c ∈ text, isDigit c = true

/-! ## Characters -/

theorem isDigit_eq_false_of_isSpace {c : Char} (h : isSpace c = true) : isDigit c = false := by
  simp only [isSpace, Bool.or_eq_true, beq_iff_eq] at h
  rcases h with ((((rfl | rfl) | rfl) | rfl) | rfl) | rfl <;> decide

theorem isSpace_eq_false_of_isDigit {c : Char} (h : isDigit c = true) : isSpace c = false := by
  by_contra hspace
  rw [isDigit_eq_false_of_isSpace (by simpa using hspace)] at h
  cases h

theorem Spaces.stop {text : Text} (h : Spaces text) : ∀ c ∈ text.head?, isDigit c = false :=
  fun c hc => isDigit_eq_false_of_isSpace (h c (List.mem_of_mem_head? hc))

theorem Digits.head {digits : Text} (h : Digits digits) :
    ∃ c rest, digits = c :: rest ∧ isDigit c = true := by
  cases digits with
  | nil => exact absurd rfl h.ne_nil
  | cons c rest => exact ⟨c, rest, rfl, h.all c List.mem_cons_self⟩

theorem dropWhile_isSpace_eq_nil {text : Text} : text.dropWhile isSpace = [] ↔ Spaces text :=
  List.dropWhile_eq_nil_iff

/-! ## The sign -/

inductive Signed : Text → Bool → Prop
  | none : Signed [] false
  | plus : Signed ['+'] false
  | minus : Signed ['-'] true

theorem signed_extractSign (text : Text) :
    ∃ sign, Signed sign (extractSign text).1 ∧ text = sign ++ (extractSign text).2 := by
  unfold extractSign
  split
  · exact ⟨_, .minus, rfl⟩
  · exact ⟨_, .plus, rfl⟩
  · exact ⟨_, .none, rfl⟩

/-- A sign before a digit is read as such. -/
theorem Signed.extractSign_append {sign digits rest : Text} {negative : Bool}
    (h : Signed sign negative) (hdigits : Digits digits) :
    extractSign (sign ++ (digits ++ rest)) = (negative, digits ++ rest) := by
  cases h with
  | none =>
    obtain ⟨c, digits, rfl, hc⟩ := hdigits.head
    unfold extractSign
    split
    · next heq =>
      cases heq
      cases hc
    · next heq =>
      cases heq
      cases hc
    · rfl
  | plus => rfl
  | minus => rfl

/-- Nothing skipped as a space belongs to a sign or a digit. -/
theorem Signed.stop {sign digits rest : Text} {negative : Bool} (h : Signed sign negative)
    (hdigits : Digits digits) : ∀ c ∈ (sign ++ (digits ++ rest)).head?, isSpace c = false := by
  intro c hc
  cases h with
  | none =>
    obtain ⟨d, digits, rfl, hd⟩ := hdigits.head
    cases hc
    exact isSpace_eq_false_of_isDigit hd
  | plus => cases hc; rfl
  | minus => cases hc; rfl

/-! ## `operator>>` -/

/-- `text` begins with spaces, a sign and all the digits that follow it. -/
structure Numeral (text : Text) (negative : Bool) (digits rest : Text) : Prop where
  parts : ∃ spaces sign, text = spaces ++ (sign ++ (digits ++ rest)) ∧ Spaces spaces ∧ Signed sign negative
  digits : Digits digits
  stop : ∀ c ∈ rest.head?, isDigit c = false

/-- What is stored for a numeral: below zero the complement. -/
def stored (negative : Bool) (n : Nat) : UInt64 := if negative then -UInt64.ofNat n else UInt64.ofNat n

theorem toNat_stored {negative : Bool} {n : Nat} (h : n < UInt64.size) :
    (stored negative n).toNat = if negative then (UInt64.size - n) % UInt64.size else n := by
  unfold stored
  split
  · rw [UInt64.toNat_neg, UInt64.toNat_ofNat_of_lt' h]
  · exact UInt64.toNat_ofNat_of_lt' h

theorem extractUnsigned_eq_some_iff {text rest : Text} {value : UInt64} :
    extractUnsigned text = some (value, rest) ↔
      ∃ negative digits, Numeral text negative digits rest ∧ decimal digits < UInt64.size ∧
        value = stored negative (decimal digits) := by
  constructor
  · intro h
    have hspaces := span_takeWhile isSpace text
    obtain ⟨sign, hsign, htail⟩ := signed_extractSign (text.dropWhile isSpace)
    have hspan := span_takeWhile isDigit (extractSign (text.dropWhile isSpace)).2
    unfold extractUnsigned at h
    dsimp only at h
    split at h
    · cases h
    · next hne =>
      split at h
      · cases h
      · next hlt =>
        cases h
        rw [digitsValue_eq] at hlt
        refine ⟨_, _, ⟨⟨_, sign, ?_, hspaces.all, hsign⟩, ⟨by simpa using hne, hspan.all⟩, hspan.stop⟩,
          not_le.1 hlt, ?_⟩
        · rw [← hspan.eq, ← htail]
          exact hspaces.eq
        · rw [digitsValue_eq]
          rfl
  · rintro ⟨negative, digits, ⟨⟨spaces, sign, rfl, hspaces, hsign⟩, hdigits, hstop⟩, hlt, rfl⟩
    have hskip : (spaces ++ (sign ++ (digits ++ rest))).dropWhile isSpace = sign ++ (digits ++ rest) :=
      Span.dropWhile ⟨rfl, hspaces, hsign.stop hdigits⟩
    have hspan : Span isDigit (digits ++ rest) digits rest := ⟨rfl, hdigits.all, hstop⟩
    unfold extractUnsigned
    rw [hskip, hsign.extractSign_append hdigits]
    dsimp only
    rw [hspan.takeWhile, hspan.dropWhile, if_neg (by simpa using hdigits.ne_nil), digitsValue_eq,
      if_neg (not_le.2 hlt)]
    rfl

theorem extractChar_isSome_eq_false {stream : Text} : (extractChar stream).isSome = false ↔ Spaces stream := by
  rw [← dropWhile_isSpace_eq_nil]
  unfold extractChar
  split
  · next h => simp [h]
  · next h => simp [h]

/-! ## The port -/

/-- `text` is the decimal numeral of the port `v`: spaces and a plus sign may precede it, and
spaces follow it. -/
def PortText (text : Text) (v : Nat) : Prop :=
  ∃ spaces sign digits trailing, text = spaces ++ (sign ++ (digits ++ trailing)) ∧ Spaces spaces ∧
    (sign = [] ∨ sign = ['+']) ∧ Digits digits ∧ Spaces trailing ∧ decimal digits = v ∧ 1 ≤ v ∧ v ≤ 65535

/-- A minus sign and a number so large that its complement is the port `v`. -/
def WrapsTo (text : Text) (v : Nat) : Prop :=
  ∃ spaces digits trailing, text = spaces ++ ('-' :: (digits ++ trailing)) ∧ Spaces spaces ∧
    Digits digits ∧ Spaces trailing ∧ decimal digits + v = UInt64.size ∧ 1 ≤ v ∧ v ≤ 65535

/-- The test of the value, on natural numbers. -/
theorem not_port_iff {value : UInt64} :
    ¬ (value = 0 ∨ value > 65535) ↔ 1 ≤ value.toNat ∧ value.toNat ≤ 65535 := by
  have hzero : value = 0 ↔ value.toNat = 0 := UInt64.toNat_inj.symm
  have hbound : value > 65535 ↔ 65535 < value.toNat := UInt64.lt_iff_toNat_lt
  rw [hzero, hbound]
  omega

theorem checkPort_numeral {text : Text} {v : Nat} :
    (checkPort text).map UInt16.toNat = some v ↔
      ∃ negative digits rest, Numeral text negative digits rest ∧ Spaces rest ∧
        decimal digits < UInt64.size ∧ (stored negative (decimal digits)).toNat = v ∧ 1 ≤ v ∧ v ≤ 65535 := by
  have hport {value : UInt64} (h : value.toNat ≤ 65535) : value.toUInt16.toNat = value.toNat := by
    rw [UInt64.toNat_toUInt16]
    exact Nat.mod_eq_of_lt (Nat.lt_succ_of_le h)
  constructor
  · intro h
    unfold checkPort at h
    split at h
    · cases h
    next value rest hread =>
    split at h
    · cases h
    next hextra =>
    split at h
    · cases h
    next hvalue =>
    obtain rfl : value.toUInt16.toNat = v := Option.some.inj h
    obtain ⟨negative, digits, hnumeral, hlt, rfl⟩ := extractUnsigned_eq_some_iff.1 hread
    obtain ⟨hpos, hle⟩ := not_port_iff.1 hvalue
    exact ⟨negative, digits, rest, hnumeral, extractChar_isSome_eq_false.1 (by simpa using hextra), hlt,
      (hport hle).symm, by rw [hport hle]; exact hpos, by rw [hport hle]; exact hle⟩
  · rintro ⟨negative, digits, rest, hnumeral, hrest, hlt, rfl, hpos, hle⟩
    have hread : extractUnsigned text = some (stored negative (decimal digits), rest) :=
      extractUnsigned_eq_some_iff.2 ⟨negative, digits, hnumeral, hlt, rfl⟩
    unfold checkPort
    rw [hread]
    dsimp only
    rw [if_neg (by simp [extractChar_isSome_eq_false.2 hrest]), if_neg (not_port_iff.2 ⟨hpos, hle⟩)]
    exact congrArg some (hport hle)

/-- What `checkPort` accepts: the ports, and what wraps to one. -/
theorem checkPort_eq_some {text : Text} {v : Nat} :
    (checkPort text).map UInt16.toNat = some v ↔ PortText text v ∨ WrapsTo text v := by
  rw [checkPort_numeral]
  constructor
  · rintro ⟨negative, digits, rest, ⟨⟨spaces, sign, rfl, hspaces, hsign⟩, hdigits, -⟩, hrest, hlt, hv, hpos, hle⟩
    rw [toNat_stored hlt] at hv
    cases hsign with
    | none => exact Or.inl ⟨spaces, [], digits, rest, rfl, hspaces, Or.inl rfl, hdigits, hrest, hv, hpos, hle⟩
    | plus => exact Or.inl ⟨spaces, ['+'], digits, rest, rfl, hspaces, Or.inr rfl, hdigits, hrest, hv, hpos, hle⟩
    | minus =>
      rw [if_pos rfl] at hv
      have hsum : decimal digits + v = UInt64.size := by
        rcases Nat.eq_zero_or_pos (decimal digits) with hzero | hn
        · rw [hzero, Nat.sub_zero, Nat.mod_self] at hv
          omega
        · rw [Nat.mod_eq_of_lt (by omega)] at hv
          omega
      exact Or.inr ⟨spaces, digits, rest, rfl, hspaces, hdigits, hrest, hsum, hpos, hle⟩
  · rintro (⟨spaces, sign, digits, trailing, rfl, hspaces, hsign, hdigits, htrailing, rfl, hpos, hle⟩ |
      ⟨spaces, digits, trailing, rfl, hspaces, hdigits, htrailing, hsum, hpos, hle⟩)
    · have hsigned : Signed sign false := by
        rcases hsign with rfl | rfl
        · exact .none
        · exact .plus
      have hlt : decimal digits < UInt64.size := lt_of_le_of_lt hle (by decide)
      refine ⟨false, digits, trailing, ⟨⟨spaces, sign, rfl, hspaces, hsigned⟩, hdigits, htrailing.stop⟩,
        htrailing, hlt, ?_, hpos, hle⟩
      rw [toNat_stored hlt]
      rfl
    · have hsize : 65535 < UInt64.size := by decide
      have hlt : decimal digits < UInt64.size := by omega
      refine ⟨true, digits, trailing, ⟨⟨spaces, ['-'], rfl, hspaces, .minus⟩, hdigits, htrailing.stop⟩,
        htrailing, hlt, ?_, hpos, hle⟩
      rw [toNat_stored hlt, if_pos rfl, Nat.mod_eq_of_lt (by omega)]
      omega

/-- `checkPort` accepts the ports, each as the number it is, and no text with a minus sign. -/
structure PortExact (text : Text) : Prop where
  accepts : ∀ v, (checkPort text).map UInt16.toNat = some v ↔ PortText text v
  minus : '-' ∈ text → checkPort text = none

/-- A minus sign and a number of 2^64 - 65535 or more that still passes the range check. -/
def Wraps (text : Text) : Prop :=
  ∃ spaces digits trailing, text = spaces ++ ('-' :: (digits ++ trailing)) ∧ Spaces spaces ∧
    Digits digits ∧ Spaces trailing ∧ 2 ^ 64 - 65535 ≤ decimal digits ∧ decimal digits < 2 ^ 64

theorem wraps_iff {text : Text} : Wraps text ↔ ∃ v, WrapsTo text v := by
  have hsize : UInt64.size = 2 ^ 64 := rfl
  constructor
  · rintro ⟨spaces, digits, trailing, htext, hspaces, hdigits, htrailing, hle, hlt⟩
    exact ⟨2 ^ 64 - decimal digits, spaces, digits, trailing, htext, hspaces, hdigits, htrailing, by omega,
      by omega, by omega⟩
  · rintro ⟨v, spaces, digits, trailing, htext, hspaces, hdigits, htrailing, hsum, hpos, hle⟩
    exact ⟨spaces, digits, trailing, htext, hspaces, hdigits, htrailing, by omega, by omega⟩

theorem WrapsTo.minus {text : Text} {v : Nat} (h : WrapsTo text v) : '-' ∈ text := by
  obtain ⟨spaces, digits, trailing, rfl, -⟩ := h
  simp

theorem PortText.no_minus {text : Text} {v : Nat} (h : PortText text v) : '-' ∉ text := by
  obtain ⟨spaces, sign, digits, trailing, rfl, hspaces, hsign, hdigits, htrailing, -⟩ := h
  simp only [List.mem_append, not_or]
  refine ⟨fun hmem => ?_, fun hmem => ?_, fun hmem => ?_, fun hmem => ?_⟩
  · cases hspaces _ hmem
  · rcases hsign with rfl | rfl
    · cases hmem
    · cases List.mem_singleton.1 hmem
  · cases hdigits.all _ hmem
  · cases htrailing _ hmem

/-- **A text is misread as a port exactly when its number wraps to one.** -/
theorem portExact_iff (text : Text) : PortExact text ↔ ¬ Wraps text := by
  rw [wraps_iff]
  constructor
  · rintro h ⟨v, hv⟩
    have hread := checkPort_eq_some.2 (Or.inr hv)
    rw [h.minus hv.minus] at hread
    cases hread
  · intro h
    have haccepts (v : Nat) : (checkPort text).map UInt16.toNat = some v ↔ PortText text v :=
      checkPort_eq_some.trans (or_iff_left fun hv => h ⟨v, hv⟩)
    refine ⟨haccepts, fun hminus => ?_⟩
    cases hport : checkPort text with
    | none => rfl
    | some port => exact absurd hminus ((haccepts port.toNat).1 (by rw [hport]; rfl)).no_minus

/-- The complement of 2^64 - 1 is 1. -/
theorem not_portExact_minus : ¬ PortExact "-18446744073709551615".toList := by
  intro h
  have hnone := h.minus (by decide)
  have hone : checkPort "-18446744073709551615".toList = some 1 := by decide
  rw [hone] at hnone
  cases hnone

/-- What the server is started with. -/
theorem main_eq_some {argv : List Text} {port : UInt16} {password : Text}
    (h : main argv = some (port, password)) :
    ∃ program text, argv = [program, text, password] ∧ password ≠ [] ∧ 1 ≤ port.toNat ∧
      (PortText text port.toNat ∨ WrapsTo text port.toNat) := by
  unfold main at h
  split at h
  · next program text password' =>
    split at h
    · cases h
    · next port' hport =>
      split at h
      · cases h
      · next hpassword =>
        cases h
        have hread := checkPort_eq_some.1 (show (checkPort text).map UInt16.toNat = some port.toNat by
          rw [hport]; rfl)
        refine ⟨program, text, rfl, by simpa using hpassword, ?_, hread⟩
        rcases hread with ⟨_, _, _, _, _, _, _, _, _, _, hpos, _⟩ | ⟨_, _, _, _, _, _, _, _, hpos, _⟩
        · exact hpos
        · exact hpos
  · cases h

/-! ## The user limit -/

/-- `text` is digits of the value `v`, and spaces after them. -/
def LimitText (text : Text) (v : Nat) : Prop :=
  ∃ digits spaces, text = digits ++ spaces ∧ Digits digits ∧ Spaces spaces ∧ decimal digits = v ∧ 1 ≤ v ∧
    v ≤ 2 ^ 64 - 1

/-- The test of the first character. -/
theorem isDigit_eq_true_iff {c : Char} : isDigit c = true ↔ ¬ (c < '0' ∨ c > '9') := by
  simp [isDigit, not_or]

/-- **A user limit is read exactly.** -/
theorem parsePositiveUserLimit_eq_some {text : Text} {v : Nat} :
    parsePositiveUserLimit text = some v ↔ LimitText text v := by
  have hsize : UInt64.size = 2 ^ 64 := rfl
  constructor
  · intro h
    have hspan := span_takeWhile isDigit text
    unfold parsePositiveUserLimit at h
    split at h
    · cases h
    next first rest =>
    split at h
    · cases h
    next hfirst =>
    dsimp only at h
    rw [digitsValue_eq] at h
    split at h
    · cases h
    next hlt =>
    split at h
    · cases h
    next hspaces =>
    split at h
    · cases h
    next hzero =>
    cases h
    have hne : (first :: rest).takeWhile isDigit ≠ [] := by
      rw [List.takeWhile_cons, if_pos (isDigit_eq_true_iff.2 hfirst)]
      exact List.cons_ne_nil _ _
    exact ⟨_, _, hspan.eq, ⟨hne, hspan.all⟩, dropWhile_isSpace_eq_nil.1 (by simpa using hspaces), rfl, by omega,
      by omega⟩
  · rintro ⟨digits, spaces, rfl, hdigits, hspaces, rfl, hpos, hle⟩
    have hspan : Span isDigit (digits ++ spaces) digits spaces := ⟨rfl, hdigits.all, hspaces.stop⟩
    have htake := hspan.takeWhile
    have hdrop := hspan.dropWhile
    obtain ⟨c, digits, rfl, hc⟩ := hdigits.head
    unfold parsePositiveUserLimit
    rw [List.cons_append] at htake hdrop ⊢
    dsimp only
    rw [if_neg (isDigit_eq_true_iff.1 hc), htake, hdrop, digitsValue_eq, if_neg (by omega),
      if_neg (by simpa using dropWhile_isSpace_eq_nil.2 hspaces), if_neg (by omega)]

theorem LimitText.portText {text : Text} {v : Nat} (h : LimitText text v) (hle : v ≤ 65535) :
    PortText text v := by
  obtain ⟨digits, spaces, rfl, hdigits, hspaces, hv, hpos, -⟩ := h
  exact ⟨[], [], digits, spaces, rfl, List.forall_mem_nil _, Or.inl rfl, hdigits, hspaces, hv, hpos, hle⟩

/-- Behind the test that `checkPort` lacks the two parsers differ only in their bound. -/
theorem checkPort_of_digit {c : Char} {rest : Text} (hc : isDigit c = true) {v : Nat} :
    (checkPort (c :: rest)).map UInt16.toNat = some v ↔
      parsePositiveUserLimit (c :: rest) = some v ∧ v ≤ 65535 := by
  -- the text begins with no space and no sign
  have hfirst {spaces sign more : Text} {negative : Bool} (hspaces : Spaces spaces)
      (hsign : Signed sign negative) (htext : c :: rest = spaces ++ (sign ++ more)) :
      spaces = [] ∧ sign = [] := by
    cases spaces with
    | cons d spaces =>
      cases htext
      rw [isDigit_eq_false_of_isSpace (hspaces c List.mem_cons_self)] at hc
      cases hc
    | nil =>
      cases hsign with
      | none => exact ⟨rfl, rfl⟩
      | plus => cases htext; cases hc
      | minus => cases htext; cases hc
  rw [parsePositiveUserLimit_eq_some]
  constructor
  · intro h
    obtain ⟨negative, digits, trailing, ⟨⟨spaces, sign, htext, hspaces, hsign⟩, hdigits, -⟩, htrailing, hlt, hv,
      hpos, hle⟩ := checkPort_numeral.1 h
    obtain ⟨rfl, rfl⟩ := hfirst hspaces hsign htext
    cases hsign
    rw [toNat_stored hlt] at hv
    refine ⟨⟨digits, trailing, htext, hdigits, htrailing, hv, hpos, ?_⟩, hle⟩
    omega
  · rintro ⟨h, hle⟩
    exact checkPort_eq_some.2 (Or.inl (h.portText hle))

end FtIrc
