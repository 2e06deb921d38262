import Mathlib.Data.List.TakeWhile
import FtIrc.Parsing

/-!
# What the parsers accept

The grammar of command lines (`Parameters`) and of mode strings (`signed`), stated without the
loops of `Command.parse` and `parseChannelModeChanges`.  Each parser accepts just what is in its
grammar, and reads from it what the grammar says.
-/

namespace FtIrc

/-! ## Command lines -/

/-- The parameters that stand behind the name of a command: words without a space, each as long
as it can be, up to the first that begins with a `:`.  That one is all the rest, spaces and all. -/
inductive Parameters : Text → List Text → Prop
  | nil {rest : Text} : (∀ c ∈ rest, c = ' ') → Parameters rest []
  | trailing (spaces text : Text) : (∀ c ∈ spaces, c = ' ') →
      Parameters (spaces ++ ':' :: text) [text]
  | word (spaces word rest : Text) (ps : List Text) : (∀ c ∈ spaces, c = ' ') → Middle word →
      (rest.head? = none ∨ rest.head? = some ' ') → Parameters rest ps →
      Parameters (spaces ++ (word ++ rest)) (word :: ps)

/-- The line behind its leading spaces. -/
def unspaced (line : Text) : Text := line.dropWhile (· == ' ')

def firstWord (line : Text) : Text := (unspaced line).takeWhile (· != ' ')

def behindFirstWord (line : Text) : Text := (unspaced line).dropWhile (· != ' ')

theorem dropWhile_blank {rest : Text} (h : ∀ c ∈ rest, c = ' ') : rest.dropWhile (· == ' ') = [] := by
  rw [List.dropWhile_eq_nil_iff]
  intro c hc
  rw [h c hc]
  rfl

theorem dropWhile_spaces_append {spaces : Text} (h : ∀ c ∈ spaces, c = ' ') {c : Char} (hc : c ≠ ' ')
    (cs : Text) : (spaces ++ c :: cs).dropWhile (· == ' ') = c :: cs := by
  rw [List.dropWhile_append_of_pos fun x hx => by rw [h x hx]; rfl]
  exact Command.dropWhile_spaces hc cs

/-- The spaces a text begins with. -/
theorem takeWhile_spaces (rest : Text) : ∀ c ∈ rest.takeWhile (· == ' '), c = ' ' := by
  intro c hc
  have hspace := List.mem_takeWhile_imp hc
  simpa using hspace

theorem head_dropWhile_word (rest : Text) :
    (rest.dropWhile (· != ' ')).head? = none ∨ (rest.dropWhile (· != ' ')).head? = some ' ' := by
  cases hrest : rest.dropWhile (· != ' ') with
  | nil => exact Or.inl rfl
  | cons c cs =>
    have hne : rest.dropWhile (· != ' ') ≠ [] := by rw [hrest]; exact List.cons_ne_nil c cs
    have hhead := List.head_dropWhile_not (· != ' ') hne
    simp only [hrest, List.head_cons, bne_eq_false_iff_eq] at hhead
    rw [hhead]
    exact Or.inr rfl

theorem Middle.cons {word : Text} (h : Middle word) : ∃ c cs, word = c :: cs ∧ c ≠ ' ' ∧ c ≠ ':' := by
  obtain ⟨hne, hcolon, hspace⟩ := h
  cases word with
  | nil => exact absurd rfl hne
  | cons c cs =>
    exact ⟨c, cs, rfl, fun he => hspace (he ▸ List.mem_cons_self), fun he => hcolon (he ▸ rfl)⟩

namespace Parameters

variable {rest : Text} {ps qs : List Text}

/-- The loop of `parse` reads the parameters, as many as it has room for. -/
theorem parse (h : Parameters rest ps) (room : Nat) :
    Command.parseParameters room rest = (decide (ps.length ≤ room), ps.take room) := by
  induction h generalizing room with
  | nil hblank => rw [Command.parseParameters_blank (dropWhile_blank hblank)]; simp
  | trailing spaces text hspaces =>
    have hrest := dropWhile_spaces_append hspaces (show ':' ≠ ' ' by decide) text
    cases room with
    | zero => rw [Command.parseParameters_full hrest]; rfl
    | succ room => rw [Command.parseParameters_cons hrest, if_pos rfl]; simp
  | word spaces word rest ps hspaces hword hhead _ ih =>
    obtain ⟨htake, hdrop⟩ := Command.takeWhile_middle hword.2.2 hhead
    obtain ⟨c, cs, rfl, hc, hcolon⟩ := hword.cons
    rw [List.cons_append] at htake hdrop
    have hrest := dropWhile_spaces_append hspaces hc (cs ++ rest)
    cases room with
    | zero => rw [List.cons_append, Command.parseParameters_full hrest]; rfl
    | succ room =>
      rw [List.cons_append, Command.parseParameters_cons hrest, if_neg hcolon, htake, hdrop, ih]
      simp

theorem unique (h : Parameters rest ps) (h' : Parameters rest qs) : ps = qs := by
  have heq := (h.parse (ps.length + qs.length)).symm.trans (h'.parse (ps.length + qs.length))
  rw [List.take_of_length_le (Nat.le_add_right _ _), List.take_of_length_le (Nat.le_add_left _ _)] at heq
  exact (Prod.mk.inj heq).2

/-- Every text holds parameters. -/
theorem exists_parameters (rest : Text) : ∃ ps, Parameters rest ps := by
  induction hn : rest.length using Nat.strong_induction_on generalizing rest with
  | _ n ih =>
    have hspaces := takeWhile_spaces rest
    have hsplit := List.takeWhile_append_dropWhile (p := (· == ' ')) (l := rest)
    cases hrest : rest.dropWhile (· == ' ') with
    | nil =>
      rw [hrest, List.append_nil] at hsplit
      rw [hsplit] at hspaces
      exact ⟨[], .nil hspaces⟩
    | cons c cs =>
      rw [hrest] at hsplit
      by_cases hcolon : c = ':'
      · subst hcolon
        exact ⟨[cs], hsplit ▸ .trailing _ cs hspaces⟩
      · have hword : Middle ((c :: cs).takeWhile (· != ' ')) :=
          Command.middle_takeWhile (Command.head_dropWhile_spaces hrest) hcolon
        have hcut := List.takeWhile_append_dropWhile (p := (· != ' ')) (l := c :: cs)
        -- a word is not empty, so less is left
        have hless : ((c :: cs).dropWhile (· != ' ')).length < n := by
          have hpos := List.length_pos_iff.2 hword.1
          have h1 := congrArg List.length hcut
          have h2 := congrArg List.length hsplit
          rw [List.length_append] at h1 h2
          omega
        obtain ⟨ps, hps⟩ := ih _ hless _ rfl
        have hmore := Parameters.word _ _ _ ps hspaces hword (head_dropWhile_word _) hps
        rw [hcut, hsplit] at hmore
        exact ⟨_, hmore⟩

theorem middle (h : Parameters rest ps) : ∀ p ∈ ps.dropLast, Middle p := by
  have hall : ∀ p ∈ (Command.parseParameters ps.length rest).2.dropLast, Middle p :=
    Command.middle_of_mem_dropLast
  rwa [h.parse, List.take_length] at hall

end Parameters

namespace Command

theorem uppercaseAscii_eq (character : Char) : uppercaseAscii character = character.toUpper := by
  unfold uppercaseAscii Char.toUpper
  by_cases h : 'a' ≤ character ∧ character ≤ 'z'
  · have h1 : 97 ≤ character.toNat := h.1
    have h2 : character.toNat ≤ 122 := h.2
    have hv : (character.toNat - 'a'.toNat + 'A'.toNat).isValidChar := by
      left
      show character.toNat - 97 + 65 < 0xd800
      omega
    rw [if_pos h, dif_pos (show 'a'.val ≤ character.val ∧ character.val ≤ 'z'.val from h)]
    apply Char.ext
    apply UInt32.toNat_inj.1
    rw [Char.ofNat, dif_pos hv, UInt32.toNat_add]
    show character.toNat - 97 + 65 = (character.toNat + 4294967264) % 4294967296
    omega
  · rw [if_neg h, dif_neg (show ¬ ('a'.val ≤ character.val ∧ character.val ≤ 'z'.val) from h)]

theorem normalizeName_eq (name : Text) : normalizeName name = name.map Char.toUpper :=
  List.map_congr_left fun c _ => uppercaseAscii_eq c

/-- What `parse` makes of a line, from the parameters behind its first word. -/
theorem parse_of_parameters {line : Text} {ps : List Text} (h : Parameters (behindFirstWord line) ps) :
    parse line =
      if unspaced line = [] ∨ (unspaced line).head? = some ':' then ⟨false, [], []⟩
      else ⟨decide (ps.length ≤ maxCommandParameters), normalizeName (firstWord line),
        ps.take maxCommandParameters⟩ := by
  unfold behindFirstWord at h
  unfold parse firstWord
  rw [show line.dropWhile (· == ' ') = unspaced line from rfl]
  cases hline : unspaced line with
  | nil => rfl
  | cons c cs =>
    rw [hline] at h
    dsimp only
    by_cases hcolon : c = ':'
    · rw [if_pos hcolon, if_pos (Or.inr (by rw [hcolon]; rfl))]
    · have hword : Middle ((c :: cs).takeWhile (· != ' ')) :=
        middle_takeWhile (head_dropWhile_spaces hline) hcolon
      rw [if_neg hcolon, if_neg (by rw [List.isEmpty_iff]; exact hword.1), if_neg (by simpa using hcolon),
        h.parse]

/-- **The parser accepts exactly its grammar, and inverts rendering.** -/
theorem parse_grammar :
    (∀ line : Text, ∃ ps, (∀ qs, Parameters (behindFirstWord line) qs ↔ qs = ps) ∧
      ((parse line).valid = true ↔
        unspaced line ≠ [] ∧ (unspaced line).head? ≠ some ':' ∧ ps.length ≤ 15) ∧
      ((parse line).valid = true →
        (parse line).name = (firstWord line).map Char.toUpper ∧ (parse line).parameters = ps ∧
        ∀ p ∈ ps.dropLast, p ≠ [] ∧ ' ' ∉ p ∧ p.head? ≠ some ':')) ∧
    ∀ (name : Text) (ps : List Text), name ≠ [] → ' ' ∉ name → name.head? ≠ some ':' →
      ps.length ≤ 15 → (∀ p ∈ ps.dropLast, p ≠ [] ∧ ' ' ∉ p ∧ p.head? ≠ some ':') →
      parse (encode name ps.dropLast ps.getLast?) = ⟨true, name.map Char.toUpper, ps⟩ := by
  constructor
  · intro line
    obtain ⟨ps, hps⟩ := Parameters.exists_parameters (behindFirstWord line)
    have hparse := parse_of_parameters hps
    refine ⟨ps, fun qs => ⟨fun h => h.unique hps, fun h => h ▸ hps⟩, ?_, ?_⟩
    · rw [hparse]
      split
      · next hno =>
        refine iff_of_false Bool.false_ne_true fun h => ?_
        exact hno.elim h.1 h.2.1
      · next hyes =>
        rw [not_or] at hyes
        rw [decide_eq_true_eq]
        exact ⟨fun h => ⟨hyes.1, hyes.2, h⟩, fun h => h.2.2⟩
    · rw [hparse]
      split
      · intro h
        cases h
      · intro h
        refine ⟨normalizeName_eq _, List.take_of_length_le (of_decide_eq_true h), fun p hp => ?_⟩
        obtain ⟨h1, h2, h3⟩ := hps.middle p hp
        exact ⟨h1, h3, h2⟩
  · intro name ps hne hspace hcolon hlength hmiddle
    have hroom : ps.dropLast.length < maxCommandParameters := by
      rw [List.length_dropLast]
      unfold maxCommandParameters
      omega
    rw [parse_encode ⟨hne, hcolon, hspace⟩ (fun p hp => ⟨(hmiddle p hp).1, (hmiddle p hp).2.2, (hmiddle p hp).2.1⟩)
      _ hroom, normalizeName_eq]
    congr 1
    cases ps using List.reverseRecOn with
    | nil => rfl
    | append_singleton ps p => simp

/-- A name in small letters, a word, and a last parameter with spaces and a `:` in front. -/
theorem parse_grammar_privmsg :
    parse "privmsg bob :: hi".toList = ⟨true, "PRIVMSG".toList, ["bob".toList, ": hi".toList]⟩ :=
  parse_grammar.2 "privmsg".toList ["bob".toList, ": hi".toList] (by decide) (by decide) (by decide)
    (by decide) (by decide)

end Command

/-! ## Mode strings -/

def isSign (c : Char) : Bool := c == '+' || c == '-'

def nearestSign (before : Text) : Option Char := before.reverse.find? isSign

/-- The mode characters of a mode string, each with the nearest sign in front of it. -/
def signed (modes : Text) : List (Option Char × Char) :=
  ((modes.inits.zip modes).filter fun p => !isSign p.2).map fun p => (nearestSign p.1, p.2)

/-- `k` and `o` take an argument under either sign, `l` under `+`. -/
def takesArgument (p : Option Char × Char) : Bool :=
  p.2 == 'k' || p.2 == 'o' || p.2 == 'l' && p.1 == some '+'

/-- The sign of a change and its mode character. -/
def ModeChange.signed (change : ModeChange) : Option Char × Char :=
  (some (if change.adding then '+' else '-'), change.mode)

/-- `signed`, of what stands behind `before` in the mode string. -/
def signedBehind (before modes : Text) : List (Option Char × Char) :=
  ((modes.inits.zip modes).filter fun p => !isSign p.2).map fun p => (nearestSign (before ++ p.1), p.2)

theorem signedBehind_cons (before : Text) (c : Char) (modes : Text) :
    signedBehind before (c :: modes) =
      if isSign c then signedBehind (before ++ [c]) modes
      else (nearestSign before, c) :: signedBehind (before ++ [c]) modes := by
  have hlater : ((modes.inits.map (c :: ·)).zip modes).filter (fun p => !isSign p.2) =
      ((modes.inits.zip modes).filter fun p => !isSign p.2).map fun p => (c :: p.1, p.2) := by
    rw [← List.map_id modes, List.zip_map, List.filter_map]
    simp [Function.comp_def]
  unfold signedBehind
  rw [List.inits_cons, List.zip_cons_cons, List.filter_cons]
  cases hc : isSign c <;> simp [hlater, Function.comp_def]

theorem nearestSign_sign (before : Text) {c : Char} (hc : isSign c = true) :
    nearestSign (before ++ [c]) = some c := by
  unfold nearestSign
  rw [List.reverse_append, List.reverse_singleton, List.singleton_append, List.find?_cons_of_pos hc]

theorem nearestSign_mode (before : Text) {c : Char} (hc : isSign c = false) :
    nearestSign (before ++ [c]) = nearestSign before := by
  unfold nearestSign
  rw [List.reverse_append, List.reverse_singleton, List.singleton_append,
    List.find?_cons_of_neg (by simp [hc])]

/-- Once there is a sign, every mode character behind it has one. -/
theorem sign_isSome {before modes : Text} (h : (nearestSign before).isSome = true) :
    ∀ p ∈ signedBehind before modes, p.1.isSome = true := by
  induction modes generalizing before with
  | nil => exact fun p hp => absurd hp List.not_mem_nil
  | cons c modes ih =>
    rw [signedBehind_cons]
    cases hc : isSign c with
    | true =>
      rw [if_pos rfl]
      exact ih (by rw [nearestSign_sign before hc]; rfl)
    | false =>
      rw [if_neg Bool.false_ne_true]
      intro p hp
      rcases List.mem_cons.1 hp with rfl | hp
      · exact h
      · exact ih (by rw [nearestSign_mode before hc]; exact h) p hp

/-- The changes that mode characters with their signs stand for, with the arguments that are
left for them. -/
def assign : List (Option Char × Char) → List Text → List ModeChange
  | [], _ => []
  | p :: ps, arguments =>
    if takesArgument p then
      ⟨p.1 == some '+', p.2, true, arguments.headD []⟩ :: assign ps arguments.tail
    else ⟨p.1 == some '+', p.2, false, []⟩ :: assign ps arguments

/-- What the loop has of the sign in front. -/
def SignOf (sign : Option Char) (adding signSeen : Bool) : Prop :=
  sign = if signSeen then some (if adding then '+' else '-') else none

theorem takesArgument_eq {sign : Option Char} {adding : Bool} (h : SignOf sign adding true) (c : Char) :
    takesArgument (sign, c) = Server.modeNeedsArgument c adding ∧ (sign == some '+') = adding := by
  cases h
  unfold takesArgument Server.modeNeedsArgument
  cases adding <;> by_cases hk : c = 'k' <;> by_cases ho : c = 'o' <;> by_cases hl : c = 'l' <;>
    simp [hk, ho, hl]

namespace Server

/-- The indices `parseModeString` reads `parameters` at, as it goes. -/
def argumentsRead (parameters : List Text) : Text → Bool → Bool → Nat → List Nat
  | [], _, _, _ => []
  | character :: rest, adding, signSeen, argumentIndex =>
    if character = '+' then argumentsRead parameters rest true true argumentIndex
    else if character = '-' then argumentsRead parameters rest false true argumentIndex
    else if !signSeen then []
    else if modeNeedsArgument character adding then
      if argumentIndex ≥ parameters.length then []
      else argumentIndex :: argumentsRead parameters rest adding signSeen (argumentIndex + 1)
    else argumentsRead parameters rest adding signSeen argumentIndex

/-- The indices `parseChannelModeChanges` reads `parameters` at. -/
def parametersRead (parameters : List Text) : List Nat :=
  1 :: argumentsRead parameters (parameters[1]?.getD []) true false 2

/-- `parseModeString` reads nothing else: parameters that agree at these indices parse alike. -/
theorem parseModeString_congr {parameters parameters' : List Text} {modes : Text} {adding signSeen : Bool}
    {index : Nat} (hlength : parameters'.length = parameters.length)
    (hread : ∀ i ∈ argumentsRead parameters modes adding signSeen index, parameters'[i]? = parameters[i]?) :
    parseModeString parameters' modes adding signSeen index =
      parseModeString parameters modes adding signSeen index := by
  induction modes generalizing adding signSeen index with
  | nil => rfl
  | cons c modes ih =>
    rw [argumentsRead] at hread
    rw [parseModeString, parseModeString]
    split
    · next hplus => exact ih (by simpa only [if_pos hplus] using hread)
    next hplus =>
    split
    · next hminus => exact ih (by simpa only [if_neg hplus, if_pos hminus] using hread)
    next hminus =>
    split
    · rfl
    next hsign =>
    simp only [if_neg hplus, if_neg hminus, if_neg hsign] at hread
    split
    · next hneeds =>
      rw [if_pos hneeds] at hread
      by_cases hi : index ≥ parameters.length
      · rw [List.getElem?_eq_none hi, List.getElem?_eq_none (by omega)]
      · rw [if_neg hi] at hread
        rw [hread index List.mem_cons_self, ih fun i hmem => hread i (List.mem_cons_of_mem _ hmem)]
    · next hneeds => rw [ih (by simpa only [if_neg hneeds] using hread)]

/-- It reads each of them, in order: they are where the arguments come from. -/
theorem parseModeString_reads {parameters : List Text} {modes : Text} {adding signSeen : Bool} {index : Nat}
    {changes : List ModeChange} (h : parseModeString parameters modes adding signSeen index = some changes) :
    (argumentsRead parameters modes adding signSeen index).map (parameters[·]?) =
      (changes.filter (·.hasArgument)).map fun change => some change.argument := by
  induction modes generalizing adding signSeen index changes with
  | nil => cases h; rfl
  | cons c modes ih =>
    rw [parseModeString] at h
    rw [argumentsRead]
    split at h
    · next hplus => rw [if_pos hplus]; exact ih h
    next hplus =>
    rw [if_neg hplus]
    split at h
    · next hminus => rw [if_pos hminus]; exact ih h
    next hminus =>
    rw [if_neg hminus]
    split at h
    · cases h
    next hsign =>
    rw [if_neg hsign]
    split at h
    · next hneeds =>
      rw [if_pos hneeds]
      split at h
      · cases h
      · next argument harg =>
        obtain ⟨later, hlater, rfl⟩ := Option.map_eq_some_iff.1 h
        rw [if_neg (by have := (List.getElem?_eq_some_iff.1 harg).1; omega), List.map_cons, harg, ih hlater]
        rfl
    · next hneeds =>
      obtain ⟨later, hlater, rfl⟩ := Option.map_eq_some_iff.1 h
      rw [if_neg hneeds, ih hlater]
      rfl

theorem argumentsRead_lt {parameters : List Text} {modes : Text} {adding signSeen : Bool} {index : Nat} :
    ∀ i ∈ argumentsRead parameters modes adding signSeen index, i < parameters.length := by
  induction modes generalizing adding signSeen index with
  | nil => exact fun i hi => absurd hi List.not_mem_nil
  | cons c modes ih =>
    rw [argumentsRead]
    split
    · exact ih
    split
    · exact ih
    split
    · exact fun i hi => absurd hi List.not_mem_nil
    split
    · split
      · exact fun i hi => absurd hi List.not_mem_nil
      · next hlt =>
        intro i hi
        rcases List.mem_cons.1 hi with rfl | hi
        · exact Nat.not_le.1 hlt
        · exact ih i hi
    · exact ih

/-- What the loop needs of the mode characters that are left: each has a sign, and there are
arguments for those that take one. -/
def Fulfilled (parameters : List Text) (index : Nat) (ps : List (Option Char × Char)) : Prop :=
  (∀ p ∈ ps, p.1.isSome = true) ∧ index + ps.countP takesArgument ≤ parameters.length

instance (parameters : List Text) (index : Nat) (ps : List (Option Char × Char)) :
    Decidable (Fulfilled parameters index ps) := by
  unfold Fulfilled
  infer_instance

theorem fulfilled_cons {parameters : List Text} {index : Nat} {p : Option Char × Char}
    {ps : List (Option Char × Char)} :
    Fulfilled parameters index (p :: ps) ↔
      p.1.isSome = true ∧ Fulfilled parameters (if takesArgument p then index + 1 else index) ps := by
  unfold Fulfilled
  rw [List.countP_cons, List.forall_mem_cons, and_assoc]
  cases takesArgument p with
  | false => exact Iff.rfl
  | true =>
    rw [if_pos rfl, if_pos rfl, Nat.add_right_comm, ← Nat.add_assoc]

/-- **The loop over a mode string**, from the sign it stands under and the argument it is at. -/
theorem parseModeString_eq (before : Text) (parameters : List Text) (modes : Text)
    (adding signSeen : Bool) (index : Nat) (hsign : SignOf (nearestSign before) adding signSeen)
    (hindex : index ≤ parameters.length) :
    parseModeString parameters modes adding signSeen index =
      if Fulfilled parameters index (signedBehind before modes) then
        some (assign (signedBehind before modes) (parameters.drop index))
      else none := by
  induction modes generalizing before adding signSeen index with
  | nil => exact (if_pos ⟨fun p hp => absurd hp List.not_mem_nil, hindex⟩).symm
  | cons c modes ih =>
    rw [parseModeString, signedBehind_cons]
    by_cases hplus : c = '+'
    · subst hplus
      rw [if_pos rfl, if_pos (show isSign '+' = true from rfl)]
      exact ih _ _ _ _ (nearestSign_sign before rfl) hindex
    by_cases hminus : c = '-'
    · subst hminus
      rw [if_neg hplus, if_pos rfl, if_pos (show isSign '-' = true from rfl)]
      exact ih _ _ _ _ (nearestSign_sign before rfl) hindex
    have hmode : isSign c = false := by simp [isSign, hplus, hminus]
    rw [if_neg hplus, if_neg hminus, hmode, if_neg Bool.false_ne_true]
    cases signSeen with
    | false =>
      rw [if_pos (show (!false) = true from rfl), if_neg]
      intro h
      have hnone : nearestSign before = none := hsign
      have hsome := (fulfilled_cons.1 h).1
      rw [hnone] at hsome
      cases hsome
    | true =>
      obtain ⟨htakes, hadding⟩ := takesArgument_eq hsign c
      have hlater : SignOf (nearestSign (before ++ [c])) adding true := by
        rw [nearestSign_mode before hmode]
        exact hsign
      have hsome : (nearestSign before).isSome = true := by rw [hsign]; rfl
      rw [if_neg (by decide), ← htakes]
      simp only [fulfilled_cons, hsome, true_and]
      cases ht : takesArgument (nearestSign before, c) with
      | true =>
        rw [if_pos rfl]
        simp only [if_true]
        cases hget : parameters[index]? with
        | none =>
          rw [if_neg]
          intro h
          have := List.getElem?_eq_none_iff.1 hget
          have := h.2
          omega
        | some argument =>
          have hlt := (List.getElem?_eq_some_iff.1 hget).1
          have hdrop : parameters.drop index = argument :: parameters.drop (index + 1) := by
            rw [List.drop_eq_getElem_cons hlt, (List.getElem?_eq_some_iff.1 hget).2]
          dsimp only
          rw [ih _ _ _ _ hlater hlt, hdrop, assign, ht]
          split
          · rw [hadding]
            rfl
          · rfl
      | false =>
        rw [if_neg Bool.false_ne_true]
        simp only [Bool.false_eq_true, if_false]
        rw [ih _ _ _ _ hlater hindex, assign, ht]
        split
        · rw [hadding]
          rfl
        · rfl

end Server

theorem nearestSign_eq {before : Text} {c : Char} (h : nearestSign before = some c) :
    c = '+' ∨ c = '-' := by
  have hc := List.find?_some h
  simpa [isSign] using hc

theorem sign_of_mem (before : Text) {modes : Text} {p : Option Char × Char} (hp : p ∈ signedBehind before modes)
    (hsome : p.1.isSome = true) : p.1 = some '+' ∨ p.1 = some '-' := by
  obtain ⟨q, -, rfl⟩ := List.mem_map.1 hp
  obtain ⟨c, hc⟩ := Option.isSome_iff_exists.1 hsome
  rw [hc]
  rcases nearestSign_eq hc with rfl | rfl
  · exact Or.inl rfl
  · exact Or.inr rfl

/-- The changes are the mode characters with their signs, in order. -/
theorem assign_signed {ps : List (Option Char × Char)} (h : ∀ p ∈ ps, p.1 = some '+' ∨ p.1 = some '-')
    (arguments : List Text) :
    (assign ps arguments).map ModeChange.signed = ps ∧
      ∀ change ∈ assign ps arguments, change.hasArgument = takesArgument change.signed ∧
        (change.hasArgument = false → change.argument = []) := by
  induction ps generalizing arguments with
  | nil => exact ⟨rfl, fun change hmem => absurd hmem List.not_mem_nil⟩
  | cons p ps ih =>
    have hp := h p List.mem_cons_self
    have hlater := ih fun q hq => h q (List.mem_cons_of_mem _ hq)
    have hsigned (hasArgument : Bool) (argument : Text) :
        (⟨p.1 == some '+', p.2, hasArgument, argument⟩ : ModeChange).signed = p := by
      obtain ⟨sign, mode⟩ := p
      rcases hp with rfl | rfl <;> rfl
    rw [assign]
    split
    · next ht =>
      obtain ⟨hmap, hall⟩ := hlater arguments.tail
      refine ⟨by rw [List.map_cons, hmap, hsigned], List.forall_mem_cons.2 ⟨⟨?_, nofun⟩, hall⟩⟩
      rw [hsigned, ht]
    · next ht =>
      obtain ⟨hmap, hall⟩ := hlater arguments
      refine ⟨by rw [List.map_cons, hmap, hsigned], List.forall_mem_cons.2 ⟨⟨?_, fun _ => rfl⟩, hall⟩⟩
      rw [hsigned, Bool.eq_false_iff.2 ht]

/-- The arguments go to the changes that take one, in order. -/
theorem assign_arguments {ps : List (Option Char × Char)} {arguments : List Text}
    (h : ps.countP takesArgument ≤ arguments.length) :
    ((assign ps arguments).filter (·.hasArgument)).map ModeChange.argument =
      arguments.take (ps.countP takesArgument) := by
  induction ps generalizing arguments with
  | nil => rfl
  | cons p ps ih =>
    rw [List.countP_cons] at h ⊢
    rw [assign]
    split
    · next ht =>
      rw [if_pos ht] at h
      cases arguments with
      | nil => simp at h
      | cons argument arguments =>
        rw [List.filter_cons_of_pos rfl, List.map_cons, List.tail_cons, ih (by simpa using h)]
        rfl
    · next ht =>
      rw [if_neg ht] at h
      rw [List.filter_cons_of_neg (by simp)]
      exact ih h

namespace Server

/-- A mode string with a mode character has a sign for each just if it begins with one. -/
theorem signs_iff {modes : Text} (hne : signed modes ≠ []) :
    (∀ p ∈ signed modes, p.1.isSome = true) ↔ ∃ sign rest, modes = sign :: rest ∧ isSign sign = true := by
  have hsigned : signed modes = signedBehind [] modes := rfl
  cases modes with
  | nil => exact absurd rfl hne
  | cons c modes =>
    rw [hsigned, signedBehind_cons]
    cases hc : isSign c with
    | true =>
      rw [if_pos rfl]
      refine iff_of_true (sign_isSome ?_) ⟨c, modes, rfl, hc⟩
      rw [nearestSign_sign [] hc]
      rfl
    | false =>
      rw [if_neg Bool.false_ne_true]
      refine iff_of_false (fun h => ?_) ?_
      · cases h _ List.mem_cons_self
      · rintro ⟨sign, rest, heq, hsign⟩
        cases heq
        rw [hc] at hsign
        cases hsign

theorem signedBehind_ne_nil (before : Text) {modes : Text} :
    signedBehind before modes ≠ [] ↔ ∃ c ∈ modes, isSign c = false := by
  induction modes generalizing before with
  | nil => exact iff_of_false (fun h => h rfl) (by simp)
  | cons c modes ih =>
    rw [signedBehind_cons]
    cases hc : isSign c with
    | true =>
      rw [if_pos rfl, ih]
      simp [hc]
    | false =>
      rw [if_neg Bool.false_ne_true]
      exact iff_of_true (List.cons_ne_nil _ _) ⟨c, List.mem_cons_self, hc⟩

/-- `parseChannelModeChanges`, by its grammar. -/
theorem parseChannelModeChanges_eq (channel modes : Text) (arguments : List Text) :
    parseChannelModeChanges (channel :: modes :: arguments) =
      if signed modes ≠ [] ∧ Fulfilled (channel :: modes :: arguments) 2 (signed modes) then
        some (assign (signed modes) arguments)
      else none := by
  have hloop := parseModeString_eq [] (channel :: modes :: arguments) modes true false 2 rfl (by simp)
  rw [show signedBehind [] modes = signed modes from rfl] at hloop
  unfold parseChannelModeChanges
  show (if modes.isEmpty = true then none else _) = _
  cases modes with
  | nil => rfl
  | cons c modes =>
    rw [if_neg (by simp)]
    show (parseModeString _ _ true false 2).filter _ = _
    rw [hloop]
    by_cases hfulfilled : Fulfilled (channel :: (c :: modes) :: arguments) 2 (signed (c :: modes))
    · rw [if_pos hfulfilled]
      cases hsigned : signed (c :: modes) with
      | nil => rfl
      | cons p ps =>
        rw [hsigned] at hfulfilled
        have hne : (assign (p :: ps) arguments).isEmpty = false := by
          rw [assign]
          split <;> rfl
        rw [if_pos ⟨List.cons_ne_nil p ps, hfulfilled⟩,
          show (channel :: (c :: modes) :: arguments).drop 2 = arguments from rfl, Option.filter_some, hne]
        rfl
    · rw [if_neg hfulfilled, if_neg fun h => hfulfilled h.2]
      rfl

/-- **A mode string gives each change its sign and its argument, or is rejected as a whole.** -/
theorem parseChannelModeChanges_grammar (channel modes : Text) (arguments : List Text) :
    ((parseChannelModeChanges (channel :: modes :: arguments)).isSome = true ↔
      (∃ sign rest, modes = sign :: rest ∧ isSign sign = true) ∧ (∃ c ∈ modes, isSign c = false) ∧
      (signed modes).countP takesArgument ≤ arguments.length) ∧
    (∀ changes, parseChannelModeChanges (channel :: modes :: arguments) = some changes →
      changes.map ModeChange.signed = signed modes ∧
      (∀ change ∈ changes, change.hasArgument = takesArgument change.signed) ∧
      (∀ j change, (changes.filter (·.hasArgument))[j]? = some change →
        (channel :: modes :: arguments)[2 + j]? = some change.argument) ∧
      ∀ change ∈ changes, change.hasArgument = false → change.argument = []) ∧
    ∀ i ∈ parametersRead (channel :: modes :: arguments), i < (channel :: modes :: arguments).length := by
  have heq := parseChannelModeChanges_eq channel modes arguments
  have hcount : Fulfilled (channel :: modes :: arguments) 2 (signed modes) ↔
      (∀ p ∈ signed modes, p.1.isSome = true) ∧
        (signed modes).countP takesArgument ≤ arguments.length := by
    unfold Fulfilled
    rw [List.length_cons, List.length_cons]
    exact and_congr_right fun _ => by omega
  simp only [hcount] at heq
  refine ⟨?_, fun changes hchanges => ?_, ?_⟩
  · have hmode : signed modes ≠ [] ↔ ∃ c ∈ modes, isSign c = false :=
      signedBehind_ne_nil []
    rw [heq, Option.isSome_ite]
    constructor
    · rintro ⟨hne, hsigns, hlength⟩
      exact ⟨(signs_iff hne).1 hsigns, hmode.1 hne, hlength⟩
    · rintro ⟨hfirst, hsome, hlength⟩
      exact ⟨hmode.2 hsome, (signs_iff (hmode.2 hsome)).2 hfirst, hlength⟩
  · rw [heq] at hchanges
    split at hchanges
    swap
    · cases hchanges
    next h =>
    cases hchanges
    obtain ⟨-, hsigns, hlength⟩ := h
    obtain ⟨hsigned, hall⟩ := assign_signed
      (fun p hp => sign_of_mem [] hp (hsigns p hp)) arguments
    refine ⟨hsigned, fun change hmem => (hall change hmem).1, fun j change hj => ?_,
      fun change hmem => (hall change hmem).2⟩
    have hargument := congrArg (·[j]?) (assign_arguments hlength)
    rw [List.getElem?_map, hj, Option.map_some, List.getElem?_take] at hargument
    split at hargument
    · rw [Nat.add_comm]
      exact hargument.symm
    · cases hargument
  · intro i hi
    rcases List.mem_cons.1 hi with rfl | hi
    · simp
    · exact argumentsRead_lt i hi

/-- `l` takes an argument under `+` only. -/
theorem parseChannelModeChanges_grammar_limit :
    (parseChannelModeChanges ["#c".toList, "+o-l+k".toList, "al".toList, "key".toList]).isSome = true :=
  (parseChannelModeChanges_grammar "#c".toList "+o-l+k".toList ["al".toList, "key".toList]).1.2
    ⟨⟨'+', "o-l+k".toList, by decide, by decide⟩, ⟨'o', by decide, by decide⟩, by decide⟩

end Server

end FtIrc
