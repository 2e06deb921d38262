import FtIrc.Mode

/-!
# What a command line says

`Command.parse` reads back what is put together from a name, words and a trailing text
(`Command.parse_encode`).  A word is what it can read without a `:` (`Middle`).
-/

namespace FtIrc

/-- A text that stands as a parameter without a `:` in front. -/
def Middle (text : Text) : Prop := text ≠ [] ∧ text.head? ≠ some ':' ∧ ' ' ∉ text

instance (text : Text) : Decidable (Middle text) := by unfold Middle; infer_instance

namespace Command

/-! ## Reading -/

theorem parseParameters_blank {room : Nat} {rest : Text} (h : rest.dropWhile (· == ' ') = []) :
    parseParameters room rest = (true, []) := by
  rw [parseParameters.eq_def]
  dsimp only
  rw [h]

theorem parseParameters_full {rest cs : Text} {c : Char} (h : rest.dropWhile (· == ' ') = c :: cs) :
    parseParameters 0 rest = (false, []) := by
  rw [parseParameters.eq_def]
  dsimp only
  rw [h]

theorem parseParameters_no_room (rest : Text) : (parseParameters 0 rest).2 = [] := by
  cases hrest : rest.dropWhile (· == ' ') with
  | nil => rw [parseParameters_blank hrest]
  | cons c cs => rw [parseParameters_full hrest]

theorem parseParameters_cons {room : Nat} {rest cs : Text} {c : Char}
    (h : rest.dropWhile (· == ' ') = c :: cs) :
    parseParameters (room + 1) rest = if c = ':' then (true, [cs]) else
      ((parseParameters room ((c :: cs).dropWhile (· != ' '))).1,
        (c :: cs).takeWhile (· != ' ') ::
          (parseParameters room ((c :: cs).dropWhile (· != ' '))).2) := by
  rw [parseParameters.eq_def]
  dsimp only
  rw [h]

theorem parseParameters_trailing (room : Nat) (text : Text) :
    parseParameters (room + 1) (" :".toList ++ text) = (true, [text]) := rfl

theorem dropWhile_spaces {c : Char} (hc : c ≠ ' ') (cs : Text) :
    (c :: cs).dropWhile (· == ' ') = c :: cs := by
  rw [List.dropWhile_cons, if_neg (by simpa using hc)]

theorem takeWhile_middle {word rest : Text} (hspace : ' ' ∉ word) (hrest : rest.head? = none ∨ rest.head? = some ' ') :
    (word ++ rest).takeWhile (· != ' ') = word ∧ (word ++ rest).dropWhile (· != ' ') = rest := by
  have hword : ∀ c ∈ word, (c != ' ') = true := fun c hc => by
    simpa using fun he : c = ' ' => hspace (he ▸ hc)
  have hstop : rest.takeWhile (· != ' ') = [] ∧ rest.dropWhile (· != ' ') = rest := by
    cases rest with
    | nil => exact ⟨rfl, rfl⟩
    | cons c cs =>
      have hc : c = ' ' := by simpa using hrest
      subst hc
      exact ⟨rfl, rfl⟩
  rw [List.takeWhile_append_of_pos hword, List.dropWhile_append_of_pos hword, hstop.1, hstop.2,
    List.append_nil]
  exact ⟨rfl, rfl⟩

/-- A word in front of other parameters. -/
theorem parseParameters_middle {word rest : Text} (hword : Middle word)
    (hrest : rest.head? = none ∨ rest.head? = some ' ') (room : Nat) :
    parseParameters (room + 1) (' ' :: word ++ rest) =
      ((parseParameters room rest).1, word :: (parseParameters room rest).2) := by
  obtain ⟨hne, hcolon, hspace⟩ := hword
  obtain ⟨htake, hdrop⟩ := takeWhile_middle hspace hrest
  cases word with
  | nil => exact absurd rfl hne
  | cons c cs =>
    have hc : c ≠ ' ' := fun he => hspace (he ▸ List.mem_cons_self)
    have hc' : c ≠ ':' := fun he => hcolon (he ▸ rfl)
    have hfirst : (' ' :: c :: cs ++ rest).dropWhile (· == ' ') = c :: (cs ++ rest) :=
      dropWhile_spaces hc (cs ++ rest)
    rw [List.cons_append] at htake hdrop
    rw [parseParameters_cons hfirst, if_neg hc', htake, hdrop]

theorem parseParameters_words {middles : List Text} (hmiddles : ∀ word ∈ middles, Middle word)
    {rest : Text} (hrest : rest.head? = none ∨ rest.head? = some ' ') (room : Nat) :
    parseParameters (middles.length + room) (middles.flatMap (' ' :: ·) ++ rest) =
      ((parseParameters room rest).1, middles ++ (parseParameters room rest).2) := by
  induction middles with
  | nil => rw [List.length_nil, Nat.zero_add]; rfl
  | cons word middles ih =>
    have hlater := ih fun w hw => hmiddles w (List.mem_cons_of_mem _ hw)
    have hlength : (word :: middles).length + room = (middles.length + room) + 1 := by
      rw [List.length_cons]
      omega
    rw [hlength, List.flatMap_cons, List.append_assoc,
      parseParameters_middle (hmiddles word List.mem_cons_self), hlater]
    · rfl
    · cases middles with
      | nil => exact hrest
      | cons => exact Or.inr rfl

/-- A name and words, in front of anything that they are set apart from. -/
theorem parse_words {name : Text} (hname : Middle name) {middles : List Text}
    (hmiddles : ∀ word ∈ middles, Middle word) {rest : Text}
    (hrest : rest.head? = none ∨ rest.head? = some ' ') {room : Nat}
    (hroom : middles.length + room = maxCommandParameters) :
    parse (name ++ (middles.flatMap (' ' :: ·) ++ rest)) =
      ⟨(parseParameters room rest).1, normalizeName name,
        middles ++ (parseParameters room rest).2⟩ := by
  have hparameters := parseParameters_words hmiddles hrest room
  rw [hroom] at hparameters
  generalize hwords : middles.flatMap (' ' :: ·) ++ rest = words at hparameters ⊢
  have hhead : words.head? = none ∨ words.head? = some ' ' := by
    rw [← hwords]
    cases middles with
    | nil => exact hrest
    | cons => exact Or.inr rfl
  obtain ⟨hne, hcolon, hspace⟩ := hname
  obtain ⟨htake, hdrop⟩ := takeWhile_middle hspace hhead
  cases name with
  | nil => exact absurd rfl hne
  | cons c cs =>
    have hc : c ≠ ' ' := fun he => hspace (he ▸ List.mem_cons_self)
    have hc' : c ≠ ':' := fun he => hcolon (he ▸ rfl)
    rw [List.cons_append] at htake hdrop
    rw [parse, List.cons_append, dropWhile_spaces hc]
    simp only [if_neg hc', htake, hdrop, hparameters, List.isEmpty_cons, Bool.false_eq_true, if_false]

/-- `name`, the words of `middles` and, if there is one, the trailing text. -/
def encode (name : Text) (middles : List Text) (trailing : Option Text) : Text :=
  name ++ (middles.flatMap (' ' :: ·) ++ trailing.elim [] (" :".toList ++ ·))

/-- **What is put together is read back.** -/
theorem parse_encode {name : Text} (hname : Middle name) {middles : List Text}
    (hmiddles : ∀ word ∈ middles, Middle word) (trailing : Option Text)
    (hroom : middles.length < maxCommandParameters) :
    parse (encode name middles trailing) =
      ⟨true, normalizeName name, middles ++ trailing.toList⟩ := by
  obtain ⟨room, hroom⟩ := Nat.exists_eq_add_of_lt hroom
  have hroom : middles.length + (room + 1) = maxCommandParameters := by omega
  have hhead : (trailing.elim [] (" :".toList ++ ·)).head? = none ∨
      (trailing.elim [] (" :".toList ++ ·)).head? = some ' ' := by
    cases trailing with
    | none => exact Or.inl rfl
    | some => exact Or.inr rfl
  unfold encode
  rw [parse_words hname hmiddles hhead hroom]
  cases trailing with
  | none => rw [Option.elim_none, parseParameters_blank rfl]; rfl
  | some text => rw [Option.elim_some, parseParameters_trailing]; rfl

/-! ## What has been read -/

theorem head_dropWhile_spaces {rest cs : Text} {c : Char} (h : rest.dropWhile (· == ' ') = c :: cs) :
    c ≠ ' ' := by
  have hne : rest.dropWhile (· == ' ') ≠ [] := by rw [h]; exact List.cons_ne_nil c cs
  have hhead := List.head_dropWhile_not (· == ' ') hne
  rintro rfl
  simp [h] at hhead

/-- The first word of a line that does not begin with a space or a `:`. -/
theorem middle_takeWhile {c : Char} {cs : Text} (hc : c ≠ ' ') (hc' : c ≠ ':') :
    Middle ((c :: cs).takeWhile (· != ' ')) := by
  have hcons : (c :: cs).takeWhile (· != ' ') = c :: cs.takeWhile (· != ' ') := by
    rw [List.takeWhile_cons, if_pos (by simpa using hc)]
  refine ⟨?_, ?_, fun hmem => ?_⟩
  · rw [hcons]
    exact List.cons_ne_nil _ _
  · rw [hcons, List.head?_cons]
    simpa using hc'
  · have := List.all_eq_true.1 (List.all_takeWhile (p := (· != ' '))) _ hmem
    simp at this

/-- Without a `:` in front, only a word is read back as one parameter. -/
theorem middle_of_parseParameters {room : Nat} {word : Text}
    (h : (parseParameters room (' ' :: word)).2 = [word]) : Middle word := by
  have hspaces : (' ' :: word).dropWhile (· == ' ') = word.dropWhile (· == ' ') := rfl
  cases hrest : word.dropWhile (· == ' ') with
  | nil =>
    rw [parseParameters_blank (hspaces.trans hrest)] at h
    cases h
  | cons c cs =>
    cases room with
    | zero =>
      rw [parseParameters_full (hspaces.trans hrest)] at h
      cases h
    | succ room =>
      rw [parseParameters_cons (hspaces.trans hrest)] at h
      split at h
      · -- behind a `:` there is less than the whole word
        have hlength := (List.dropWhile_sublist (· == ' ') (l := word)).length_le
        rw [hrest, List.length_cons] at hlength
        rw [List.cons.injEq] at h
        rw [← h.1] at hlength
        omega
      · next hcolon =>
        rw [List.cons.injEq] at h
        rw [← h.1]
        exact middle_takeWhile (head_dropWhile_spaces hrest) hcolon

/-- Only the last parameter need not be a word. -/
theorem middle_of_mem_dropLast {room : Nat} {rest : Text} :
    ∀ p ∈ (parseParameters room rest).2.dropLast, Middle p := by
  induction room generalizing rest with
  | zero =>
    intro p hp
    rw [parseParameters_no_room] at hp
    cases hp
  | succ room ih =>
    intro p hp
    cases hrest : rest.dropWhile (· == ' ') with
    | nil => rw [parseParameters_blank hrest] at hp; cases hp
    | cons c cs =>
      rw [parseParameters_cons hrest] at hp
      split at hp
      · cases hp
      next hcolon =>
      cases hlater : (parseParameters room ((c :: cs).dropWhile (· != ' '))).2 with
      | nil => rw [hlater] at hp; cases hp
      | cons q qs =>
        rw [hlater, List.dropLast_cons_cons, List.mem_cons] at hp
        rcases hp with rfl | hp
        · exact middle_takeWhile (head_dropWhile_spaces hrest) hcolon
        · exact ih p (hlater ▸ hp)

/-- The parameters are cut out of the line. -/
theorem mem_of_mem_parameters {room : Nat} {rest : Text} :
    ∀ p ∈ (parseParameters room rest).2, ∀ d ∈ p, d ∈ rest := by
  induction room generalizing rest with
  | zero =>
    intro p hp
    rw [parseParameters_no_room] at hp
    cases hp
  | succ room ih =>
    intro p hp d hd
    cases hrest : rest.dropWhile (· == ' ') with
    | nil => rw [parseParameters_blank hrest] at hp; cases hp
    | cons c cs =>
      have hsub : ∀ x ∈ c :: cs, x ∈ rest := fun x hx =>
        (List.dropWhile_sublist (· == ' ')).subset (hrest ▸ hx)
      rw [parseParameters_cons hrest] at hp
      split at hp
      · cases List.mem_singleton.1 hp
        exact hsub d (List.mem_cons_of_mem _ hd)
      · rcases List.mem_cons.1 hp with rfl | hp
        · exact hsub d ((List.takeWhile_sublist _).subset hd)
        · exact hsub d ((List.dropWhile_sublist _).subset (ih p hp d hd))

/-- The parameters of a parsed line. -/
theorem parse_parameters (line : Text) :
    (parse line).parameters = [] ∨ ∃ rest, (∀ d ∈ rest, d ∈ line) ∧
      (parse line).parameters = (parseParameters maxCommandParameters rest).2 := by
  unfold parse
  split
  · exact Or.inl rfl
  next c cs hline =>
  split
  · exact Or.inl rfl
  dsimp only
  split
  · exact Or.inl rfl
  · refine Or.inr ⟨(c :: cs).dropWhile (· != ' '), fun d hd => ?_, rfl⟩
    exact (List.dropWhile_sublist (· == ' ')).subset (hline ▸ (List.dropWhile_sublist _).subset hd)

theorem parse_middle {line p : Text} (h : p ∈ (parse line).parameters.dropLast) : Middle p := by
  rcases parse_parameters line with hnil | ⟨rest, -, heq⟩
  · rw [hnil] at h
    cases h
  · rw [heq] at h
    exact middle_of_mem_dropLast p h

theorem parse_subset {line p : Text} (h : p ∈ (parse line).parameters) : ∀ d ∈ p, d ∈ line := by
  rcases parse_parameters line with hnil | ⟨rest, hrest, heq⟩
  · rw [hnil] at h
    cases h
  · rw [heq] at h
    exact fun d hd => hrest d (mem_of_mem_parameters p h d hd)

/-- Upper case makes no character below the letters. -/
theorem uppercaseAscii_eq_iff {c d : Char} (hd : d.toNat < 65) : uppercaseAscii c = d ↔ c = d := by
  unfold uppercaseAscii
  split
  · next h =>
    have h1 : 97 ≤ c.toNat := h.1
    have h2 : c.toNat ≤ 122 := h.2
    have hv : (c.toNat - 'a'.toNat + 'A'.toNat).isValidChar := by
      left
      show c.toNat - 97 + 65 < 0xd800
      omega
    have hupper : (Char.ofNat (c.toNat - 'a'.toNat + 'A'.toNat)).toNat = c.toNat - 97 + 65 := by
      rw [Char.ofNat, dif_pos hv]
      rfl
    constructor
    · rintro rfl
      omega
    · rintro rfl
      omega
  · exact Iff.rfl

/-- The name has the characters of the line, in upper case. -/
theorem parse_name {line : Text} {d : Char} (hd : d.toNat < 65) (h : d ∈ (parse line).name) : d ∈ line := by
  unfold parse at h
  split at h
  · cases h
  next c cs hline =>
  split at h
  · cases h
  dsimp only at h
  split at h
  · cases h
  · obtain ⟨x, hx, heq⟩ := List.mem_map.1 h
    rw [uppercaseAscii_eq_iff hd] at heq
    subst heq
    exact (List.dropWhile_sublist (· == ' ')).subset (hline ▸ (List.takeWhile_sublist _).subset hx)

end Command

/-! ## Mode strings -/

/-- What is known of a change that is read from the mode string `modes`. -/
structure ModeChange.ReadFrom (parameters : List Text) (modes : Text) (change : ModeChange) : Prop where
  needs : change.hasArgument = Server.modeNeedsArgument change.mode change.adding
  mode : change.mode ∈ modes
  argument : change.argument = [] ∨ change.argument ∈ parameters

namespace Server

theorem parseModeString_spec {parameters : List Text} {modes : Text} {adding signSeen : Bool}
    {index : Nat} {changes : List ModeChange}
    (h : parseModeString parameters modes adding signSeen index = some changes) :
    ∀ change ∈ changes, change.ReadFrom parameters modes := by
  induction modes generalizing adding signSeen index changes with
  | nil =>
    cases h
    exact fun _ hmem => absurd hmem List.not_mem_nil
  | cons character rest ih =>
    have later {adding signSeen : Bool} {index : Nat} {changes : List ModeChange}
        (h : parseModeString parameters rest adding signSeen index = some changes)
        {change : ModeChange} (hmem : change ∈ changes) : change.ReadFrom parameters (character :: rest) :=
      { ih h change hmem with mode := List.mem_cons_of_mem _ (ih h change hmem).mode }
    rw [parseModeString] at h
    split at h
    · exact fun _ => later h
    split at h
    · exact fun _ => later h
    split at h
    · cases h
    split at h
    · next hneeds =>
      split at h
      · cases h
      next argument hargument =>
      obtain ⟨changes, hlater, rfl⟩ := Option.map_eq_some_iff.1 h
      intro change hmem
      rcases List.mem_cons.1 hmem with rfl | hmem
      · exact ⟨hneeds.symm, List.mem_cons_self, Or.inr (List.mem_of_getElem? hargument)⟩
      · exact later hlater hmem
    · next hneeds =>
      obtain ⟨changes, hlater, rfl⟩ := Option.map_eq_some_iff.1 h
      intro change hmem
      rcases List.mem_cons.1 hmem with rfl | hmem
      · exact ⟨(Bool.not_eq_true _ ▸ hneeds).symm, List.mem_cons_self, Or.inl rfl⟩
      · exact later hlater hmem

theorem parseChannelModeChanges_spec {parameters : List Text} {changes : List ModeChange}
    (h : parseChannelModeChanges parameters = some changes) :
    ∀ change ∈ changes, ∃ modes ∈ parameters, change.ReadFrom parameters modes := by
  unfold parseChannelModeChanges at h
  split at h
  · cases h
  next modes hmodes =>
  split at h
  · cases h
  · exact fun change hmem => ⟨modes, List.mem_of_getElem? hmodes,
      parseModeString_spec (Option.filter_eq_some_iff.1 h).1 change hmem⟩

end Server

end FtIrc
