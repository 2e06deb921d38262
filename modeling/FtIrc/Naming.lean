import FtIrc.Decoding
import FtIrc.Grammar

/-!
# Channel names and the list of names

`handleJoin` looks at the first character of the name of a new channel only, so a name can
have spaces.  Such a channel is never named again by a parameter that is not the last, and
its list of names does not read back.  `isValidNickname` lets a nickname begin with a `@`,
which is the mark of an operator in that list.
-/

namespace FtIrc

open Std

/-! ## Channels that commands reach -/

/-- Every kind of command that names a channel in front of other parameters reaches `c`. -/
structure Server.Addressable (s : Server) (c : Channel) : Prop where
  found : s.findChannel c.name = some c
  mode : Command.parse ("MODE ".toList ++ c.name ++ " +i".toList) =
    ⟨true, "MODE".toList, [c.name, "+i".toList]⟩
  kick : ∀ nickname reason, Server.isValidNickname nickname = true →
    Command.parse ("KICK ".toList ++ c.name ++ " ".toList ++ nickname ++ " :".toList ++ reason) =
      ⟨true, "KICK".toList, [c.name, nickname, reason]⟩
  topic : ∀ newTopic, Command.parse ("TOPIC ".toList ++ c.name ++ " :".toList ++ newTopic) =
    ⟨true, "TOPIC".toList, [c.name, newTopic]⟩
  privmsg : ∀ text, Command.parse ("PRIVMSG ".toList ++ c.name ++ " :".toList ++ text) =
    ⟨true, "PRIVMSG".toList, [c.name, text]⟩

theorem Channel.middle_name {name : Text} (h : Server.isChannelTarget name = true) :
    Middle name ↔ ' ' ∉ name := by
  refine ⟨fun hm => hm.2.2, fun hspace => ?_⟩
  cases name with
  | nil => cases h
  | cons first rest =>
    refine ⟨List.cons_ne_nil _ _, fun heq => ?_, hspace⟩
    rw [Option.some.inj heq] at h
    cases h

section Parsing

variable {name : Text}

theorem room_for_words {words : List Text} (h : words.length ≤ 2) :
    words.length < maxCommandParameters := Nat.lt_of_le_of_lt h (by decide)

theorem parse_named {command : Text} (hcommand : Middle command)
    (hupper : Command.normalizeName command = command) (hname : Middle name) (text : Text) :
    Command.parse (command ++ [' '] ++ name ++ " :".toList ++ text) = ⟨true, command, [name, text]⟩ := by
  have hwords : ∀ word ∈ [name], Middle word := by simpa using hname
  rw [Relay.encode_word, Command.parse_encode hcommand hwords _ (room_for_words (Nat.le_succ 1)), hupper]
  rfl

theorem parse_mode_invite (hname : Middle name) :
    Command.parse ("MODE".toList ++ [' '] ++ name ++ " +i".toList) =
      ⟨true, "MODE".toList, [name, "+i".toList]⟩ := by
  have hwords : ∀ word ∈ [name, "+i".toList], Middle word := by
    intro word hword
    rcases List.mem_pair.1 hword with rfl | rfl
    · exact hname
    · decide
  have h := Command.parse_encode (show Middle "MODE".toList by decide) hwords none
    (room_for_words (Nat.le_refl 2))
  rw [show Command.normalizeName "MODE".toList = "MODE".toList by decide] at h
  refine Eq.trans (congrArg _ ?_) h
  unfold Command.encode
  generalize "MODE".toList = command
  simp

theorem parse_kick (hname : Middle name) {nickname : Text} (hnick : Middle nickname) (reason : Text) :
    Command.parse ("KICK".toList ++ [' '] ++ name ++ [' '] ++ nickname ++ " :".toList ++ reason) =
      ⟨true, "KICK".toList, [name, nickname, reason]⟩ := by
  have hwords : ∀ word ∈ [name, nickname], Middle word := by
    intro word hword
    rcases List.mem_pair.1 hword with rfl | rfl
    · exact hname
    · exact hnick
  rw [Relay.encode_words, Command.parse_encode (by decide) hwords _ (room_for_words (Nat.le_refl 2)),
    show Command.normalizeName "KICK".toList = "KICK".toList by decide]
  rfl

end Parsing

namespace Server

variable {s s' : Server} {e : Event} {A : Fd} {line channelName : Text} {rest : List Text}

/-- **A channel can be addressed just when its name has no space.** -/
theorem addressable_iff (h : s.core.Ok) {key : Text} {c : Channel} (hc : s.channels[key]? = some c) :
    s.Addressable c ↔ ' ' ∉ c.name := by
  have hok := h.channel key c hc
  have hfound : s.findChannel c.name = some c := by
    unfold findChannel
    rw [hok.key]
    exact hc
  constructor
  · intro ha
    have hmem : c.name ∈ (Command.parse ("MODE ".toList ++ c.name ++ " +i".toList)).parameters.dropLast := by
      rw [ha.mode]
      exact List.mem_singleton_self _
    exact (Command.parse_middle hmem).2.2
  · intro hspace
    have hname := (Channel.middle_name hok.name).2 hspace
    exact
      { found := hfound
        mode := parse_mode_invite hname
        kick := fun nickname reason hnick => parse_kick hname (middle_nickname hnick) reason
        topic := parse_named (show Middle "TOPIC".toList by decide) (by decide) hname
        privmsg := parse_named (show Middle "PRIVMSG".toList by decide) (by decide) hname }

/-- Every channel can be addressed. -/
def AllAddressable (s : Server) : Prop :=
  ∀ (key : Text) (c : Channel), s.channels[key]? = some c → s.Addressable c

/-- No channel is created under a name with a space. -/
def NamesWord (s : Server) (e : Event) : Prop :=
  ∀ A line channelName rest, e = .line A line →
    Command.parse line = ⟨true, "JOIN".toList, channelName :: rest⟩ →
    (s.client A).registered = true → isChannelTarget channelName = true →
    s.findChannel channelName = none → ' ' ∉ channelName

/-- Where the name of a channel comes from. -/
theorem Reachable.channel_name (h : Reachable s) (hs : s.Step e s') {key : Text} {c' : Channel}
    (hc' : s'.channels[key]? = some c') :
    (∃ c : Channel, s.channels[key]? = some c ∧ c.name = c'.name) ∨
    ∃ A line channelName rest, e = .line A line ∧
      Command.parse line = ⟨true, "JOIN".toList, channelName :: rest⟩ ∧
      (s.client A).registered = true ∧ isChannelTarget channelName = true ∧
      s.findChannel channelName = none ∧ c'.name = channelName := by
  have hname' := ((h.step hs).ok.channel key c' hc').name
  rcases h.channel_cases hs hc' with hsame | ⟨fd, c, hc, rfl⟩ | ⟨A, line, rfl, hvalid, hmove⟩
  · exact Or.inl ⟨c', hsame, rfl⟩
  · exact Or.inl ⟨c, hc, rfl⟩
  generalize hx : s.channels[key]? = x at hmove
  generalize hy : some c' = y at hmove
  have kept {c : Channel} (hc : x = some c) (hname : c'.name = c.name) :
      ∃ c : Channel, x = some c ∧ c.name = c'.name := ⟨c, hc, hname.symm⟩
  cases hmove with
  | same => exact Or.inl (kept hy.symm rfl)
  | rename c =>
    cases hy
    refine Or.inl (kept rfl ?_)
    rw [Core.renameInvite_kept]
  | create channelName rest hname hparams hkey hreg =>
    cases hy
    subst hkey
    refine Or.inr ⟨A, line, channelName, rest, rfl, ?_, ?_, hname', hx, rfl⟩
    · rw [← hvalid, ← hname, ← hparams]
    · rw [client_registered]
      exact hreg
  | join _ _ c _ _ _ _ hmem =>
    cases hy
    refine Or.inl (kept rfl ?_)
    rw [Channel.addMember_eq hmem]
    rfl
  | topic =>
    cases hy
    exact Or.inl (kept rfl rfl)
  | kick =>
    split at hy
    · cases hy
    · cases hy
      exact Or.inl (kept rfl rfl)
  | invite =>
    cases hy
    exact Or.inl (kept rfl rfl)
  | mode _ _ _ _ _ _ _ _ _ _ hchain =>
    cases hy
    exact Or.inl (kept rfl hchain.name.1)

/-- What a JOIN that creates a channel leaves. -/
theorem Reachable.created (h : Reachable s) (hs : s.Step (.line A line) s')
    (hparse : Command.parse line = ⟨true, "JOIN".toList, channelName :: rest⟩)
    (hreg : (s.client A).registered = true) (htarget : isChannelTarget channelName = true)
    (hnone : s.findChannel channelName = none) :
    s'.channels[ircCaseFold channelName]? =
      some (({ name := channelName } : Channel).addMember A true) := by
  obtain ⟨t, hcore, hclient, -, rfl⟩ := hs.handled (by rw [hparse])
  have hA : t.core.Live A := hcore ▸ (h.queued hs).1
  rw [hparse, dispatchCommand_join rfl]
  unfold handleJoin
  dsimp only
  rw [hclient, hreg]
  rw [htarget, findChannel_congr hcore, hnone]
  simp only [Bool.not_true, Bool.false_eq_true, if_false]
  have hmember : ∀ m ∈ (({ name := channelName } : Channel).addMember A true).members, t.core.Live m := by
    intro m hm
    rw [Channel.addMember_eq rfl] at hm
    obtain rfl : A = m := by simpa using hm
    exact hA
  generalize ({ name := channelName } : Channel).addMember A true = c at hmember ⊢
  have hchannels := congrArg Core.channels
    (announceJoin_spec (t.setChannel (ircCaseFold channelName) c) A c hmember).1
  refine (congrArg (·[ircCaseFold channelName]?) hchannels).trans ?_
  exact (Core.getElem?_setChannel t.core _ _ _).trans (if_pos rfl)

theorem allAddressable_start (listenerFd : Fd) (password : Text) :
    (start listenerFd password).AllAddressable := by
  intro key c hc
  have hnone : (start listenerFd password).channels[key]? = none := ExtTreeMap.getElem?_empty
  cases hnone.symm.trans hc

/-- One step keeps every channel addressable just when it creates none under a name with a
space. -/
theorem AllAddressable.step (hall : s.AllAddressable) (h : Reachable s) (hs : s.Step e s') :
    s'.AllAddressable ↔ s.NamesWord e := by
  constructor
  · rintro hall' A line channelName rest rfl hparse hreg htarget hnone
    have hc := h.created hs hparse hreg htarget hnone
    exact (addressable_iff (h.step hs).ok hc).1 (hall' _ _ hc)
  · intro hword key c' hc'
    refine (addressable_iff (h.step hs).ok hc').2 ?_
    rcases h.channel_name hs hc' with
      ⟨c, hc, hname⟩ | ⟨A, line, channelName, rest, rfl, hparse, hreg, htarget, hnone, hname⟩
    · rw [← hname]
      exact (addressable_iff h.ok hc).1 (hall key c hc)
    · rw [hname]
      exact hword A line channelName rest rfl hparse hreg htarget hnone

/-- A run that creates no such channel. -/
theorem allAddressable_run {listenerFd : Fd} {password : Text} {es : List Event}
    (hrun : Transition.Run (fun s e s' => Step s e s' ∧ s.NamesWord e) (start listenerFd password) es s) :
    Reachable s ∧ s.AllAddressable ∧
      Transition.Run (fun s e s' => Step s e s' ∧ s'.AllAddressable) (start listenerFd password) es s := by
  induction hrun with
  | nil => exact ⟨Reachable.start _ _, allAddressable_start _ _, .nil⟩
  | snoc _ hs ih =>
    obtain ⟨hr, hall, hrun⟩ := ih
    have hall' := (hall.step hr hs.1).2 hs.2
    exact ⟨hr.step hs.1, hall', hrun.snoc ⟨hs.1, hall'⟩⟩

theorem namesWord_run {listenerFd : Fd} {password : Text} {es : List Event}
    (hrun : Transition.Run (fun s e s' => Step s e s' ∧ s'.AllAddressable) (start listenerFd password) es s) :
    Transition.Run (fun s e s' => Step s e s' ∧ s.NamesWord e) (start listenerFd password) es s := by
  induction hrun with
  | nil => exact .nil
  | snoc _ hs ih =>
    obtain ⟨hr, hall, -⟩ := allAddressable_run ih
    exact ih.snoc ⟨hs.1, (hall.step hr hs.1).1 hs.2⟩

/-- **Channels stay addressable exactly as long as no JOIN creates one under a name with a
space.** -/
theorem channels_addressable (listenerFd : Fd) (password : Text) (es : List Event) (s : Server) :
    (Transition.Run (fun s e s' => Step s e s' ∧ s'.AllAddressable) (start listenerFd password) es s ↔
      Transition.Run (fun s e s' => Step s e s' ∧ s.NamesWord e) (start listenerFd password) es s) ∧
    (Transition.Run (fun s e s' => Step s e s' ∧ s.NamesWord e) (start listenerFd password) es s →
      s.AllAddressable) :=
  ⟨⟨namesWord_run, fun hrun => (allAddressable_run hrun).2.2⟩, fun hrun => (allAddressable_run hrun).2.1⟩

theorem channels_addressable_session : session.AllAddressable := by
  refine (channels_addressable 3 "pw".toList sessionEvents session).2
    ((Transition.Run.of_foldlM session_steps).mono_events fun e he s s' hs => ⟨hs, ?_⟩)
  rintro A line channelName rest rfl hparse - - -
  have hall : ∀ e ∈ sessionEvents, ∀ A line, e = .line A line → (Command.parse line).name = "JOIN".toList →
      ∀ p ∈ (Command.parse line).parameters, ' ' ∉ p := by
    simp only [sessionEvents, List.forall_mem_cons, Event.line.injEq, reduceCtorEq, false_imp_iff,
      implies_true, true_and, and_imp, List.not_mem_nil, and_true]
    refine ⟨?_, ?_, ?_, ?_, ?_, ?_, ?_, ?_, ?_, ?_⟩ <;> (rintro _ _ rfl rfl; decide)
  have h := hall _ he A line rfl
  rw [hparse] at h
  exact h rfl channelName List.mem_cons_self

/-- `bob`, on 4, creates a channel whose name has a space. -/
theorem channel_with_space : ¬ ∀ s, Reachable s → s.AllAddressable := by
  intro hall
  have hview : (session.step (.line 4 "JOIN :#a b".toList)).map
      (fun s' => (s'.channels["#a b".toList]?).map (·.name)) = some (some "#a b".toList) := by decide +kernel
  have hr := session_reachable
  generalize session = s at *
  obtain ⟨s', hs, hview⟩ := Option.map_eq_some_iff.1 hview
  obtain ⟨c, hc, hname⟩ := Option.map_eq_some_iff.1 hview
  have hspace := (addressable_iff (hr.step hs).ok hc).1 (hall s' (hr.step hs) _ c hc)
  rw [hname] at hspace
  exact hspace (by decide)

end Server

/-! ## Reading a list of names -/

/-- One word of a list of names: a nickname, and whether a `@` marks an operator. -/
def readName : Text → Text × Bool
  | '@' :: nickname => (nickname, true)
  | nickname => (nickname, false)

/-- The numeric that lists the names of a channel. -/
def Line.isNames : Line → Bool
  | .numeric code _ _ => code == "353".toList
  | _ => false

/-- The word for one member. -/
def markName (member : Bool × Text) : Text := (if member.1 then "@".toList else []) ++ member.2

theorem markName_ne {member : Bool × Text} (h : member.2 ≠ []) : markName member ≠ [] := by
  unfold markName
  exact List.append_ne_nil_of_right_ne_nil _ h

theorem space_notMem_markName {member : Bool × Text} (h : ' ' ∉ member.2) : ' ' ∉ markName member := by
  unfold markName
  rw [List.mem_append, not_or]
  refine ⟨?_, h⟩
  split <;> decide

/-- A word is read back unless it is an unmarked nickname that begins with a `@`. -/
theorem readName_markName (member : Bool × Text) :
    readName (markName member) = (member.2, member.1) ↔ (member.1 = false → member.2.head? ≠ some '@') := by
  obtain ⟨operator, nickname⟩ := member
  cases operator with
  | true => simp [markName, readName]
  | false =>
    cases nickname with
    | nil => simp [markName, readName]
    | cons c cs =>
      by_cases hc : c = '@'
      · subst hc
        simp [markName, readName]
      · have hread : readName (c :: cs) = (c :: cs, false) := by
          unfold readName
          split
          · next heq => cases heq; exact absurd rfl hc
          · rfl
        simp [markName, hread, hc]

theorem readName_unmarked {word nickname : Text} (h : readName word = (nickname, false)) :
    nickname.head? ≠ some '@' := by
  unfold readName at h
  split at h
  · cases h
  · next hword =>
    cases h
    intro hhead
    cases word with
    | nil => cases hhead
    | cons c cs => exact hword cs (by rw [Option.some.inj hhead])

theorem appendName_nil (member : Bool × Text) : Arguments.appendName [] member = markName member := rfl

theorem appendName_cons {namesList : Text} (h : namesList ≠ []) (member : Bool × Text) :
    Arguments.appendName namesList member = namesList ++ [' '] ++ markName member := by
  unfold Arguments.appendName markName
  rw [if_neg (by rwa [List.isEmpty_iff]), List.append_assoc]
  rfl

theorem foldl_appendName_cons {namesList : Text} (h : namesList ≠ []) (members : List (Bool × Text)) :
    members.foldl Arguments.appendName namesList =
      [' '].intercalate (namesList :: members.map markName) := by
  induction members generalizing namesList with
  | nil => rw [List.map_nil, List.intercalate_singleton, List.foldl_nil]
  | cons member members ih =>
    have hne : namesList ++ [' '] ++ markName member ≠ [] := by simp
    rw [List.foldl_cons, appendName_cons h, ih hne, List.map_cons, List.intercalate_cons_cons]
    cases members with
    | nil => simp
    | cons => simp [List.intercalate_cons_cons]

/-- `namesList` is the words with single spaces between them. -/
theorem foldl_appendName {members : List (Bool × Text)} (h : ∀ member ∈ members, member.2 ≠ []) :
    members.foldl Arguments.appendName [] = [' '].intercalate (members.map markName) := by
  cases members with
  | nil => rfl
  | cons member members =>
    rw [List.foldl_cons, appendName_nil, foldl_appendName_cons (markName_ne (h member List.mem_cons_self))]
    rfl

theorem splitOn_names {members : List (Bool × Text)} (hne : members ≠ [])
    (h : ∀ member ∈ members, member.2 ≠ [] ∧ ' ' ∉ member.2) :
    (members.foldl Arguments.appendName []).splitOn ' ' = members.map markName := by
  rw [foldl_appendName fun member hmember => (h member hmember).1]
  refine List.splitOn_intercalate ' ' ?_ (by simpa using hne)
  intro word hword
  obtain ⟨member, hmember, rfl⟩ := List.mem_map.1 hword
  exact space_notMem_markName (h member hmember).2

/-- **The list is read back as the set of its members just when no nickname without a mark
begins with one.** -/
theorem readNames_iff {members : List (Bool × Text)} (hne : members ≠ [])
    (h : ∀ member ∈ members, member.2 ≠ [] ∧ ' ' ∉ member.2) :
    (∀ nickname operator, (nickname, operator) ∈
        ((members.foldl Arguments.appendName []).splitOn ' ').map readName ↔ (operator, nickname) ∈ members) ↔
      ∀ member ∈ members, member.1 = false → member.2.head? ≠ some '@' := by
  rw [splitOn_names hne h]
  constructor
  · intro hread member hmember hplain
    obtain ⟨operator, nickname⟩ := member
    cases hplain
    obtain ⟨word, -, heq⟩ := List.mem_map.1 ((hread nickname false).2 hmember)
    exact readName_unmarked heq
  · intro hplain nickname operator
    rw [List.map_map, List.mem_map]
    constructor
    · rintro ⟨member, hmember, heq⟩
      rw [Function.comp_apply, (readName_markName member).2 (hplain member hmember)] at heq
      cases heq
      exact hmember
    · intro hmember
      exact ⟨_, hmember, (readName_markName _).2 (hplain _ hmember)⟩

namespace Server

variable {s s' : Server} {A : Fd} {line channelName : Text} {rest : List Text} {c' : Channel}

/-- What `sendChannelNames` puts behind the numeric, for the client on `A`. -/
def namesText (s : Server) (A : Fd) (c : Channel) : Text :=
  (s.client A).nickname ++ " = ".toList ++ c.name ++ " :".toList ++
    (s.core.namesOf c).foldl Arguments.appendName []

/-- What the text of a 353 tells the client on `A`, read as parameters: its own nickname, a
`=`, the name of `c` and the list of its members. -/
def NamesTell (s : Server) (A : Fd) (c : Channel) (text : Text) : Prop :=
  ∃ names, Command.parseParameters maxCommandParameters text =
      (true, [(s.client A).nickname, "=".toList, c.name, names]) ∧
    ∀ nickname operator, (nickname, operator) ∈ (names.splitOn ' ').map readName ↔
      ∃ m ∈ c.members, (s.client m).nickname = nickname ∧ c.isMemberOperator m = operator

/-- The name of the channel has no space, and no member without operator status has a nickname
that begins with a `@`, the client on `A` included if it joins others. -/
def NamesLegible (s : Server) (A : Fd) (channelName : Text) : Prop :=
  match s.findChannel channelName with
  | none => ' ' ∉ channelName
  | some c => ' ' ∉ c.name ∧ (s.client A).nickname.head? ≠ some '@' ∧
      ∀ m ∈ c.members, c.isMemberOperator m = false → (s.client m).nickname.head? ≠ some '@'

theorem mem_namesOf {κ : Core} {c : Channel} {operator : Bool} {nickname : Text} :
    (operator, nickname) ∈ κ.namesOf c ↔
      ∃ m ∈ c.members, (κ.who m).nickname = nickname ∧ c.isMemberOperator m = operator := by
  unfold Core.namesOf Channel.isMemberOperator
  rw [List.mem_map]
  constructor
  · rintro ⟨⟨m, flag⟩, hm, heq⟩
    have hget := ExtTreeMap.mem_toList_iff_getElem?_eq_some.1 hm
    cases heq
    exact ⟨m, ExtTreeMap.mem_iff_isSome_getElem?.2 (by rw [hget]; rfl), rfl, by rw [hget]; rfl⟩
  · rintro ⟨m, hm, rfl, rfl⟩
    obtain ⟨flag, hget⟩ := Option.isSome_iff_exists.1 (ExtTreeMap.mem_iff_isSome_getElem?.1 hm)
    exact ⟨(m, flag), ExtTreeMap.mem_toList_iff_getElem?_eq_some.2 hget, by rw [hget]; rfl⟩

/-- The nicknames in a list of names are words. -/
theorem namesOf_words (h : s.core.Ok) {key : Text} {c : Channel} (hc : s.channels[key]? = some c) :
    ∀ member ∈ s.core.namesOf c, member.2 ≠ [] ∧ ' ' ∉ member.2 := by
  rintro ⟨operator, nickname⟩ hmember
  obtain ⟨m, hm, rfl, -⟩ := mem_namesOf.1 hmember
  have hne := ((h.identity m).registered ((h.channel key c hc).members m hm)).2.1
  exact ⟨hne, (middle_nickname ((h.identity m).nickname hne)).2.2⟩

theorem parseParameters_space (room : Nat) (rest : Text) :
    Command.parseParameters room (' ' :: rest) = Command.parseParameters room rest := by
  rw [Command.parseParameters.eq_def, Command.parseParameters.eq_def room rest]
  rfl

theorem parseParameters_names_eq {nickname name : Text} (hnick : Middle nickname) (hname : Middle name)
    (names : Text) :
    Command.parseParameters maxCommandParameters
        (nickname ++ " = ".toList ++ name ++ " :".toList ++ names) =
      (true, [nickname, "=".toList, name, names]) := by
  have hwords : ∀ word ∈ [nickname, "=".toList, name], Middle word := by
    intro word hword
    simp only [List.mem_cons, List.not_mem_nil, or_false] at hword
    rcases hword with rfl | rfl | rfl
    · exact hnick
    · decide
    · exact hname
  have hspace : (" :".toList ++ names).head? = none ∨ (" :".toList ++ names).head? = some ' ' := Or.inr rfl
  have h := Command.parseParameters_words hwords hspace 12
  rw [Command.parseParameters_trailing] at h
  refine Eq.trans ?_ h
  rw [← parseParameters_space]
  refine congrArg (Command.parseParameters 15) ?_
  rw [show " = ".toList = [' '] ++ "=".toList ++ [' '] by decide]
  generalize "=".toList = sign
  generalize " :".toList = mark
  simp

/-- The text of a 353 is read back just when the name is a word and the list is read back. -/
theorem namesTell_iff (h : s.core.Ok) {key : Text} {c : Channel} (hc : s.channels[key]? = some c)
    (hA : A ∈ c.members) :
    s.NamesTell A c (s.namesText A c) ↔ ' ' ∉ c.name ∧
      ∀ m ∈ c.members, c.isMemberOperator m = false → (s.client m).nickname.head? ≠ some '@' := by
  have hok := h.channel key c hc
  have hnick : Middle (s.client A).nickname := by
    rw [client_nickname]
    exact middle_nickname ((h.identity A).nickname ((h.identity A).registered (hok.members A hA)).2.1)
  have hne : s.core.namesOf c ≠ [] := List.ne_nil_of_mem (mem_namesOf.2 ⟨A, hA, rfl, rfl⟩)
  have hlist := readNames_iff hne (namesOf_words h hc)
  have hplain : (∀ member ∈ s.core.namesOf c, member.1 = false → member.2.head? ≠ some '@') ↔
      ∀ m ∈ c.members, c.isMemberOperator m = false → (s.client m).nickname.head? ≠ some '@' := by
    constructor
    · intro hall m hm hop
      rw [client_nickname]
      exact hall _ (mem_namesOf.2 ⟨m, hm, rfl, rfl⟩) hop
    · rintro hall ⟨operator, nickname⟩ hmember hop
      obtain ⟨m, hm, rfl, rfl⟩ := mem_namesOf.1 hmember
      rw [← client_nickname]
      exact hall m hm hop
  rw [← hplain, ← hlist, ← Channel.middle_name hok.name]
  unfold NamesTell namesText
  simp only [mem_namesOf, ← client_nickname]
  constructor
  · rintro ⟨names, hparse, hread⟩
    have hname : Middle c.name := by
      apply Command.middle_of_mem_dropLast
      rw [hparse]
      simp
    rw [parseParameters_names_eq hnick hname] at hparse
    cases hparse
    exact ⟨hname, hread⟩
  · rintro ⟨hname, hread⟩
    exact ⟨_, parseParameters_names_eq hnick hname _, hread⟩

/-- The one list of names among what a joining client is sent. -/
theorem names_joinSignals {κ : Core} (c : Channel) :
    (linesFor A (κ.joinSignals A c)).filter Line.isNames =
      [.numeric "353".toList (κ.replyTarget A) (.names c.name (κ.namesOf c))] := by
  have hrelays : (linesFor A (toAll c.members.keys (.relay (κ.who A).source (.join c.name)))).filter
      Line.isNames = [] := by
    rw [List.filter_eq_nil_iff]
    intro line hline
    obtain ⟨fd, -, heq⟩ := List.mem_map.1 (mem_linesFor.1 hline)
    cases heq
    exact Bool.false_ne_true
  unfold Core.joinSignals Core.joinReplies
  rw [linesFor_append, List.filter_append, hrelays, List.nil_append]
  simp only [linesFor, if_true]
  split
  · rfl
  · rfl

theorem render_names (h : (s.core.who A).nickname ≠ []) (c : Channel) :
    (Line.numeric "353".toList (s.core.replyTarget A) (.names c.name (s.core.namesOf c))).render =
      ":ircserv 353 ".toList ++ s.namesText A c := by
  have htarget : s.core.replyTarget A = (s.client A).nickname := by
    unfold Core.replyTarget
    rw [if_neg (by rwa [List.isEmpty_iff]), client_nickname]
  have harguments : (Arguments.names c.name (s.core.namesOf c)).render.isEmpty = false := rfl
  unfold namesText
  show ":ircserv ".toList ++ "353".toList ++ " ".toList ++ s.core.replyTarget A ++
    (if (Arguments.names c.name (s.core.namesOf c)).render.isEmpty then [] else " ".toList ++
      ("= ".toList ++ c.name ++ " :".toList ++ (s.core.namesOf c).foldl Arguments.appendName [])) = _
  rw [harguments, htarget, if_neg Bool.false_ne_true]
  rw [show ":ircserv 353 ".toList = ":ircserv ".toList ++ "353".toList ++ " ".toList by decide,
    show " = ".toList = " ".toList ++ "= ".toList by decide]
  generalize ":ircserv ".toList = server
  generalize "353".toList = code
  generalize " ".toList = space
  generalize "= ".toList = sign
  generalize " :".toList = mark
  simp only [List.append_assoc]

section Joining

variable (h : Reachable s) (hs : s.Step (.line A line) s')
  (hparse : Command.parse line = ⟨true, "JOIN".toList, channelName :: rest⟩)
  (hfresh : ∀ c, s.findChannel channelName = some c → A ∉ c.members)
  (hc' : s'.findChannel channelName = some c') (hm : A ∈ c'.members)

include h hs hparse hfresh hc' hm

theorem Reachable.joined :
    s'.core.identities = s.core.identities ∧ s.Queued s' A (linesFor A (s.core.joinSignals A c')) ∧
      ((s.findChannel channelName = none ∧ c' = ({ name := channelName } : Channel).addMember A true) ∨
        ∃ c, s.findChannel channelName = some c ∧ c.hasMember A = false ∧
          c' = (c.addMember A false).removeInvite (s.core.who A).nickname) := by
  obtain ⟨hA, ⟨hinvalid, -⟩ | ⟨-, signals, heffect, hqueued⟩⟩ := h.queued hs
  · rw [hparse] at hinvalid
    cases hinvalid
  rw [hparse] at heffect
  obtain ⟨rfl, hidentities, hform⟩ := effect_joined heffect rfl hfresh hc' hm
  refine ⟨hidentities, hqueued A fun reason hmem => ?_, ?_⟩
  · exact absurd (show "JOIN".toList = "QUIT".toList from (heffect.disconnects hmem).2.1) (by decide)
  · rcases hform with ⟨hnone, name, rest, hparams, heq⟩ | hform
    · cases hparams
      exact Or.inl ⟨hnone, heq⟩
    · exact Or.inr hform

/-- A client that joins is sent one list of names. -/
theorem Reachable.queues_names : ∃ lines reply, s.Queued s' A lines ∧
    lines.filter Line.isNames = [reply] ∧ reply.render = ":ircserv 353 ".toList ++ s'.namesText A c' := by
  obtain ⟨hidentities, hqueued, -⟩ := h.joined hs hparse hfresh hc' hm
  have hr' := h.step hs
  have hne := ((hr'.ok.identity A).registered ((hr'.ok.channel _ c' hc').members A hm)).2.1
  refine ⟨_, _, hqueued, names_joinSignals c', ?_⟩
  rw [← render_names hne c']
  unfold Core.replyTarget Core.namesOf Core.who
  rw [hidentities]

theorem Reachable.namesLegible_iff : s.NamesLegible A channelName ↔ ' ' ∉ c'.name ∧
    ∀ m ∈ c'.members, c'.isMemberOperator m = false → (s'.client m).nickname.head? ≠ some '@' := by
  obtain ⟨hidentities, -, hform⟩ := h.joined hs hparse hfresh hc' hm
  have hclient (x : Fd) : (s'.client x).nickname = (s.client x).nickname := by
    rw [client_nickname, client_nickname]
    unfold Core.who
    rw [hidentities]
  simp only [hclient]
  unfold NamesLegible
  rcases hform with ⟨hnone, rfl⟩ | ⟨c, hc, hmem, rfl⟩
  · rw [hnone]
    dsimp only
    rw [Channel.addMember_eq rfl]
    refine (and_iff_left ?_).symm
    intro m hm hop
    obtain rfl : A = m := by simpa using hm
    rw [isMemberOperator_insert, if_pos rfl] at hop
    cases hop
  · rw [hc]
    dsimp only
    have hname : ((c.addMember A false).removeInvite (s.core.who A).nickname).name = c.name := by
      rw [Channel.addMember_eq hmem]
      rfl
    have hplain : c.isMemberOperator A = false := by
      rw [← isMemberOperator_joined (s.core.who A).nickname hmem]
      exact (joined_spec _ hmem).1
    rw [hname]
    refine and_congr Iff.rfl ?_
    simp only [isMemberOperator_joined _ hmem, (joined_spec _ hmem).2.2.2]
    constructor
    · rintro ⟨hown, hall⟩ m (rfl | hm) hop
      · exact hown
      · exact hall m hm hop
    · intro hall
      exact ⟨hall A (Or.inl rfl) hplain, fun m hm => hall m (Or.inr hm)⟩

end Joining

/-- **The list of names is read back exactly when the name of the channel has no space and no
plain member's nickname looks like an operator's.** -/
theorem names_decode (h : Reachable s) (hs : s.Step (.line A line) s')
    (hparse : Command.parse line = ⟨true, "JOIN".toList, channelName :: rest⟩)
    (hfresh : ∀ c, s.findChannel channelName = some c → A ∉ c.members)
    (hc' : s'.findChannel channelName = some c') (hm : A ∈ c'.members) :
    ∃ lines reply text, s.Queued s' A lines ∧ lines.filter Line.isNames = [reply] ∧
      reply.render = ":ircserv 353 ".toList ++ text ∧
      (s'.NamesTell A c' text ↔ s.NamesLegible A channelName) := by
  obtain ⟨lines, reply, hqueued, hreply, hrender⟩ := h.queues_names hs hparse hfresh hc' hm
  refine ⟨lines, reply, _, hqueued, hreply, hrender, ?_⟩
  rw [namesTell_iff (h.step hs).ok hc' hm, h.namesLegible_iff hs hparse hfresh hc' hm]

/-- `al`, on 5, joins `bob`, the operator, on `#c`. -/
theorem names_decode_session :
    ∃ s' c' text, session.Step (.line 5 "JOIN #C".toList) s' ∧ s'.NamesTell 5 c' text := by
  have hview : (session.step (.line 5 "JOIN #C".toList)).any
        (fun s' => (s'.findChannel "#C".toList).any (·.hasMember 5)) = true ∧
      (session.findChannel "#C".toList).map (fun c => (c.name, c.members.toList)) =
        some ("#c".toList, [(4, true)]) ∧
      (session.client 5).nickname = "al".toList := by decide +kernel
  have hr := session_reachable
  generalize session = s at *
  obtain ⟨hview, hbefore, hnick⟩ := hview
  obtain ⟨s', hs, hview⟩ := (Option.any_eq_true _ _).1 hview
  obtain ⟨c', hc', hm⟩ := (Option.any_eq_true _ _).1 hview
  obtain ⟨c, hc, hfields⟩ := Option.map_eq_some_iff.1 hbefore
  simp only [Prod.mk.injEq] at hfields
  obtain ⟨hname, hmembers⟩ := hfields
  have hmember (m : Fd) (hm : m ∈ c.members) : m = 4 ∧ c.isMemberOperator m = true := by
    obtain ⟨flag, hflag⟩ := Option.isSome_iff_exists.1 (ExtTreeMap.mem_iff_isSome_getElem?.1 hm)
    have hmem := ExtTreeMap.mem_toList_iff_getElem?_eq_some.2 hflag
    rw [hmembers] at hmem
    cases List.mem_singleton.1 hmem
    exact ⟨rfl, by unfold Channel.isMemberOperator; rw [hflag]; rfl⟩
  have hfresh : ∀ c₁, s.findChannel "#C".toList = some c₁ → 5 ∉ c₁.members := by
    intro c₁ hc₁ hm₁
    cases hc.symm.trans hc₁
    exact absurd (hmember 5 hm₁).1 (by decide)
  obtain ⟨_, _, text, -, -, -, hiff⟩ := names_decode hr hs
    (show Command.parse "JOIN #C".toList = ⟨true, "JOIN".toList, ["#C".toList]⟩ by decide) hfresh hc'
    ((hasMember_iff c' 5).1 hm)
  refine ⟨s', c', text, hs, hiff.2 ?_⟩
  unfold NamesLegible
  rw [hc]
  dsimp only
  rw [hname, hnick]
  refine ⟨by decide, by decide, fun m hm hop => ?_⟩
  rw [(hmember m hm).2] at hop
  cases hop

/-- `al` calls itself `@al` and joins `bob` on `#c`: it reads of two operators, `bob` and `al`. -/
theorem plain_member_marked : ¬ ∀ (s s' : Server) (A : Fd) (line channelName : Text) (rest : List Text)
    (c' : Channel) (lines : List Line) (reply : Line) (text : Text), Reachable s →
    s.Step (.line A line) s' → Command.parse line = ⟨true, "JOIN".toList, channelName :: rest⟩ →
    (∀ c, s.findChannel channelName = some c → A ∉ c.members) →
    s'.findChannel channelName = some c' → A ∈ c'.members → s.Queued s' A lines →
    lines.filter Line.isNames = [reply] → reply.render = ":ircserv 353 ".toList ++ text →
    s'.NamesTell A c' text := by
  intro hall
  have hview : (session.step (.line 5 "NICK @al".toList)).any (fun s =>
      (s.findChannel "#c".toList).any (fun c => !c.hasMember 5) &&
      (s.step (.line 5 "JOIN #c".toList)).any fun s' =>
        (s'.findChannel "#c".toList).any fun c' => c'.hasMember 5 && !c'.isMemberOperator 5 &&
          (s'.client 5).nickname == "@al".toList) = true := by decide +kernel
  have hr := session_reachable
  generalize session = s₀ at *
  obtain ⟨s, hs₀, hview⟩ := (Option.any_eq_true _ _).1 hview
  rw [Bool.and_eq_true] at hview
  obtain ⟨hbefore, hview⟩ := hview
  obtain ⟨c, hc, hnot⟩ := (Option.any_eq_true _ _).1 hbefore
  obtain ⟨s', hs, hview⟩ := (Option.any_eq_true _ _).1 hview
  obtain ⟨c', hc', hview⟩ := (Option.any_eq_true _ _).1 hview
  simp only [Bool.and_eq_true, Bool.not_eq_true', beq_iff_eq] at hview hnot
  obtain ⟨⟨hm, hop⟩, hnick⟩ := hview
  have hr := hr.step hs₀
  have hm := (hasMember_iff c' 5).1 hm
  have hfresh : ∀ c₁, s.findChannel "#c".toList = some c₁ → 5 ∉ c₁.members := by
    intro c₁ hc₁ hm₁
    cases hc.symm.trans hc₁
    rw [(hasMember_iff c 5).2 hm₁] at hnot
    cases hnot
  have hparse : Command.parse "JOIN #c".toList = ⟨true, "JOIN".toList, ["#c".toList]⟩ := by decide
  obtain ⟨lines, reply, hqueued, hreply, hrender⟩ := hr.queues_names hs hparse hfresh hc' hm
  have htell := hall s s' 5 _ _ _ c' lines reply _ hr hs hparse hfresh hc' hm hqueued hreply hrender
  have hplain := ((namesTell_iff (hr.step hs).ok hc' hm).1 htell).2 5 hm hop
  rw [hnick] at hplain
  exact hplain (by decide)

end Server

end FtIrc
