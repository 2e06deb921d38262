import FtIrc.Parsing
import FtIrc.Relays

/-!
# Relays read back

A client that takes `:prefix ` off a relay and parses the rest as the server parses a line
finds the command and the parameters that were meant, for all but the arguments of MODE
(`Server.relays_decode`, `Server.mode_relay_decodes`).
-/

namespace FtIrc

open Std

/-! ## A relay as a command -/

namespace Relay

def isMode : Relay → Bool
  | .mode .. => true
  | _ => false

def name : Relay → Text
  | .join _ => "JOIN".toList
  | .privmsg .. => "PRIVMSG".toList
  | .topic .. => "TOPIC".toList
  | .kick .. => "KICK".toList
  | .invite .. => "INVITE".toList
  | .nick _ => "NICK".toList
  | .mode .. => "MODE".toList
  | .quit _ => "QUIT".toList

/-- The parameters that are put in as they are, without a `:` in front. -/
def words : Relay → List Text
  | .privmsg target _ => [target]
  | .topic channel _ => [channel]
  | .kick channel nickname _ => [channel, nickname]
  | .invite nickname _ => [nickname]
  | .mode channel change => [channel, [if change.adding then '+' else '-', change.mode]]
  | _ => []

/-- The parameter behind them. -/
def last : Relay → Option Text
  | .join channel => some channel
  | .privmsg _ text => some text
  | .topic _ newTopic => some newTopic
  | .kick _ _ reason => some reason
  | .invite _ channel => some channel
  | .nick nickname => some nickname
  | .mode _ change => if change.hasArgument then some change.argument else none
  | .quit reason => some reason

/-- The parameters a reader of the relay is to find. -/
def parameters : Relay → List Text
  | .join channel => [channel]
  | .privmsg target text => [target, text]
  | .topic channel newTopic => [channel, newTopic]
  | .kick channel nickname reason => [channel, nickname, reason]
  | .invite nickname channel => [nickname, channel]
  | .nick nickname => [nickname]
  | .mode channel change =>
    [channel, [if change.adding then '+' else '-', change.mode]] ++
      if change.hasArgument then [change.argument] else []
  | .quit reason => [reason]

theorem parameters_eq (event : Relay) : event.parameters = event.words ++ event.last.toList := by
  cases event with
  | mode channel change =>
    show _ ++ _ = _ ++ (if change.hasArgument then some change.argument else none).toList
    cases change.hasArgument <;> rfl
  | _ => rfl

theorem name_spec (event : Relay) : Middle event.name ∧ Command.normalizeName event.name = event.name := by
  have hnames : ∀ name ∈ commandNames, Middle name ∧ Command.normalizeName name = name := by decide
  cases event <;> exact hnames _ (List.elem_iff.1 rfl)

theorem length_words (event : Relay) : event.words.length ≤ 2 := by
  cases event <;> simp [words]

section Encode

variable (name word word' text : Text)

theorem encode_text : name ++ " :".toList ++ text = Command.encode name [] (some text) :=
  List.append_assoc _ _ _

theorem encode_word : name ++ [' '] ++ word ++ " :".toList ++ text =
    Command.encode name [word] (some text) := by
  unfold Command.encode
  generalize " :".toList = mark
  simp

theorem encode_words : name ++ [' '] ++ word ++ [' '] ++ word' ++ " :".toList ++ text =
    Command.encode name [word, word'] (some text) := by
  unfold Command.encode
  generalize " :".toList = mark
  simp

end Encode

/-- All but MODE put their last parameter behind a `:`. -/
theorem render_eq {event : Relay} (h : event.isMode = false) :
    event.render = Command.encode event.name event.words event.last := by
  cases event with
  | mode => cases h
  | join channel =>
    have hname : "JOIN :".toList = "JOIN".toList ++ " :".toList := by decide
    show "JOIN :".toList ++ channel = _
    rw [hname]
    exact encode_text _ channel
  | nick nickname =>
    have hname : "NICK :".toList = "NICK".toList ++ " :".toList := by decide
    show "NICK :".toList ++ nickname = _
    rw [hname]
    exact encode_text _ nickname
  | quit reason =>
    have hname : "QUIT :".toList = "QUIT".toList ++ " :".toList := by decide
    show "QUIT :".toList ++ reason = _
    rw [hname]
    exact encode_text _ reason
  | privmsg target text =>
    have hname : "PRIVMSG ".toList = "PRIVMSG".toList ++ [' '] := by decide
    show "PRIVMSG ".toList ++ target ++ " :".toList ++ text = _
    rw [hname]
    exact encode_word _ target text
  | topic channel newTopic =>
    have hname : "TOPIC ".toList = "TOPIC".toList ++ [' '] := by decide
    show "TOPIC ".toList ++ channel ++ " :".toList ++ newTopic = _
    rw [hname]
    exact encode_word _ channel newTopic
  | invite nickname channel =>
    have hname : "INVITE ".toList = "INVITE".toList ++ [' '] := by decide
    show "INVITE ".toList ++ nickname ++ " :".toList ++ channel = _
    rw [hname]
    exact encode_word _ nickname channel
  | kick channel nickname reason =>
    have hname : "KICK ".toList = "KICK".toList ++ [' '] := by decide
    have hspace : " ".toList = [' '] := by decide
    show "KICK ".toList ++ channel ++ " ".toList ++ nickname ++ " :".toList ++ reason = _
    rw [hname, hspace]
    exact encode_words _ channel nickname reason

theorem parse_render {event : Relay} (h : event.isMode = false) (hwords : ∀ word ∈ event.words, Middle word) :
    Command.parse event.render = ⟨true, event.name, event.parameters⟩ := by
  obtain ⟨hname, hupper⟩ := event.name_spec
  have hroom : event.words.length < maxCommandParameters :=
    event.length_words.trans_lt (by decide)
  rw [render_eq h, Command.parse_encode hname hwords _ hroom, hupper, parameters_eq]

/-- MODE puts its argument in as it is. -/
theorem render_mode (channel : Text) (change : ModeChange) :
    (Relay.mode channel change).render = (Relay.mode channel change).name ++
      ((Relay.mode channel change).words.flatMap (' ' :: ·) ++
        if change.hasArgument then ' ' :: change.argument else []) := by
  have hname : "MODE ".toList = "MODE".toList ++ [' '] := by decide
  have hspace : " ".toList = [' '] := by decide
  have hsign : (if change.adding then "+" else "-").toList = [if change.adding then '+' else '-'] := by
    cases change.adding <;> decide
  show "MODE ".toList ++ channel ++ " ".toList ++ (if change.adding then "+" else "-").toList ++
    [change.mode] ++ (if change.hasArgument then " ".toList ++ change.argument else []) = _
  rw [hname, hspace, hsign]
  unfold name words
  generalize "MODE".toList = name
  cases change.hasArgument <;> simp

/-- An argument is read back just when it is a word. -/
theorem parse_render_mode {channel : Text} {change : ModeChange} (hchannel : Middle channel)
    (hmode : change.mode ≠ ' ') :
    Command.parse (Relay.mode channel change).render =
        ⟨true, "MODE".toList, (Relay.mode channel change).parameters⟩ ↔
      (change.hasArgument = true → Middle change.argument) := by
  obtain ⟨hname, hupper⟩ := (Relay.mode channel change).name_spec
  have hwords : ∀ word ∈ (Relay.mode channel change).words, Middle word := by
    intro word hword
    simp only [words, List.mem_cons, List.not_mem_nil, or_false] at hword
    rcases hword with rfl | rfl
    · exact hchannel
    · refine ⟨List.cons_ne_nil _ _, ?_, ?_⟩
      · split <;> simp
      · split <;> simp [hmode.symm]
  have hrest : (if change.hasArgument then ' ' :: change.argument else []).head? = none ∨
      (if change.hasArgument then ' ' :: change.argument else []).head? = some ' ' := by
    split
    · exact Or.inr rfl
    · exact Or.inl rfl
  have hroom : (Relay.mode channel change).words.length + 13 = maxCommandParameters := rfl
  rw [render_mode, Command.parse_words hname hwords hrest hroom, hupper]
  show _ = (⟨true, _, _ ++ if change.hasArgument then [change.argument] else []⟩ : Command) ↔ _
  cases hargument : change.hasArgument with
  | false =>
    rw [if_neg Bool.false_ne_true, if_neg Bool.false_ne_true, Command.parseParameters_blank rfl]
    exact iff_of_true rfl fun h => absurd h Bool.false_ne_true
  | true =>
    rw [if_pos rfl, if_pos rfl]
    constructor
    · intro h _
      have hlast : _ ++ _ = _ ++ [change.argument] := congrArg Command.parameters h
      exact Command.middle_of_parseParameters (List.append_cancel_left hlast)
    · intro h
      have hone := Command.parseParameters_middle (h rfl)
        (show ([] : Text).head? = none ∨ _ from Or.inl rfl) 12
      have hnil : Command.parseParameters 12 [] = (true, []) := Command.parseParameters_blank rfl
      rw [List.append_nil, hnil] at hone
      rw [hone]
      rfl

end Relay

/-! ## Words -/

/-- Folding makes and loses no word. -/
theorem middle_fold {text : Text} : Middle (ircCaseFold text) ↔ Middle text := by
  unfold Middle
  refine and_congr (not_congr ircCaseFold_eq_nil) (and_congr (not_congr ?_) (not_congr ?_))
  · cases text with
    | nil => exact Iff.rfl
    | cons c cs =>
      have hc := foldChar_eq_iff (c := c) (d := ':') (by decide)
      simpa [ircCaseFold] using hc
  · unfold ircCaseFold
    rw [List.mem_map]
    constructor
    · rintro ⟨c, hc, heq⟩
      rw [foldChar_eq_iff (by decide)] at heq
      exact heq ▸ hc
    · exact fun h => ⟨' ', h, by decide⟩

theorem middle_congr {left right : Text} (h : ircCaseFold left = ircCaseFold right) (hleft : Middle left) :
    Middle right := by
  rw [← middle_fold, ← h, middle_fold]
  exact hleft

theorem middle_nickname {nickname : Text} (h : Server.isValidNickname nickname = true) :
    Middle nickname := by
  unfold Server.isValidNickname at h
  split at h
  · cases h
  next first rest =>
  split at h
  · cases h
  next hfirst =>
  refine ⟨List.cons_ne_nil _ _, ?_, fun hspace => ?_⟩
  · rw [List.head?_cons]
    intro heq
    exact hfirst (Or.inr (Or.inr (Option.some.inj heq)))
  · have := List.all_eq_true.1 h _ hspace
    simp at this

namespace Server

variable {s s' : Server} {e : Event} {A : Fd} {command : Command}

/-! ## Prefixes -/

/-- No username has a space: it was not the last parameter of USER. -/
theorem Reachable.username (h : Reachable s) : ∀ x, ' ' ∉ (s.core.who x).username := by
  refine h.invariant (I := fun s => ∀ x, ' ' ∉ (s.core.who x).username) ?_ ?_
  · intro listenerFd password x
    exact List.not_mem_nil
  · intro s e s' hr ih hs x
    cases hr.move hs with
    | quiet hcore => rw [hcore]; exact ih x
    | connect hnew hcore => rw [hcore, Core.who_connect hnew]; exact ih x
    | @command fd line _ signals hlive hvalid heffect =>
      by_cases hx : fd = x
      swap
      · rw [heffect.who_of_ne hx]
        exact ih x
      subst hx
      have hmove := heffect.identityMove hlive
      generalize s'.core.who fd = id' at hmove ⊢
      have hsame := ih fd
      cases hmove with
      | same => exact hsame
      | pass =>
        rw [Identity.complete_field (g := Identity.username) fun _ => rfl]
        exact hsame
      | user username mode unused realname rest _ _ hparams =>
        rw [Identity.complete_field (g := Identity.username) fun _ => rfl]
        have hmem : username ∈ (Command.parse line).parameters.dropLast := by
          rw [hparams]
          exact List.mem_cons_self
        exact (Command.parse_middle hmem).2.2
      | nick =>
        rw [Identity.complete_field (g := Identity.username) fun _ => rfl]
        exact hsame
    | @disconnect _ p _ _ _ _ _ hcore =>
      rw [hcore, Core.who_disconnect]
      split
      · exact List.not_mem_nil
      · exact ih x

theorem Reachable.source (h : Reachable s) (x : Fd) : ' ' ∉ (s.client x).source.render := by
  have hnick : ' ' ∉ (s.core.who x).nickname := by
    by_cases hne : (s.core.who x).nickname = []
    · rw [hne]
      exact List.not_mem_nil
    · exact (middle_nickname ((h.ok.identity x).nickname hne)).2.2
  have hmark : ' ' ∉ "!".toList := by decide
  have hhost : ' ' ∉ "@localhost".toList := by decide
  rw [client_source]
  show ' ' ∉ (s.core.who x).nickname ++ "!".toList ++ (s.core.who x).username ++ "@localhost".toList
  rw [List.mem_append, List.mem_append, List.mem_append]
  rintro (((hmem | hmem) | hmem) | hmem)
  · exact hnick hmem
  · exact hmark hmem
  · exact h.username x hmem
  · exact hhost hmem

/-! ## What a command tells -/

/-- What a command of the client on `A` means to tell the readers of its relay. -/
inductive Told (s : Server) (A : Fd) (command : Command) : Relay → Prop
  | create (channelName : Text) (rest : List Text) : command.name = "JOIN".toList →
      command.parameters = channelName :: rest → s.findChannel channelName = none →
      Told s A command (.join channelName)
  | join (channelName : Text) (rest : List Text) (c : Channel) : command.name = "JOIN".toList →
      command.parameters = channelName :: rest → s.findChannel channelName = some c →
      Told s A command (.join c.name)
  | privmsgChannel (targetName text : Text) (rest : List Text) (c : Channel) :
      command.name = "PRIVMSG".toList → command.parameters = targetName :: text :: rest →
      s.findChannel targetName = some c → Told s A command (.privmsg targetName text)
  | privmsgUser (targetName text : Text) (rest : List Text) (target : Fd) :
      command.name = "PRIVMSG".toList → command.parameters = targetName :: text :: rest →
      s.findClientByNickname targetName = some target →
      Told s A command (.privmsg (s.client target).nickname text)
  | topic (channelName newTopic : Text) (rest : List Text) (c : Channel) :
      command.name = "TOPIC".toList → command.parameters = channelName :: newTopic :: rest →
      s.findChannel channelName = some c → Told s A command (.topic channelName newTopic)
  | kick (channelName targetNick : Text) (rest : List Text) (c : Channel) (target : Fd) :
      command.name = "KICK".toList → command.parameters = channelName :: targetNick :: rest →
      s.findChannel channelName = some c → s.findClientByNickname targetNick = some target →
      target ∈ c.members →
      Told s A command (.kick channelName targetNick (rest.head?.getD (s.client A).nickname))
  | invite (targetNick channelName : Text) (rest : List Text) (c : Channel) (target : Fd) :
      command.name = "INVITE".toList → command.parameters = targetNick :: channelName :: rest →
      s.findClientByNickname targetNick = some target → s.findChannel channelName = some c →
      Told s A command (.invite targetNick channelName)
  | nick (nickname : Text) (rest : List Text) : command.name = "NICK".toList →
      command.parameters = nickname :: rest → Told s A command (.nick nickname)
  | mode (target : Text) (rest : List Text) (c d d' : Channel) (changes : List ModeChange)
      (change : ModeChange) : command.name = "MODE".toList → command.parameters = target :: rest →
      s.findChannel target = some c → parseChannelModeChanges command.parameters = some changes →
      change ∈ changes → ModeApplied s.core change d d' → Told s A command (.mode c.name change)

end Server

theorem ModeApplied.mode_ne {κ : Core} {change : ModeChange} {c c' : Channel}
    (h : ModeApplied κ change c c') : change.mode ≠ ' ' := by
  cases h with
  | inviteOnly hmode => rw [hmode]; decide
  | topicRestricted hmode => rw [hmode]; decide
  | setKey hmode => rw [hmode]; decide
  | removeKey hmode => rw [hmode]; decide
  | setOperator _ hmode => rw [hmode]; decide
  | setUserLimit _ hmode => rw [hmode]; decide
  | removeUserLimit hmode => rw [hmode]; decide

theorem relay_toAll {m : Fd} {source source' : Source} {event event' : Relay} {fds : List Fd}
    (h : .line m (.relay source event) ∈ toAll fds (.relay source' event')) :
    source = source' ∧ event = event' := by
  obtain ⟨fd, -, heq⟩ := List.mem_map.1 h
  cases heq
  exact ⟨rfl, rfl⟩

/-- A MODE line announces changes of its own that it has applied. -/
theorem ModeRun.relay {κ κ' : Core} {fd m : Fd} {key : Text} {changes : List ModeChange}
    {signals : List Signal} (h : ModeRun fd key κ changes κ' signals) {c : Channel}
    (hc : κ.channels[key]? = some c) {source : Source} {event : Relay}
    (hx : .line m (.relay source event) ∈ signals) :
    source = (κ.who fd).source ∧ ∃ change ∈ changes, event = .mode c.name change ∧
      ∃ d d', ModeApplied κ change d d' := by
  induction h generalizing c with
  | nil => cases hx
  | refused line hreply _ ih =>
    rcases List.mem_cons.1 hx with heq | hx
    · cases heq
      cases hreply
    · obtain ⟨hsource, change, hmem, h⟩ := ih hc hx
      exact ⟨hsource, change, List.mem_cons_of_mem _ hmem, h⟩
  | unchanged _ ih =>
    obtain ⟨hsource, change, hmem, h⟩ := ih hc hx
    exact ⟨hsource, change, List.mem_cons_of_mem _ hmem, h⟩
  | @applied κ _ change _ _ d d' hd happ _ ih =>
    cases hd.symm.trans hc
    rcases List.mem_append.1 hx with hx | hx
    · obtain ⟨rfl, rfl⟩ := relay_toAll hx
      rw [happ.name.1]
      exact ⟨rfl, change, List.mem_cons_self, rfl, _, d', happ⟩
    · obtain ⟨hsource, later, hmem, rfl, b, b', hlater⟩ :=
        ih (by rw [Core.getElem?_setChannel, if_pos rfl]) hx
      rw [happ.name.1]
      exact ⟨hsource, later, List.mem_cons_of_mem _ hmem, rfl, b, b', hlater.congr fun _ => rfl⟩

namespace Server

variable {s s' : Server} {e : Event} {A : Fd} {command : Command}

/-- Every relay of a command has its client's prefix, and tells what the command meant. -/
theorem told {κ' : Core} {signals : List Signal} (he : Effect s.core A command κ' signals) {m : Fd}
    {source : Source} {event : Relay} (hx : .line m (.relay source event) ∈ signals) :
    source = (s.client A).source ∧ s.Told A command event := by
  have hwelcome {κ : Core} : .line m (.relay source event) ∉ κ.welcome A := by
    unfold Core.welcome
    split <;> simp
  have hreplies {κ : Core} {c : Channel} : .line m (.relay source event) ∉ κ.joinReplies A c := by
    intro hmem
    obtain ⟨line, heq, hnot⟩ := joinReplies_spec _ hmem
    cases heq
    cases hnot
  rw [client_source]
  cases he with
  | silent => cases hx
  | reply line hreply =>
    cases List.mem_singleton.1 hx
    cases hreply
  | quit => simp at hx
  | pass => exact absurd hx hwelcome
  | user => exact absurd hx hwelcome
  | nick nickname rest _ hname hparams =>
    rcases List.mem_append.1 hx with hx | hx
    · obtain ⟨rfl, rfl⟩ := relay_toAll hx
      exact ⟨rfl, .nick nickname rest hname hparams⟩
    · exact absurd hx hwelcome
  | create channelName rest hname hparams _ _ hnone =>
    rcases List.mem_append.1 hx with hx | hx
    · obtain ⟨rfl, rfl⟩ := relay_toAll hx
      refine ⟨rfl, ?_⟩
      rw [Channel.addMember_eq rfl]
      exact .create channelName rest hname hparams hnone
    · exact absurd hx hreplies
  | join channelName rest c hname hparams _ _ hc hmem =>
    rcases List.mem_append.1 hx with hx | hx
    · obtain ⟨rfl, rfl⟩ := relay_toAll hx
      refine ⟨rfl, ?_⟩
      rw [Channel.addMember_eq hmem]
      exact .join channelName rest c hname hparams hc
    · exact absurd hx hreplies
  | privmsgChannel targetName text rest c hname hparams _ _ hc =>
    obtain ⟨rfl, rfl⟩ := relay_toAll hx
    exact ⟨rfl, .privmsgChannel targetName text rest c hname hparams hc⟩
  | privmsgUser targetName text rest target hname hparams _ _ hholder =>
    cases List.mem_singleton.1 hx
    rw [← client_nickname]
    exact ⟨rfl, .privmsgUser targetName text rest _ hname hparams
      ((findClientByNickname_eq s _).trans hholder)⟩
  | topic channelName newTopic rest c hname hparams _ hc =>
    obtain ⟨rfl, rfl⟩ := relay_toAll hx
    exact ⟨rfl, .topic channelName newTopic rest c hname hparams hc⟩
  | kick channelName targetNick rest c target hname hparams _ hc _ hholder hmem =>
    obtain ⟨rfl, rfl⟩ := relay_toAll hx
    rw [← client_nickname]
    exact ⟨rfl, .kick channelName targetNick rest c target hname hparams hc
      ((findClientByNickname_eq s _).trans hholder) ((hasMember_iff c target).1 hmem)⟩
  | invite targetNick channelName rest c target hname hparams _ hholder hc =>
    simp only [List.mem_cons, List.not_mem_nil, or_false, Signal.line.injEq, reduceCtorEq, and_false,
      false_or, Line.relay.injEq] at hx
    obtain ⟨-, rfl, rfl⟩ := hx
    exact ⟨rfl, .invite targetNick channelName rest c target hname hparams
      ((findClientByNickname_eq s _).trans hholder) hc⟩
  | mode target rest c changes _ _ hname hparams _ hc _ hchanges hrun =>
    obtain ⟨rfl, change, hmem, rfl, d, d', happ⟩ := hrun.relay hc hx
    exact ⟨rfl, .mode target rest c d d' changes change hname hparams hc hchanges hmem happ⟩

/-! ## Words again -/

section Words

variable {line : Text}

/-- A parameter with another behind it. -/
theorem middle_first {p q : Text} {rest : List Text} (h : (Command.parse line).parameters = p :: q :: rest) :
    Middle p := by
  have hmem : p ∈ (Command.parse line).parameters.dropLast := by
    rw [h]
    exact List.mem_cons_self
  exact Command.parse_middle hmem

theorem middle_holder (hok : s.core.Ok) {nickname : Text} {target : Fd}
    (h : s.findClientByNickname nickname = some target) :
    Middle (s.client target).nickname ∧ Middle nickname := by
  rw [findClientByNickname_eq, hok.holder_eq_some, Core.label_eq_some] at h
  rw [client_nickname]
  have hmiddle := middle_nickname ((hok.identity target).nickname h.1)
  exact ⟨hmiddle, middle_congr h.2 hmiddle⟩

/-- What a relay puts in as a word is one. -/
theorem Told.words {event : Relay} (ht : s.Told A (Command.parse line) event) (hok : s.core.Ok)
    (hmode : event.isMode = false) : ∀ word ∈ event.words, Middle word := by
  cases ht with
  | create => nofun
  | join => nofun
  | privmsgChannel targetName text rest c _ hparams =>
    intro word hword
    cases List.mem_singleton.1 hword
    exact middle_first hparams
  | privmsgUser targetName text rest target _ _ hholder =>
    intro word hword
    cases List.mem_singleton.1 hword
    exact (middle_holder hok hholder).1
  | topic channelName newTopic rest c _ hparams =>
    intro word hword
    cases List.mem_singleton.1 hword
    exact middle_first hparams
  | kick channelName targetNick rest c target _ hparams _ hholder =>
    intro word hword
    rcases List.mem_cons.1 hword with rfl | hword
    · exact middle_first hparams
    · -- the nickname may be the last parameter, but it folds to a nickname
      cases List.mem_singleton.1 hword
      exact (middle_holder hok hholder).2
  | invite targetNick channelName rest c target _ hparams =>
    intro word hword
    cases List.mem_singleton.1 hword
    exact middle_first hparams
  | nick => nofun
  | mode => cases hmode

theorem Told.channel {channel : Text} {change : ModeChange}
    (ht : s.Told A (Command.parse line) (.mode channel change)) (hok : s.core.Ok) :
    Middle channel ∧ change.mode ≠ ' ' := by
  cases ht with
  | mode target rest c d d' changes _ _ hparams hc hchanges _ happ =>
    cases rest with
    | nil =>
      rw [hparams] at hchanges
      cases hchanges
    | cons modes rest =>
      exact ⟨middle_congr (hok.channel _ c hc).key.symm (middle_first hparams), happ.mode_ne⟩

end Words

/-! ## What a step tells -/

/-- What a step means to tell, and the source it names. -/
inductive Means (s : Server) : Event → Source → Relay → Prop
  | command (A : Fd) (line : Text) (event : Relay) : (Command.parse line).valid = true →
      s.Told A (Command.parse line) event → Means s (.line A line) (s.client A).source event
  | quit (index : Nat) (p : PollFd) : s.pollFds[index]? = some p →
      Means s (.remove index) (s.client p.fd).source
        (.quit (if (s.client p.fd).disconnectReason.isEmpty then "Connection closed".toList
          else (s.client p.fd).disconnectReason))

/-- A step queues the lines of a command, or the QUIT of the client it removes. -/
theorem Reachable.spoken (hr : Reachable s) (hs : s.Step e s') {actions : List Action}
    (hlog : s'.log = s.log ++ actions) {m : Fd} {l : Line} {accepted : Bool}
    (hq : .queued m l accepted ∈ actions) :
    (∃ A line signals, e = .line A line ∧ (Command.parse line).valid = true ∧
      Effect s.core A (Command.parse line) s'.core signals ∧ .line m l ∈ signals ∧
      ∀ x, (∀ reason, .disconnect x reason ∉ signals) → s.Queued s' x (linesFor x signals)) ∨
    ∃ index p, e = .remove index ∧ s.pollFds[index]? = some p ∧ l = s.farewell p.fd := by
  cases hr.move hs with
  | quiet _ hquiet =>
    obtain ⟨quiet, hquietLog, hall⟩ := hquiet.log
    cases List.append_cancel_left (hlog.symm.trans hquietLog)
    cases hall _ hq
  | @connect fd _ _ _ hwire =>
    cases List.append_cancel_left (hlog.symm.trans (show s'.log = s.log ++ [.accepted fd] from
      congrArg Wire.log hwire))
    simp at hq
  | @command A line _ signals hA hvalid heffect hwire =>
    obtain ⟨delivered, hdelivered, hqueued⟩ := ((s.wire.record (.completeLine A line)).record
      (.dispatched A (Command.parse line))).log_deliver_queued signals
    cases List.append_cancel_left (hlog.symm.trans (log_handled hwire hdelivered))
    have hmem : .queued m l accepted ∈ delivered := by simpa using hq
    exact Or.inl ⟨A, line, signals, rfl, hvalid, heffect,
      mem_linesFor.1 (hqueued m ▸ mem_queuedTo.2 ⟨accepted, hmem⟩),
      fun x hx => queued_dispatched hwire (heffect.signals_live hr.ok hA) hx⟩
  | @disconnect index p _ recipients pollFds hp _ _ _ hwire =>
    obtain ⟨delivered, hdelivered, hqueued⟩ :=
      s.wire.log_deliver_queued (toAll recipients (s.quitLine p.fd))
    cases List.append_cancel_left (hlog.symm.trans (log_removed hwire hdelivered))
    have hmem : .queued m l accepted ∈ delivered := by simpa using hq
    have hline := mem_linesFor.1 (hqueued m ▸ mem_queuedTo.2 ⟨accepted, hmem⟩)
    obtain ⟨fd, -, heq⟩ := List.mem_map.1 hline
    cases heq
    exact Or.inr ⟨index, p, rfl, hp, quitLine_eq s p.fd⟩

theorem Reachable.means (hr : Reachable s) (hs : s.Step e s') {actions : List Action}
    (hlog : s'.log = s.log ++ actions) {m : Fd} {source : Source} {event : Relay} {accepted : Bool}
    (hq : .queued m (.relay source event) accepted ∈ actions) : s.Means e source event := by
  rcases hr.spoken hs hlog hq with ⟨A, line, signals, rfl, hvalid, heffect, hx, -⟩ | ⟨index, p, rfl, hp, heq⟩
  · obtain ⟨rfl, ht⟩ := told heffect hx
    exact .command A line event hvalid ht
  · cases heq
    exact .quit index p hp

/-- The entries of a step are behind those that there were. -/
theorem Reachable.news {line : Text} (hr : Reachable s) (hs : s.Step (.line A line) s') (n : Nat) :
    ∃ actions, s'.log = s.log ++ actions ∧ ∀ a ∈ s'.log.drop (s.log.length + n), a ∈ actions := by
  obtain ⟨actions, hlog, -⟩ := hr.voiced hs
  refine ⟨actions, hlog, fun a ha => ?_⟩
  rw [hlog, List.drop_length_add_append] at ha
  exact (List.drop_sublist n actions).subset ha

/-- **A relay is read back as what was meant.** -/
theorem relays_decode (h : Reachable s) (hs : s.Step e s') {actions : List Action}
    (hlog : s'.log = s.log ++ actions) {m : Fd} {source : Source} {event : Relay} {accepted : Bool}
    (hq : .queued m (.relay source event) accepted ∈ actions) (hmode : event.isMode = false) :
    s.Means e source event ∧
    (Line.relay source event).render = ":".toList ++ source.render ++ " ".toList ++ event.render ∧
    ' ' ∉ source.render ∧
    Command.parse event.render = ⟨true, event.name, event.parameters⟩ := by
  have hmeans := h.means hs hlog hq
  refine ⟨hmeans, rfl, ?_, ?_⟩
  · cases hmeans with
    | command A => exact h.source A
    | quit _ p => exact h.source p.fd
  · refine Relay.parse_render hmode ?_
    cases hmeans with
    | command A line event hvalid ht => exact ht.words h.ok hmode
    | quit => nofun

/-- `bob`, on 4, sends `al` a text that begins with a `:` and has a space. -/
theorem relays_decode_session :
    session.Means (.line 4 "PRIVMSG AL ::) hi".toList) ⟨"bob".toList, "b".toList⟩
      (.privmsg "al".toList ":) hi".toList) ∧
    Command.parse "PRIVMSG al ::) hi".toList =
      ⟨true, "PRIVMSG".toList, ["al".toList, ":) hi".toList]⟩ := by
  have hview : (session.step (.line 4 "PRIVMSG AL ::) hi".toList)).map
      (fun s' => s'.log.drop (session.log.length + 2)) =
      some [.queued 5 (.relay ⟨"bob".toList, "b".toList⟩
        (.privmsg "al".toList ":) hi".toList)) true] := by decide +kernel
  have hr := session_reachable
  generalize session = s at *
  obtain ⟨s', hs, hview⟩ := Option.map_eq_some_iff.1 hview
  obtain ⟨actions, hlog, hnews⟩ := hr.news hs 2
  obtain ⟨hmeans, -, -, hparse⟩ := relays_decode hr hs hlog
    (hnews _ (hview ▸ List.mem_singleton_self _)) rfl
  exact ⟨hmeans, hparse⟩

/-- **A relay of MODE is read back just when its argument is a word.** -/
theorem mode_relay_decodes (h : Reachable s) (hs : s.Step e s') {actions : List Action}
    (hlog : s'.log = s.log ++ actions) {m : Fd} {source : Source} {channel : Text} {change : ModeChange}
    {accepted : Bool} (hq : .queued m (.relay source (.mode channel change)) accepted ∈ actions) :
    s.Means e source (.mode channel change) ∧
    (Line.relay source (.mode channel change)).render =
      ":".toList ++ source.render ++ " ".toList ++ (Relay.mode channel change).render ∧
    ' ' ∉ source.render ∧
    (Command.parse (Relay.mode channel change).render =
        ⟨true, "MODE".toList, [channel, [if change.adding then '+' else '-', change.mode]] ++
          if change.hasArgument then [change.argument] else []⟩ ↔
      (change.hasArgument = true →
        change.argument ≠ [] ∧ change.argument.head? ≠ some ':' ∧ ' ' ∉ change.argument)) := by
  have hmeans := h.means hs hlog hq
  refine ⟨hmeans, rfl, ?_, ?_⟩
  · cases hmeans with
    | command A => exact h.source A
  · cases hmeans with
    | command A line _ hvalid ht =>
      obtain ⟨hchannel, hmode⟩ := ht.channel h.ok
      exact Relay.parse_render_mode hchannel hmode

theorem mode_relay_decodes_session :
    Command.parse "MODE #c +k key".toList = ⟨true, "MODE".toList, ["#c".toList, "+k".toList, "key".toList]⟩ := by
  have hview : (session.step (.line 4 "MODE #C +k key".toList)).map
      (fun s' => s'.log.drop (session.log.length + 2)) =
      some [.queued 4 (.relay ⟨"bob".toList, "b".toList⟩
        (.mode "#c".toList ⟨true, 'k', true, "key".toList⟩)) true] := by decide +kernel
  have hr := session_reachable
  generalize session = s at *
  obtain ⟨s', hs, hview⟩ := Option.map_eq_some_iff.1 hview
  obtain ⟨actions, hlog, hnews⟩ := hr.news hs 2
  have hparse := (mode_relay_decodes hr hs hlog (hnews _ (hview ▸ List.mem_singleton_self _))).2.2.2.2
    fun _ => by decide
  have hrender : (Relay.mode "#c".toList ⟨true, 'k', true, "key".toList⟩).render =
      "MODE #c +k key".toList := by decide
  rw [hrender] at hparse
  exact hparse.trans (by decide)

/-- A key with a space comes out as two parameters. -/
theorem mode_argument_split : ¬ ∀ (s s' : Server) (e : Event) (actions : List Action) (m : Fd)
    (source : Source) (channel : Text) (change : ModeChange) (accepted : Bool),
    Reachable s → s.Step e s' → s'.log = s.log ++ actions →
    .queued m (.relay source (.mode channel change)) accepted ∈ actions →
    Command.parse (Relay.mode channel change).render =
      ⟨true, "MODE".toList, [channel, [if change.adding then '+' else '-', change.mode]] ++
        if change.hasArgument then [change.argument] else []⟩ := by
  intro hall
  have hview : (session.step (.line 4 "MODE #c +k :a b".toList)).map
      (fun s' => s'.log.drop (session.log.length + 2)) =
      some [.queued 4 (.relay ⟨"bob".toList, "b".toList⟩
        (.mode "#c".toList ⟨true, 'k', true, "a b".toList⟩)) true] := by decide +kernel
  have hr := session_reachable
  generalize session = s at *
  obtain ⟨s', hs, hview⟩ := Option.map_eq_some_iff.1 hview
  obtain ⟨actions, hlog, hnews⟩ := hr.news hs 2
  have hparse := hall _ _ _ _ _ _ _ _ _ hr hs hlog (hnews _ (hview ▸ List.mem_singleton_self _))
  revert hparse
  decide

end Server

end FtIrc
