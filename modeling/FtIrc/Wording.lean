import FtIrc.Steps

/-!
# What the lines of a command are made of

Every text the server puts in a line is one of its own words, a text it keeps (`Kept`), or
a text of the command it is handling (`Echoes`).  `dispatchCommand_voiced` follows all of them
to the `queueLine` calls: what holds of the characters of these three holds of every line.
-/

namespace FtIrc

open Std

/-! ## Texts of a line -/

/-- The characters of the server's own words. -/
def isPrintable (c : Char) : Bool := ' ' ≤ c && c ≤ '~'

/-- A literal is read as its list of characters, which spares the kernel its bytes. -/
theorem all_literal {p : Char → Bool} {l : Text} (h : l.all p = true) :
    (String.ofList l).toList.all p = true := by
  rw [String.toList_ofList]
  exact h

namespace Relay

/-- The texts a relay has between the server's own words. -/
def texts : Relay → List Text
  | .join channel => [channel]
  | .privmsg target text => [target, text]
  | .topic channel newTopic => [channel, newTopic]
  | .kick channel nickname reason => [channel, nickname, reason]
  | .invite nickname channel => [nickname, channel]
  | .nick nickname => [nickname]
  | .mode channel change =>
    [channel, [change.mode]] ++ if change.hasArgument then [change.argument] else []
  | .quit reason => [reason]

end Relay

def Arguments.texts : Arguments → List Text
  | .text arguments => [arguments]
  | .names channel members => channel :: members.map (·.2)

namespace Line

def texts : Line → List Text
  | .numeric code replyTarget arguments => code :: replyTarget :: arguments.texts
  | .relay source event => source.nickname :: source.username :: event.texts
  | .plain text => [text]

def isRelay : Line → Bool
  | .relay .. => true
  | _ => false

def isPlain : Line → Bool
  | .plain _ => true
  | _ => false

/-- A line of `SendWelcome`. -/
def isWelcome : Line → Bool
  | .numeric code _ _ => code == "001".toList || code == "376".toList
  | _ => false

end Line

section Render

variable {P : Char → Prop}

/-- Every character satisfies `P`. -/
def Clean (P : Char → Prop) (text : Text) : Prop := ∀ c ∈ text, P c

@[simp] theorem clean_nil : Clean P [] := nofun

@[simp] theorem clean_cons {c : Char} {text : Text} : Clean P (c :: text) ↔ P c ∧ Clean P text :=
  List.forall_mem_cons

@[simp] theorem clean_append {left right : Text} :
    Clean P (left ++ right) ↔ Clean P left ∧ Clean P right := List.forall_mem_append

theorem clean_own (hP : ∀ c, isPrintable c = true → P c) {text : Text}
    (h : text.all isPrintable = true) : Clean P text := fun c hc => hP c (List.all_eq_true.1 h c hc)

theorem clean_names (hP : ∀ c, isPrintable c = true → P c) {members : List (Bool × Text)}
    (h : ∀ m ∈ members, Clean P m.2) (before : Text) (hbefore : Clean P before) :
    Clean P (members.foldl Arguments.appendName before) := by
  induction members generalizing before with
  | nil => exact hbefore
  | cons m members ih =>
    refine ih (fun x hx => h x (List.mem_cons_of_mem _ hx)) _ ?_
    have hspace : Clean P " ".toList := clean_own hP (by simp [isPrintable])
    have hflag : Clean P "@".toList := clean_own hP (by simp [isPrintable])
    unfold Arguments.appendName
    rw [clean_append, clean_append]
    refine ⟨⟨?_, ?_⟩, h m List.mem_cons_self⟩
    · split
      · exact hbefore
      · exact clean_append.2 ⟨hbefore, hspace⟩
    · split
      · exact hflag
      · exact clean_nil

theorem Source.clean_render (hP : ∀ c, isPrintable c = true → P c) {source : Source}
    (hnick : Clean P source.nickname) (huser : Clean P source.username) :
    Clean P source.render := by
  have h1 : Clean P "!".toList := clean_own hP (by simp [isPrintable])
  have h2 : Clean P "@localhost".toList := clean_own hP (by simp [isPrintable])
  exact clean_append.2 ⟨clean_append.2 ⟨clean_append.2 ⟨hnick, h1⟩, huser⟩, h2⟩

theorem Relay.clean_render (hP : ∀ c, isPrintable c = true → P c) {event : Relay}
    (h : ∀ t ∈ event.texts, Clean P t) : Clean P event.render := by
  have own {text : Text} (ht : text.all isPrintable = true) : Clean P text := clean_own hP ht
  unfold render
  cases event with
  | join channel =>
    have hchannel : Clean P channel := h _ (by simp [texts])
    exact clean_append.2 ⟨own (by simp [isPrintable]), hchannel⟩
  | privmsg target text =>
    have htarget : Clean P target := h _ (by simp [texts])
    have htext : Clean P text := h _ (by simp [texts])
    rw [clean_append, clean_append, clean_append]
    exact ⟨⟨⟨own (by simp [isPrintable]), htarget⟩, own (by simp [isPrintable])⟩, htext⟩
  | topic channel newTopic =>
    have hchannel : Clean P channel := h _ (by simp [texts])
    have htopic : Clean P newTopic := h _ (by simp [texts])
    rw [clean_append, clean_append, clean_append]
    exact ⟨⟨⟨own (by simp [isPrintable]), hchannel⟩, own (by simp [isPrintable])⟩, htopic⟩
  | kick channel nickname reason =>
    have hchannel : Clean P channel := h _ (by simp [texts])
    have hnickname : Clean P nickname := h _ (by simp [texts])
    have hreason : Clean P reason := h _ (by simp [texts])
    rw [clean_append, clean_append, clean_append, clean_append, clean_append]
    exact ⟨⟨⟨⟨⟨own (by simp [isPrintable]), hchannel⟩, own (by simp [isPrintable])⟩, hnickname⟩,
      own (by simp [isPrintable])⟩, hreason⟩
  | invite nickname channel =>
    have hnickname : Clean P nickname := h _ (by simp [texts])
    have hchannel : Clean P channel := h _ (by simp [texts])
    rw [clean_append, clean_append, clean_append]
    exact ⟨⟨⟨own (by simp [isPrintable]), hnickname⟩, own (by simp [isPrintable])⟩, hchannel⟩
  | nick nickname =>
    have hnickname : Clean P nickname := h _ (by simp [texts])
    exact clean_append.2 ⟨own (by simp [isPrintable]), hnickname⟩
  | mode channel change =>
    have hchannel : Clean P channel := h _ (by simp [texts])
    have hmode : Clean P [change.mode] := h _ (by simp [texts])
    rw [clean_append, clean_append, clean_append, clean_append, clean_append]
    refine ⟨⟨⟨⟨⟨own (by simp [isPrintable]), hchannel⟩, own (by simp [isPrintable])⟩, ?_⟩, hmode⟩, ?_⟩
    · split <;> exact own (by simp [isPrintable])
    · split
      · next harg =>
        have hargument : Clean P change.argument := h _ (by simp [texts, harg])
        exact clean_append.2 ⟨own (by simp [isPrintable]), hargument⟩
      · exact clean_nil
  | quit reason =>
    have hreason : Clean P reason := h _ (by simp [texts])
    exact clean_append.2 ⟨own (by simp [isPrintable]), hreason⟩

theorem Arguments.clean_render (hP : ∀ c, isPrintable c = true → P c) {arguments : Arguments}
    (h : ∀ t ∈ arguments.texts, Clean P t) : Clean P arguments.render := by
  have own {text : Text} (ht : text.all isPrintable = true) : Clean P text := clean_own hP ht
  cases arguments with
  | text => exact h _ List.mem_cons_self
  | names channel members =>
    have hchannel : Clean P channel := h _ List.mem_cons_self
    have hmembers : ∀ m ∈ members, Clean P m.2 := fun m hm =>
      h _ (List.mem_cons_of_mem _ (List.mem_map_of_mem hm))
    unfold render
    rw [clean_append, clean_append, clean_append]
    exact ⟨⟨⟨own (by simp [isPrintable]), hchannel⟩, own (by simp [isPrintable])⟩,
      clean_names hP hmembers [] clean_nil⟩

/-- A line is clean if its texts are. -/
theorem Line.clean_render (hP : ∀ c, isPrintable c = true → P c) {line : Line}
    (h : ∀ t ∈ line.texts, Clean P t) : Clean P line.render := by
  have own {text : Text} (ht : text.all isPrintable = true) : Clean P text := clean_own hP ht
  unfold render
  cases line with
  | numeric code replyTarget arguments =>
    have hcode : Clean P code := h _ List.mem_cons_self
    have htarget : Clean P replyTarget := h _ (List.mem_cons_of_mem _ List.mem_cons_self)
    have harguments : Clean P arguments.render := Arguments.clean_render hP fun t ht =>
      h t (List.mem_cons_of_mem _ (List.mem_cons_of_mem _ ht))
    rw [clean_append, clean_append, clean_append, clean_append]
    refine ⟨⟨⟨⟨own (by simp [isPrintable]), hcode⟩, own (by simp [isPrintable])⟩, htarget⟩, ?_⟩
    split
    · exact clean_nil
    · exact clean_append.2 ⟨own (by simp [isPrintable]), harguments⟩
  | relay source event =>
    have hsource : Clean P source.render := Source.clean_render hP (h _ List.mem_cons_self)
      (h _ (List.mem_cons_of_mem _ List.mem_cons_self))
    have hevent : Clean P event.render := Relay.clean_render hP fun t ht =>
      h t (List.mem_cons_of_mem _ (List.mem_cons_of_mem _ ht))
    rw [clean_append, clean_append, clean_append]
    exact ⟨⟨⟨own (by simp [isPrintable]), hsource⟩, own (by simp [isPrintable])⟩, hevent⟩
  | plain text => exact h _ List.mem_cons_self

end Render

/-! ## Texts of a command -/

/-- The commands `dispatchCommand` knows. -/
def commandNames : List Text :=
  ["PING".toList, "QUIT".toList, "CAP".toList, "PASS".toList, "USER".toList, "NICK".toList,
    "PRIVMSG".toList, "JOIN".toList, "TOPIC".toList, "KICK".toList, "INVITE".toList, "MODE".toList]

/-- The texts of a change that `applyChannelModeChange` repeats, on the channel `c`. -/
inductive ModeEchoes (c : Channel) (change : ModeChange) : Text → Prop
  | unknown : change.mode ∉ ['i', 't', 'k', 'o', 'l'] → ModeEchoes c change [change.mode]
  | setKey : change.mode = 'k' → change.adding = true → change.argument ≠ [] →
      ¬ (c.hasKey = true ∧ c.key = change.argument) → ModeEchoes c change change.argument
  | removeKey : change.mode = 'k' → change.adding = false → c.hasKey = true →
      ModeEchoes c change change.argument
  | operator : change.mode = 'o' → ModeEchoes c change change.argument
  | userLimit : change.mode = 'l' → change.adding = true →
      (∀ limit, Server.parsePositiveUserLimit change.argument = some limit →
        ¬ (c.hasUserLimit = true ∧ c.userLimit = limit)) →
      ModeEchoes c change change.argument

namespace Server

/-- The texts of a command of the client on `A` that its handler repeats in a line, or keeps
for later lines. -/
inductive Echoes (s : Server) (A : Fd) (command : Command) : Text → Prop
  | unknown : command.name ∉ commandNames → Echoes s A command command.name
  | ping (token : Text) (rest : List Text) : command.name = "PING".toList →
      command.parameters = token :: rest → Echoes s A command token
  | quit (reason : Text) (rest : List Text) : command.name = "QUIT".toList →
      command.parameters = reason :: rest → Echoes s A command reason
  | cap (requested : Text) (rest : List Text) : command.name = "CAP".toList →
      command.parameters = "REQ".toList :: requested :: rest → Echoes s A command requested
  | user (username mode unused realname : Text) (rest : List Text) :
      command.name = "USER".toList → (s.client A).registered = false →
      command.parameters = username :: mode :: unused :: realname :: rest →
      Echoes s A command username
  | nick (nickname : Text) (rest : List Text) : command.name = "NICK".toList →
      command.parameters = nickname :: rest → Echoes s A command nickname
  | join (channelName : Text) (rest : List Text) : command.name = "JOIN".toList →
      (s.client A).registered = true → command.parameters = channelName :: rest →
      Echoes s A command channelName
  | privmsgTarget (targetName text : Text) (rest : List Text) : command.name = "PRIVMSG".toList →
      (s.client A).registered = true → command.parameters = targetName :: text :: rest →
      Echoes s A command targetName
  | privmsgChannel (targetName text : Text) (rest : List Text) (c : Channel) (m : Fd) :
      command.name = "PRIVMSG".toList → (s.client A).registered = true →
      command.parameters = targetName :: text :: rest → isChannelTarget targetName = true →
      s.findChannel targetName = some c → c.hasMember A = true → m ∈ c.members → m ≠ A →
      Echoes s A command text
  | privmsgUser (targetName text : Text) (rest : List Text) (target : Fd) :
      command.name = "PRIVMSG".toList → (s.client A).registered = true →
      command.parameters = targetName :: text :: rest → isChannelTarget targetName = false →
      s.findClientByNickname targetName = some target → Echoes s A command text
  | topicChannel (channelName : Text) (rest : List Text) : command.name = "TOPIC".toList →
      (s.client A).registered = true → command.parameters = channelName :: rest →
      Echoes s A command channelName
  | topic (channelName newTopic : Text) (rest : List Text) (c : Channel) :
      command.name = "TOPIC".toList → (s.client A).registered = true →
      command.parameters = channelName :: newTopic :: rest →
      s.findChannel channelName = some c → c.hasMember A = true →
      (c.topicRestricted = true → c.isMemberOperator A = true) → Echoes s A command newTopic
  | kickChannel (channelName targetNick : Text) (rest : List Text) :
      command.name = "KICK".toList → (s.client A).registered = true →
      command.parameters = channelName :: targetNick :: rest → Echoes s A command channelName
  | kickTarget (channelName targetNick : Text) (rest : List Text) (c : Channel) :
      command.name = "KICK".toList → (s.client A).registered = true →
      command.parameters = channelName :: targetNick :: rest →
      s.findChannel channelName = some c → c.isMemberOperator A = true →
      Echoes s A command targetNick
  | kickReason (channelName targetNick reason : Text) (rest : List Text) (c : Channel)
      (target : Fd) : command.name = "KICK".toList → (s.client A).registered = true →
      command.parameters = channelName :: targetNick :: reason :: rest →
      s.findChannel channelName = some c → c.isMemberOperator A = true →
      s.findClientByNickname targetNick = some target → c.hasMember target = true →
      Echoes s A command reason
  | inviteTarget (targetNick channelName : Text) (rest : List Text) :
      command.name = "INVITE".toList → (s.client A).registered = true →
      command.parameters = targetNick :: channelName :: rest → Echoes s A command targetNick
  | inviteChannel (targetNick channelName : Text) (rest : List Text) (target : Fd) :
      command.name = "INVITE".toList → (s.client A).registered = true →
      command.parameters = targetNick :: channelName :: rest →
      s.findClientByNickname targetNick = some target → Echoes s A command channelName
  | modeTarget (target : Text) (rest : List Text) : command.name = "MODE".toList →
      (s.client A).registered = true → command.parameters = target :: rest →
      isChannelTarget target = true → Echoes s A command target
  | mode (target : Text) (rest : List Text) (c₀ c : Channel) (before after : List ModeChange)
      (change : ModeChange) (text : Text) : command.name = "MODE".toList →
      (s.client A).registered = true → command.parameters = target :: rest →
      s.findChannel target = some c₀ → c₀.isMemberOperator A = true →
      parseChannelModeChanges command.parameters = some (before ++ change :: after) →
      -- the channel as the changes before this one have left it
      (before.foldl (fun s change => s.applyChannelModeChange A (ircCaseFold target) change)
        s).channels[ircCaseFold target]? = some c →
      ModeEchoes c change text → Echoes s A command text

/-- The texts the server keeps and puts in lines. -/
inductive Kept (s : Server) : Text → Prop
  | nickname (fd : Fd) : Kept s (s.client fd).nickname
  | username (fd : Fd) : Kept s (s.client fd).username
  | reason (fd : Fd) : Kept s (s.client fd).disconnectReason
  | name (key : Text) (c : Channel) : s.channels[key]? = some c → Kept s c.name
  | topic (key : Text) (c : Channel) : s.channels[key]? = some c → Kept s c.topic

/-- Put together from the server's own words, what it keeps and what the command says. -/
inductive Spelled (s : Server) (A : Fd) (command : Command) : Text → Prop
  | own {text : Text} : text.all isPrintable = true → Spelled s A command text
  | kept {text : Text} : s.Kept text → Spelled s A command text
  | said {text : Text} : s.Echoes A command text → Spelled s A command text
  | append {left right : Text} : Spelled s A command left → Spelled s A command right →
      Spelled s A command (left ++ right)

theorem Spelled.clean {s : Server} {A : Fd} {command : Command} {text : Text}
    (h : s.Spelled A command text) {P : Char → Prop} (hP : ∀ c, isPrintable c = true → P c)
    (hkept : ∀ t, s.Kept t → Clean P t) (hsaid : ∀ t, s.Echoes A command t → Clean P t) :
    Clean P text := by
  induction h with
  | own h => exact clean_own hP h
  | kept h => exact hkept _ h
  | said h => exact hsaid _ h
  | append _ _ ihl ihr => exact clean_append.2 ⟨ihl, ihr⟩

end Server

end FtIrc
