import FtIrc.Settings
import FtIrc.Steps

/-!
# The IRC state machine

What a command does to the core and what it says, without buffers, flags and poll
descriptors: `Core.dispatch`, and `Core.respond` for whatever reaches the core.  `Answers`
compares it with the code, and `dispatchCommand_answers` and `removeClient_answers` say that
the server is this machine in front of a wire.
-/

namespace FtIrc

open Std

/-- The core after a request, and what is asked of the wire, in order. -/
abbrev Response := Core × List Signal

namespace Core

variable (κ : Core) (fd : Fd) (command : Command)

def numeric (numeric : Text) (arguments : Arguments) : Signal :=
  .line fd (.numeric numeric (κ.replyTarget fd) arguments)

def refuse (numeric text : Text) : Response := (κ, [κ.numeric fd numeric (.text text)])

/-- `tryCompleteRegistration` as a response. -/
def register : Response := (κ.complete fd, κ.welcome fd)

/-- A handler's first check, where it has one. -/
def ifRegistered (response : Response) : Response :=
  if (κ.who fd).registered then response
  else κ.refuse fd "451".toList ":You have not registered".toList

/-! ## Registration -/

def handlePass : Response :=
  if (κ.who fd).registered then κ.refuse fd "462".toList ":You may not reregister".toList
  else
    match command.parameters with
    | [] => κ.refuse fd "461".toList "PASS :Not enough parameters".toList
    | password :: _ =>
      if password ≠ κ.password then κ.refuse fd "464".toList ":Password incorrect".toList
      else (κ.acceptPassword fd).register fd

def handleUser : Response :=
  if (κ.who fd).registered then κ.refuse fd "462".toList ":You may not reregister".toList
  else
    match command.parameters with
    | username :: _ :: _ :: realname :: _ => (κ.setUser fd username realname).register fd
    | _ => κ.refuse fd "461".toList "USER :Not enough parameters".toList

/-- Everyone in a channel with `fd`, itself included. -/
def peers : ExtTreeSet Fd :=
  κ.channels.foldl
    (fun peers _ channel =>
      if channel.hasMember fd then
        channel.members.foldl (fun peers member _ => if True then peers.insert member else peers) peers
      else peers)
    ∅

/-- Who is told of a change of nickname. -/
def nickTold : List Fd :=
  if (κ.who fd).registered && !(κ.who fd).nickname.isEmpty then ((κ.peers fd).insert fd).toList
  else []

def handleNick : Response :=
  match command.parameters with
  | [] => κ.refuse fd "431".toList ":No nickname given".toList
  | nickname :: _ =>
    if !Server.isValidNickname nickname then
      κ.refuse fd "432".toList (nickname ++ " :Erroneous nickname".toList)
    else if (κ.nicknameIndex[ircCaseFold nickname]?).any (· != fd) then
      κ.refuse fd "433".toList (nickname ++ " :Nickname is already in use".toList)
    else if (κ.who fd).nickname = nickname then (κ, [])
    else
      let response := (κ.rename fd nickname).register fd
      (response.1, toAll (κ.nickTold fd) (.relay (κ.who fd).source (.nick nickname)) ++ response.2)

/-! ## Channels and messages -/

def handleJoin : Response :=
  κ.ifRegistered fd
    (match command.parameters with
    | [] => κ.refuse fd "461".toList "JOIN :Not enough parameters".toList
    | channelName :: rest =>
      if !Server.isChannelTarget channelName then
        κ.refuse fd "403".toList (channelName ++ " :No such channel".toList)
      else
        match κ.channels[ircCaseFold channelName]? with
        | none =>
          let channel := ({ name := channelName } : Channel).addMember fd true
          (κ.setChannel (ircCaseFold channelName) channel, κ.joinSignals fd channel)
        | some channel =>
          if channel.hasMember fd then (κ, [])
          else if channel.inviteOnly && !channel.isInvited (κ.who fd).nickname then
            κ.refuse fd "473".toList (channel.name ++ " :Cannot join channel (+i)".toList)
          else if channel.hasKey && rest.head?.getD [] != channel.key then
            κ.refuse fd "475".toList (channel.name ++ " :Cannot join channel (+k)".toList)
          else if channel.hasUserLimit && decide (channel.getMemberCount ≥ channel.userLimit) then
            κ.refuse fd "471".toList (channel.name ++ " :Cannot join channel (+l)".toList)
          else
            let channel := (channel.addMember fd false).removeInvite (κ.who fd).nickname
            (κ.setChannel (ircCaseFold channelName) channel, κ.joinSignals fd channel))

def handlePrivmsg : Response :=
  κ.ifRegistered fd
    (match command.parameters with
    | [] => κ.refuse fd "411".toList ":No recipient given (PRIVMSG)".toList
    | [_] => κ.refuse fd "412".toList ":No text to send".toList
    | targetName :: text :: _ =>
      if Server.isChannelTarget targetName then
        match κ.channels[ircCaseFold targetName]? with
        | none => κ.refuse fd "401".toList (targetName ++ " :No such nick/channel".toList)
        | some channel =>
          if !channel.hasMember fd then
            κ.refuse fd "404".toList (targetName ++ " :Cannot send to channel".toList)
          else
            (κ, toAll (channel.members.keys.filter (some · ≠ some fd))
              (.relay (κ.who fd).source (.privmsg targetName text)))
      else
        match κ.holder targetName with
        | none => κ.refuse fd "401".toList (targetName ++ " :No such nick/channel".toList)
        | some target =>
          (κ, [.line target
            (.relay (κ.who fd).source (.privmsg (κ.who target).nickname text))]))

def handleTopic : Response :=
  κ.ifRegistered fd
    (match command.parameters with
    | [] => κ.refuse fd "461".toList "TOPIC :Not enough parameters".toList
    | channelName :: rest =>
      match κ.channels[ircCaseFold channelName]? with
      | none => κ.refuse fd "403".toList (channelName ++ " :No such channel".toList)
      | some channel =>
        if !channel.hasMember fd then
          κ.refuse fd "442".toList (channelName ++ " :You're not on that channel".toList)
        else
          match rest with
          | [] =>
            if channel.hasTopic then
              κ.refuse fd "332".toList (channelName ++ " :".toList ++ channel.topic)
            else κ.refuse fd "331".toList (channelName ++ " :No topic is set".toList)
          | newTopic :: _ =>
            if channel.topicRestricted && !channel.isMemberOperator fd then
              κ.refuse fd "482".toList (channelName ++ " :You're not channel operator".toList)
            else
              (κ.setChannel (ircCaseFold channelName) (channel.setTopic newTopic),
                toAll channel.members.keys
                  (.relay (κ.who fd).source (.topic channelName newTopic))))

def handleKick : Response :=
  κ.ifRegistered fd
    (match command.parameters with
    | channelName :: targetNick :: rest =>
      match κ.channels[ircCaseFold channelName]? with
      | none => κ.refuse fd "403".toList (channelName ++ " :No such channel".toList)
      | some channel =>
        if !channel.hasMember fd then
          κ.refuse fd "442".toList (channelName ++ " :You're not on that channel".toList)
        else if !channel.isMemberOperator fd then
          κ.refuse fd "482".toList (channelName ++ " :You're not channel operator".toList)
        else
          match (κ.holder targetNick).filter channel.hasMember with
          | none =>
            κ.refuse fd "441".toList
              (targetNick ++ " ".toList ++ channelName ++ " :They aren't on that channel".toList)
          | some target =>
            (κ.dropMember target (ircCaseFold channelName) channel,
              toAll channel.members.keys (.relay (κ.who fd).source
                (.kick channelName targetNick (rest.head?.getD (κ.who fd).nickname))))
    | _ => κ.refuse fd "461".toList "KICK :Not enough parameters".toList)

def handleInvite : Response :=
  κ.ifRegistered fd
    (match command.parameters with
    | targetNick :: channelName :: _ =>
      match κ.holder targetNick with
      | none => κ.refuse fd "401".toList (targetNick ++ " :No such nick/channel".toList)
      | some target =>
        match κ.channels[ircCaseFold channelName]? with
        | none => κ.refuse fd "403".toList (channelName ++ " :No such channel".toList)
        | some channel =>
          if !channel.hasMember fd then
            κ.refuse fd "442".toList (channelName ++ " :You're not on that channel".toList)
          else if !channel.isMemberOperator fd then
            κ.refuse fd "482".toList (channelName ++ " :You're not channel operator".toList)
          else if channel.hasMember target then
            κ.refuse fd "443".toList
              (targetNick ++ " ".toList ++ channelName ++ " :is already on channel".toList)
          else
            (κ.setChannel (ircCaseFold channelName) (channel.addInvite targetNick),
              [κ.numeric fd "341".toList (.text (targetNick ++ " ".toList ++ channelName)),
               .line target (.relay (κ.who fd).source (.invite targetNick channelName))])
    | _ => κ.refuse fd "461".toList "INVITE :Not enough parameters".toList)

/-! ## MODE -/

/-- The answer to a change that `ModeChange.writes` finds unacceptable. -/
def refuseChange (channel : Channel) (change : ModeChange) : Response :=
  if change.mode = 'k' then
    κ.refuse fd "696".toList (channel.name ++ " k :Invalid mode parameter".toList)
  else if change.mode = 'o' then
    match κ.holder change.argument with
    | none => κ.refuse fd "401".toList (change.argument ++ " :No such nick/channel".toList)
    | some _ =>
      κ.refuse fd "441".toList
        (change.argument ++ " ".toList ++ channel.name ++ " :They aren't on that channel".toList)
  else if change.mode = 'l' then
    κ.refuse fd "696".toList
      (channel.name ++ " l ".toList ++ change.argument ++ " :Invalid mode parameter".toList)
  else κ.refuse fd "472".toList (change.mode :: " :is unknown mode char to me".toList)

def applyChange (key : Text) (change : ModeChange) : Response :=
  match κ.channels[key]? with
  | none => (κ, [])
  | some channel =>
    match change.writes κ channel with
    | none => κ.refuseChange fd channel change
    | some w =>
      if channel.read w.setting = w.value then (κ, [])
      else
        (κ.setChannel key (channel.write w), toAll (channel.write w).members.keys
          (.relay (κ.who fd).source (.mode (channel.write w).name change)))

def applyChanges (fd : Fd) (key : Text) : Core → List ModeChange → Response
  | κ, [] => (κ, [])
  | κ, change :: changes =>
    let now := κ.applyChange fd key change
    let later := applyChanges fd key now.1 changes
    (later.1, now.2 ++ later.2)

def handleMode : Response :=
  κ.ifRegistered fd
    (match command.parameters with
    | [] => κ.refuse fd "461".toList "MODE :Not enough parameters".toList
    | target :: rest =>
      if !Server.isChannelTarget target then (κ, [])
      else
        match κ.channels[ircCaseFold target]? with
        | none => κ.refuse fd "403".toList (target ++ " :No such channel".toList)
        | some channel =>
          if rest.isEmpty then (κ, [])
          else if !channel.isMemberOperator fd then
            κ.refuse fd "482".toList (target ++ " :You're not channel operator".toList)
          else
            match Server.parseChannelModeChanges command.parameters with
            | none => (κ, [])
            | some changes => applyChanges fd (ircCaseFold target) κ changes)

/-! ## The rest -/

def handlePing : Response :=
  match command.parameters with
  | [] => (κ, [.line fd (.plain ":ircserv 409 * :No origin specified".toList)])
  | token :: _ => (κ, [.line fd (.plain (":ircserv PONG ircserv :".toList ++ token))])

def handleCap : Response :=
  match command.parameters with
  | [] => (κ, [])
  | subcommand :: rest =>
    if subcommand = "LS".toList then (κ, [.line fd (.plain ":ircserv CAP * LS".toList)])
    else if subcommand = "REQ".toList then
      (κ, [.line fd (.plain (":ircserv CAP * NAK ".toList ++ rest.head?.getD []))])
    else (κ, [])

def handleQuit : Response :=
  (κ, [.disconnect fd (command.parameters.head?.getD "Client Quit".toList)])

def handleUnknownCommand : Response :=
  κ.refuse fd "421".toList (command.name ++ " :Unknown command".toList)

def dispatch : Response :=
  if command.name = "PING".toList then κ.handlePing fd command
  else if command.name = "QUIT".toList then κ.handleQuit fd command
  else if command.name = "CAP".toList then κ.handleCap fd command
  else if command.name = "PASS".toList then κ.handlePass fd command
  else if command.name = "USER".toList then κ.handleUser fd command
  else if command.name = "NICK".toList then κ.handleNick fd command
  else if command.name = "PRIVMSG".toList then κ.handlePrivmsg fd command
  else if command.name = "JOIN".toList then κ.handleJoin fd command
  else if command.name = "TOPIC".toList then κ.handleTopic fd command
  else if command.name = "KICK".toList then κ.handleKick fd command
  else if command.name = "INVITE".toList then κ.handleInvite fd command
  else if command.name = "MODE".toList then κ.handleMode fd command
  else κ.handleUnknownCommand fd command

/-- The QUIT of a removed client, for those it shared a channel with. -/
def quitSignals (reason : Text) : List Signal :=
  if (κ.who fd).registered then
    toAll ((κ.peers fd).erase fd).toList (.relay (κ.who fd).source (.quit reason))
  else []

end Core

/-! ## The code answers as the machine does -/

namespace Server

/-- From `s` to `s'` the core and the signals are those of `response`. -/
def Answers (s s' : Server) (response : Response) : Prop :=
  s'.core = response.1 ∧ s'.wire = s.wire.deliver response.2

section Rules

variable {s s' s'' : Server} {fd : Fd} {x y : Response}

theorem answers_silent (s : Server) : s.Answers s (s.core, []) := ⟨rfl, rfl⟩

theorem answers_ite {c : Prop} [Decidable c] (hpos : c → s.Answers s' x) (hneg : ¬ c → s.Answers s'' y) :
    s.Answers (if c then s' else s'') (if c then x else y) := by
  split
  · next h => exact hpos h
  · next h => exact hneg h

theorem answers_refuse (s : Server) (fd : Fd) (numeric text : Text) :
    s.Answers (s.sendNumeric fd numeric (.text text)) (s.core.refuse fd numeric text) :=
  ⟨core_sendNumeric _ _ _ _, wire_sendNumeric _ _ _ _⟩

theorem answers_plain (s : Server) (fd : Fd) (text : Text) :
    s.Answers (s.queueLine fd (.plain text)) (s.core, [.line fd (.plain text)]) :=
  ⟨core_queueLine _ _ _, wire_queueLine _ _ _⟩

theorem answers_ifRegistered (h : (s.core.who fd).registered = true → s.Answers s' x) :
    s.Answers
      (if !(s.client fd).registered then
        s.sendNumeric fd "451".toList (.text ":You have not registered".toList)
      else s') (s.core.ifRegistered fd x) := by
  unfold Core.ifRegistered
  rw [client_registered]
  cases hreg : (s.core.who fd).registered with
  | false => exact answers_refuse s fd _ _
  | true => exact h hreg

/-- A registration that may be complete now. -/
theorem answers_register {s₁ : Server} {κ : Core} (hcore : s₁.core = κ) (hwire : s₁.wire = s.wire) :
    s.Answers (s₁.tryCompleteRegistration fd) (κ.register fd) := by
  obtain ⟨hc, hw⟩ := s₁.tryCompleteRegistration_spec fd
  subst hcore
  exact ⟨hc, by rw [hw, hwire]; rfl⟩

/-- A change of a channel, relayed to its members. -/
theorem answers_relayed {key : Text} {c : Channel} {line : Line}
    (h : ∀ m ∈ c.members, s.core.Live m) :
    s.Answers ((s.setChannel key c).broadcastToChannel c line)
      (s.core.setChannel key c, toAll c.members.keys line) :=
  ⟨core_broadcastToChannel _ _ _ _, wire_broadcast (s.setChannel key c) c line h⟩

end Rules

variable (s : Server) (fd : Fd) (command : Command)

/-! ## Registration -/

theorem handlePass_answers : s.Answers (s.handlePass fd command) (s.core.handlePass fd command) := by
  unfold handlePass Core.handlePass
  rw [client_registered]
  refine answers_ite (fun _ => answers_refuse s fd _ _) fun _ => ?_
  cases command.parameters with
  | nil => exact answers_refuse s fd _ _
  | cons password rest =>
    refine answers_ite (fun _ => answers_refuse s fd _ _) fun _ => ?_
    exact answers_register (core_modifyClient s fd fun _ => rfl)
      (wire_modifyClient_identity s fd fun _ => rfl)

theorem handleUser_answers : s.Answers (s.handleUser fd command) (s.core.handleUser fd command) := by
  unfold handleUser Core.handleUser
  rw [client_registered]
  refine answers_ite (fun _ => answers_refuse s fd _ _) fun _ => ?_
  have hcore (username realname : Text) : (s.modifyClient fd (·.setUser username realname)).core =
      s.core.setUser fd username realname := core_modifyClient s fd fun _ => rfl
  rcases command.parameters with _ | ⟨username, _ | ⟨mode, _ | ⟨unused, _ | ⟨realname, rest⟩⟩⟩⟩
  all_goals first
    | exact answers_refuse s fd _ _
    | exact answers_register (hcore _ _) (wire_modifyClient_identity s fd fun _ => rfl)

theorem mem_peers (x : Fd) : x ∈ s.core.peers fd ↔ s.core.Peers fd x := by
  have h := s.mem_foldl_channels fd (fun _ => True) ∅ x
  simp only [ExtTreeSet.not_mem_empty, false_or, and_true] at h
  exact h

theorem nickRecipients_eq : s.nickRecipients fd = (s.core.peers fd).insert fd := by
  apply ExtTreeSet.ext_mem
  intro x
  rw [mem_nickRecipients, ExtTreeSet.mem_insert, Std.compare_eq_iff_eq, mem_peers, eq_comm]

theorem quitRecipients_eq : s.quitRecipients fd = (s.core.peers fd).erase fd := by
  apply ExtTreeSet.ext_mem
  intro x
  rw [mem_quitRecipients, ExtTreeSet.mem_erase, mem_peers, and_comm, ne_comm]
  simp only [ne_eq, Std.compare_eq_iff_eq]

theorem nickTold_eq : s.nickTold fd = s.core.nickTold fd := by
  unfold nickTold Core.nickTold
  rw [nickRecipients_eq]
  simp

theorem handleNick_answers (hlive : s.core.MembersLive) (hfd : s.core.Live fd) :
    s.Answers (s.handleNick fd command) (s.core.handleNick fd command) := by
  unfold handleNick Core.handleNick
  cases command.parameters with
  | nil => exact answers_refuse s fd _ _
  | cons nickname rest =>
  refine answers_ite (fun _ => answers_refuse s fd _ _) fun hvalid => ?_
  refine answers_ite (fun _ => answers_refuse s fd _ _) fun _ => ?_
  dsimp only
  -- a nickname that is valid is not empty
  have hsame : ((s.client fd).hasNickname && (s.client fd).nickname == nickname) = true ↔
      (s.core.who fd).nickname = nickname := by
    rw [client_hasNickname, client_nickname]
    constructor
    · intro h
      simpa using (Bool.and_eq_true_iff.1 h).2
    · rintro rfl
      have hne : (s.core.who fd).nickname ≠ [] := fun h => hvalid (by rw [h]; rfl)
      simp [hne]
  simp only [hsame]
  refine answers_ite (fun _ => answers_silent s) fun _ => ?_
  have hall : ∀ m ∈ s.nickTold fd, (s.changeNickname fd nickname).core.Live m := fun m hm =>
    live_changeNickname _ _ _ (live_of_mem_nickTold hlive hfd hm)
  rw [relay_nick_eq, client_source]
  obtain ⟨hc, hw⟩ := tryCompleteRegistration_spec
    ((s.nickTold fd).foldl
      (fun t target => t.queueIfFound target (.relay (s.core.who fd).source (.nick nickname)))
      (s.changeNickname fd nickname)) fd
  rw [core_queueAll, core_changeNickname] at hc hw
  rw [wire_queueAll _ _ _ hall, wire_changeNickname, ← Wire.deliver_append] at hw
  rw [← nickTold_eq]
  exact ⟨hc, hw⟩

/-! ## Channels and messages -/

theorem announceJoin_answers {key : Text} {c : Channel} (h : ∀ m ∈ c.members, s.core.Live m) :
    s.Answers ((s.setChannel key c).announceJoin fd c)
      (s.core.setChannel key c, s.core.joinSignals fd c) :=
  (s.setChannel key c).announceJoin_spec fd c h

theorem handleJoin_answers (hlive : s.core.MembersLive) (hfd : s.core.Live fd) :
    s.Answers (s.handleJoin fd command) (s.core.handleJoin fd command) := by
  unfold handleJoin Core.handleJoin
  refine answers_ifRegistered fun _ => ?_
  cases command.parameters with
  | nil => exact answers_refuse s fd _ _
  | cons channelName rest =>
  refine answers_ite (fun _ => answers_refuse s fd _ _) fun _ => ?_
  simp only [findChannel_eq, client_nickname]
  cases hc : s.core.channels[ircCaseFold channelName]? with
  | none =>
    apply announceJoin_answers
    intro m hm
    rcases mem_addMember hm with rfl | hm
    · exact hfd
    · exact absurd hm ExtTreeMap.not_mem_empty
  | some c =>
    refine answers_ite (fun _ => answers_silent s) fun _ => ?_
    refine answers_ite (fun _ => answers_refuse s fd _ _) fun _ => ?_
    refine answers_ite (fun _ => answers_refuse s fd _ _) fun _ => ?_
    refine answers_ite (fun _ => answers_refuse s fd _ _) fun _ => ?_
    apply announceJoin_answers
    intro m hm
    rcases mem_addMember hm with rfl | hm
    · exact hfd
    · exact hlive _ c hc m hm

theorem handlePrivmsg_answers (hlive : s.core.MembersLive) :
    s.Answers (s.handlePrivmsg fd command) (s.core.handlePrivmsg fd command) := by
  unfold handlePrivmsg Core.handlePrivmsg
  refine answers_ifRegistered fun _ => ?_
  rcases command.parameters with _ | ⟨targetName, _ | ⟨text, rest⟩⟩
  · exact answers_refuse s fd _ _
  · exact answers_refuse s fd _ _
  simp only [findChannel_eq, findClientByNickname_eq, client_source, client_nickname]
  refine answers_ite (fun _ => ?_) fun _ => ?_
  · cases hc : s.core.channels[ircCaseFold targetName]? with
    | none => exact answers_refuse s fd _ _
    | some c =>
      refine answers_ite (fun _ => answers_refuse s fd _ _) fun _ => ?_
      exact ⟨core_broadcastToChannel _ _ _ _,
        wire_broadcastToChannel s c _ (some fd) (hlive _ c hc)⟩
  · cases s.core.holder targetName with
    | none => exact answers_refuse s fd _ _
    | some target => exact ⟨core_queueLine _ _ _, wire_queueLine _ _ _⟩

theorem handleTopic_answers (hlive : s.core.MembersLive) :
    s.Answers (s.handleTopic fd command) (s.core.handleTopic fd command) := by
  unfold handleTopic Core.handleTopic
  refine answers_ifRegistered fun _ => ?_
  cases command.parameters with
  | nil => exact answers_refuse s fd _ _
  | cons channelName rest =>
  simp only [findChannel_eq, client_source]
  cases hc : s.core.channels[ircCaseFold channelName]? with
  | none => exact answers_refuse s fd _ _
  | some c =>
    refine answers_ite (fun _ => answers_refuse s fd _ _) fun _ => ?_
    cases rest with
    | nil => exact answers_ite (fun _ => answers_refuse s fd _ _) fun _ => answers_refuse s fd _ _
    | cons newTopic rest =>
      refine answers_ite (fun _ => answers_refuse s fd _ _) fun _ => ?_
      exact answers_relayed (c := c.setTopic newTopic) (hlive _ c hc)

theorem handleKick_answers (hlive : s.core.MembersLive) :
    s.Answers (s.handleKick fd command) (s.core.handleKick fd command) := by
  unfold handleKick Core.handleKick
  refine answers_ifRegistered fun _ => ?_
  rcases command.parameters with _ | ⟨channelName, _ | ⟨targetNick, rest⟩⟩
  · exact answers_refuse s fd _ _
  · exact answers_refuse s fd _ _
  simp only [findChannel_eq, findClientByNickname_eq, client_source, client_nickname]
  cases hc : s.core.channels[ircCaseFold channelName]? with
  | none => exact answers_refuse s fd _ _
  | some c =>
    refine answers_ite (fun _ => answers_refuse s fd _ _) fun _ => ?_
    refine answers_ite (fun _ => answers_refuse s fd _ _) fun _ => ?_
    cases (s.core.holder targetNick).filter c.hasMember with
    | none => exact answers_refuse s fd _ _
    | some target =>
      obtain ⟨hcore, hwire⟩ := removeMember_spec
        (s.broadcastToChannel c (.relay (s.core.who fd).source
          (.kick channelName targetNick (rest.head?.getD (s.core.who fd).nickname))))
        (ircCaseFold channelName) c target
      rw [core_broadcastToChannel] at hcore
      rw [wire_broadcast s c _ (hlive _ c hc)] at hwire
      exact ⟨hcore, hwire⟩

theorem handleInvite_answers :
    s.Answers (s.handleInvite fd command) (s.core.handleInvite fd command) := by
  unfold handleInvite Core.handleInvite
  refine answers_ifRegistered fun _ => ?_
  rcases command.parameters with _ | ⟨targetNick, _ | ⟨channelName, rest⟩⟩
  · exact answers_refuse s fd _ _
  · exact answers_refuse s fd _ _
  simp only [findChannel_eq, findClientByNickname_eq, client_source]
  cases s.core.holder targetNick with
  | none => exact answers_refuse s fd _ _
  | some target =>
    cases s.core.channels[ircCaseFold channelName]? with
    | none => exact answers_refuse s fd _ _
    | some c =>
      refine answers_ite (fun _ => answers_refuse s fd _ _) fun _ => ?_
      refine answers_ite (fun _ => answers_refuse s fd _ _) fun _ => ?_
      refine answers_ite (fun _ => answers_refuse s fd _ _) fun _ => ?_
      refine ⟨by rw [core_queueLine, core_sendNumeric, core_setChannel], ?_⟩
      rw [wire_queueLine, wire_sendNumeric]
      rfl

/-! ## MODE -/

section Change

variable {s fd} {key : Text} {c : Channel} {change : ModeChange}
variable (hlive : s.core.MembersLive) (hc : s.core.channels[key]? = some c)

theorem answers_written {w : ModeWrite} (hlive : s.core.MembersLive)
    (hc : s.core.channels[key]? = some c) (hw : change.writes s.core c = some w)
    (h : c.read w.setting ≠ w.value) {c' : Channel} (hc' : c.write w = c') :
    s.Answers ((s.setChannel key c').broadcastModeChange fd c' change)
      (s.core.applyChange fd key change) := by
  unfold Core.applyChange broadcastModeChange
  simp only [hc, hw, if_neg h, client_source, hc']
  refine answers_relayed fun m hm => hlive key c hc m ?_
  rw [← hc'] at hm
  exact ((c.write_kept w).2.2.2 m).1 hm

theorem answers_idle {w : ModeWrite} (hc : s.core.channels[key]? = some c)
    (hw : change.writes s.core c = some w) (h : c.read w.setting = w.value) :
    s.Answers s (s.core.applyChange fd key change) := by
  unfold Core.applyChange
  simp only [hc, hw, if_pos h]
  exact answers_silent s

theorem answers_refused (hc : s.core.channels[key]? = some c) (hw : change.writes s.core c = none)
    {numeric text : Text} (h : s.core.refuseChange fd c change = s.core.refuse fd numeric text) :
    s.Answers (s.sendNumeric fd numeric (.text text)) (s.core.applyChange fd key change) := by
  unfold Core.applyChange
  simp only [hc, hw, h]
  exact answers_refuse s fd _ _

include hlive hc

theorem applyInviteOnlyMode_answers (hmode : change.mode = 'i') :
    s.Answers (s.applyInviteOnlyMode fd key c change) (s.core.applyChange fd key change) := by
  have hw : change.writes s.core c = some (.inviteOnly change.adding) := if_pos hmode
  unfold applyInviteOnlyMode
  split
  · next h => exact answers_idle hc hw (congrArg _ h)
  · next h => exact answers_written hlive hc hw (mt Setting.Value.enabled.inj h) rfl

theorem applyTopicRestrictedMode_answers (hmode : change.mode = 't') :
    s.Answers (s.applyTopicRestrictedMode fd key c change) (s.core.applyChange fd key change) := by
  have hw : change.writes s.core c = some (.topicRestricted change.adding) := by
    simp [ModeChange.writes, hmode]
  unfold applyTopicRestrictedMode
  split
  · next h => exact answers_idle hc hw (congrArg _ h)
  · next h => exact answers_written hlive hc hw (mt Setting.Value.enabled.inj h) rfl

theorem applyKeyMode_answers (hmode : change.mode = 'k') :
    s.Answers (s.applyKeyMode fd key c change) (s.core.applyChange fd key change) := by
  unfold applyKeyMode
  split
  · next hadding =>
    split
    · next harg =>
      exact answers_refused hc
        (by simp [ModeChange.writes, hmode, hadding, List.isEmpty_iff.1 harg]) (if_pos hmode)
    next harg =>
    have hw : change.writes s.core c = some (.key (some change.argument)) := by
      simp [ModeChange.writes, hmode, hadding, mt List.isEmpty_iff.2 harg]
    have hread : (c.hasKey && c.key == change.argument) = true ↔
        c.read .key = .key (some change.argument) := by
      simp [Channel.read]
    split
    · next h => exact answers_idle hc hw (hread.1 h)
    · next h => exact answers_written hlive hc hw (mt hread.2 h) rfl
  · next hadding =>
    have hw : change.writes s.core c = some (.key none) := by simp [ModeChange.writes, hmode, hadding]
    have hread : (!c.hasKey) = true ↔ c.read .key = .key none := by simp [Channel.read]
    split
    · next h => exact answers_idle hc hw (hread.1 h)
    · next h => exact answers_written hlive hc hw (mt hread.2 h) rfl

theorem applyOperatorMode_answers (hmode : change.mode = 'o') :
    s.Answers (s.applyOperatorMode fd key c change) (s.core.applyChange fd key change) := by
  have hwrites : change.writes s.core c =
      ((s.core.holder change.argument).filter c.hasMember).map (.operator · change.adding) := by
    simp [ModeChange.writes, hmode]
  unfold applyOperatorMode
  rw [findClientByNickname_eq]
  split
  · next hnone =>
    refine answers_refused hc (by rw [hwrites, hnone]; rfl) ?_
    simp [Core.refuseChange, hmode, hnone]
  next target htarget =>
  rw [htarget, Option.filter_some] at hwrites
  split
  · next hmember =>
    refine answers_refused hc (by rw [hwrites, if_neg (by simpa using hmember)]; rfl) ?_
    simp [Core.refuseChange, hmode, htarget]
  next hmember =>
  rw [if_pos (by simpa using hmember), Option.map_some] at hwrites
  split
  · next h => exact answers_idle hc hwrites (congrArg _ h)
  · next h => exact answers_written hlive hc hwrites (mt Setting.Value.enabled.inj h) rfl

theorem applyUserLimitMode_answers (hmode : change.mode = 'l') :
    s.Answers (s.applyUserLimitMode fd key c change) (s.core.applyChange fd key change) := by
  unfold applyUserLimitMode
  split
  · next hadding =>
    have hwrites : change.writes s.core c = (parsePositiveUserLimit change.argument).map
        fun limit => .userLimit (some limit) := by simp [ModeChange.writes, hmode, hadding]
    split
    · next hnone =>
      refine answers_refused hc (by rw [hwrites, hnone]; rfl) ?_
      simp [Core.refuseChange, hmode]
    next limit hlimit =>
    rw [hlimit, Option.map_some] at hwrites
    have hread : (c.hasUserLimit && c.userLimit == limit) = true ↔
        c.read .userLimit = .limit (some limit) := by
      simp [Channel.read]
    split
    · next h => exact answers_idle hc hwrites (hread.1 h)
    · next h => exact answers_written hlive hc hwrites (mt hread.2 h) rfl
  · next hadding =>
    have hw : change.writes s.core c = some (.userLimit none) := by
      simp [ModeChange.writes, hmode, hadding]
    have hread : (!c.hasUserLimit) = true ↔ c.read .userLimit = .limit none := by simp [Channel.read]
    split
    · next h => exact answers_idle hc hw (hread.1 h)
    · next h => exact answers_written hlive hc hw (mt hread.2 h) rfl

end Change

section Changes

variable {s fd}

theorem applyChannelModeChange_answers (hlive : s.core.MembersLive) (key : Text) (change : ModeChange) :
    s.Answers (s.applyChannelModeChange fd key change) (s.core.applyChange fd key change) := by
  unfold applyChannelModeChange
  cases hc : s.core.channels[key]? with
  | none =>
    rw [show s.channels[key]? = none from hc]
    unfold Core.applyChange
    simp only [hc]
    exact answers_silent s
  | some c =>
    rw [show s.channels[key]? = some c from hc]
    dsimp only
    split
    · next hmode => exact applyInviteOnlyMode_answers hlive hc hmode
    next hi =>
    split
    · next hmode => exact applyTopicRestrictedMode_answers hlive hc hmode
    next ht =>
    split
    · next hmode => exact applyKeyMode_answers hlive hc hmode
    next hk =>
    split
    · next hmode => exact applyOperatorMode_answers hlive hc hmode
    next ho =>
    split
    · next hmode => exact applyUserLimitMode_answers hlive hc hmode
    next hl =>
    refine answers_refused hc (by simp [ModeChange.writes, hi, ht, hk, ho, hl]) ?_
    simp [Core.refuseChange, hk, ho, hl]

theorem applyChannelModeChanges_answers (hlive : s.core.MembersLive) (key : Text)
    (changes : List ModeChange) :
    s.Answers (changes.foldl (fun s change => s.applyChannelModeChange fd key change) s)
      (Core.applyChanges fd key s.core changes) := by
  induction changes generalizing s with
  | nil => exact answers_silent s
  | cons change changes ih =>
    have hlive₁ := (s.applyChannelModeChange_step fd key change hlive).1
    obtain ⟨hcore, hwire⟩ : s.Answers (s.applyChannelModeChange fd key change)
        (s.core.applyChange fd key change) := applyChannelModeChange_answers hlive key change
    obtain ⟨hcore', hwire'⟩ := ih hlive₁
    rw [hcore] at hcore' hwire'
    refine ⟨hcore', ?_⟩
    rw [List.foldl_cons, hwire', hwire, ← Wire.deliver_append]
    rfl

end Changes

theorem handleMode_answers (hlive : s.core.MembersLive) :
    s.Answers (s.handleMode fd command) (s.core.handleMode fd command) := by
  unfold handleMode Core.handleMode
  refine answers_ifRegistered fun _ => ?_
  generalize command.parameters = parameters
  cases parameters with
  | nil => exact answers_refuse s fd _ _
  | cons target rest =>
  refine answers_ite (fun _ => answers_silent s) fun _ => ?_
  simp only [findChannel_eq]
  cases s.core.channels[ircCaseFold target]? with
  | none => exact answers_refuse s fd _ _
  | some c =>
    refine answers_ite (fun _ => answers_silent s) fun _ => ?_
    refine answers_ite (fun _ => answers_refuse s fd _ _) fun _ => ?_
    cases parseChannelModeChanges (target :: rest) with
    | none => exact answers_silent s
    | some changes => exact applyChannelModeChanges_answers hlive _ changes

/-! ## Every command, and removal -/

theorem handlePing_answers : s.Answers (s.handlePing fd command) (s.core.handlePing fd command) := by
  unfold handlePing Core.handlePing
  cases command.parameters <;> exact answers_plain s fd _

theorem handleCap_answers : s.Answers (s.handleCap fd command) (s.core.handleCap fd command) := by
  unfold handleCap Core.handleCap
  cases command.parameters with
  | nil => exact answers_silent s
  | cons subcommand rest =>
    refine answers_ite (fun _ => answers_plain s fd _) fun _ => ?_
    exact answers_ite (fun _ => answers_plain s fd _) fun _ => answers_silent s

theorem handleQuit_answers : s.Answers (s.handleQuit fd command) (s.core.handleQuit fd command) :=
  ⟨core_requestDisconnect _ _ _, wire_requestDisconnect _ _ _⟩

/-- **The server dispatches a command as the machine does.** -/
theorem dispatchCommand_answers (hlive : s.core.MembersLive) (hfd : s.core.Live fd) :
    s.Answers (s.dispatchCommand fd command) (s.core.dispatch fd command) := by
  unfold dispatchCommand Core.dispatch
  refine answers_ite (fun _ => s.handlePing_answers fd command) fun _ => ?_
  refine answers_ite (fun _ => s.handleQuit_answers fd command) fun _ => ?_
  refine answers_ite (fun _ => s.handleCap_answers fd command) fun _ => ?_
  refine answers_ite (fun _ => s.handlePass_answers fd command) fun _ => ?_
  refine answers_ite (fun _ => s.handleUser_answers fd command) fun _ => ?_
  refine answers_ite (fun _ => s.handleNick_answers fd command hlive hfd) fun _ => ?_
  refine answers_ite (fun _ => s.handlePrivmsg_answers fd command hlive) fun _ => ?_
  refine answers_ite (fun _ => s.handleJoin_answers fd command hlive hfd) fun _ => ?_
  refine answers_ite (fun _ => s.handleTopic_answers fd command hlive) fun _ => ?_
  refine answers_ite (fun _ => s.handleKick_answers fd command hlive) fun _ => ?_
  refine answers_ite (fun _ => s.handleInvite_answers fd command) fun _ => ?_
  refine answers_ite (fun _ => s.handleMode_answers fd command hlive) fun _ => ?_
  exact answers_refuse s fd _ _

theorem announceQuit_answers (hlive : s.core.MembersLive) :
    s.Answers (s.announceQuit fd) (s.core, s.core.quitSignals fd (s.wire.quitReason fd)) := by
  unfold announceQuit Core.quitSignals
  dsimp only
  rw [client_registered, client_source, client_disconnectReason, quitRecipients_eq]
  cases (s.core.who fd).registered with
  | false => exact answers_silent s
  | true =>
    refine ⟨core_queueAll _ _ _, wire_queueAll _ _ _ fun m hm => ?_⟩
    rw [ExtTreeSet.mem_toList, ← quitRecipients_eq, mem_quitRecipients] at hm
    exact live_of_peers s fd hlive hm.1

theorem wire_cleanupClientIrcState : (s.cleanupClientIrcState fd).wire = (s.announceQuit fd).wire := by
  unfold cleanupClientIrcState
  dsimp only
  split <;> rfl

/-- **The server removes a client as the machine does.** -/
theorem removeClient_answers {index : Nat} {p : PollFd} (hp : s.pollFds[index]? = some p)
    (hlive : s.core.MembersLive) (hfd : s.core.Live p.fd) {w : Wire}
    (hw : w = s.wire.deliver (s.core.quitSignals p.fd (s.wire.quitReason p.fd))) :
    (s.removeClient index).core = s.core.disconnect p.fd ∧
      (s.removeClient index).wire = w.disconnect p.fd (w.pollFds.eraseIdx index) := by
  obtain ⟨hdead, -⟩ | ⟨-, hcore, -⟩ := removeClient_spec hp hlive
  · exact absurd hfd hdead
  refine ⟨hcore, ?_⟩
  obtain ⟨c, hc⟩ := Option.isSome_iff_exists.1 ((live_iff s p.fd).1 hfd)
  rw [hw, ← (s.announceQuit_answers p.fd hlive).2, ← wire_cleanupClientIrcState]
  unfold removeClient
  rw [hp]
  dsimp only
  rw [show s.clients[p.fd]? = some c from hc]
  unfold wire Wire.disconnect
  dsimp only [record]
  congr 1
  funext x
  simp only [ExtTreeMap.getElem?_erase, Std.compare_eq_iff_eq]
  split <;> rfl

end Server

end FtIrc
