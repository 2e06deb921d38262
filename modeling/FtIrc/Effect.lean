import FtIrc.Sending
import FtIrc.Lib.Maps

/-!
# What a command can do

`Effect κ fd command κ' signals` lists every way a command of the client on `fd` can go in
the core `κ`: the core it leaves, and what it asks of the wire, in order.  Each case
carries the checks the handler made on the way.  `dispatchCommand_effect` says there is no
other way; what holds of commands in general is proved from these cases.
-/

namespace FtIrc

open Std

/-- A numeric with a text, or a plain reply: a line that tells of no event. -/
def Line.isReply : Line → Bool
  | .numeric _ _ (.text _) => true
  | .plain _ => true
  | _ => false

namespace Core

variable (κ : Core) (fd : Fd)

/-! ## Registration -/

/-- `tryCompleteRegistration` registers the client. -/
def completes : Bool :=
  !(κ.who fd).registered && ((κ.who fd).passwordAccepted && !(κ.who fd).nickname.isEmpty &&
    (κ.who fd).hasUser)

def complete : Core :=
  if κ.completes fd then κ.modify fd ({ · with registered := true }) else κ

def welcome : List Signal :=
  if κ.completes fd then
    [.line fd (.numeric "001".toList (κ.replyTarget fd) (.text
      (":Welcome to this really awesome IRC server !".toList ++ (κ.who fd).source.render))),
     .line fd (.numeric "376".toList (κ.replyTarget fd) (.text ":End of MOTD command".toList))]
  else []

def acceptPassword : Core := κ.modify fd ({ · with passwordAccepted := true })

def setUser (username realname : Text) : Core :=
  κ.modify fd ({ · with username := username, realname := realname, hasUser := true })

/-- The whole of a successful NICK: invitations, index and client. -/
def rename (nickname : Text) : Core :=
  let old := (κ.who fd).nickname
  let κ' := κ.modify fd ({ · with nickname := nickname })
  if old.isEmpty then { κ' with nicknameIndex := κ.nicknameIndex.insert (ircCaseFold nickname) fd }
  else
    { κ' with
      channels := κ.channels.map fun _ channel => Server.renameInvite old nickname channel
      nicknameIndex := (κ.nicknameIndex.erase (ircCaseFold old)).insert (ircCaseFold nickname) fd }

/-! ## Channels -/

/-- The two clients share a channel. -/
def Peers (m : Fd) : Prop :=
  ∃ (key : Text) (c : Channel), κ.channels[key]? = some c ∧ fd ∈ c.members ∧ m ∈ c.members

/-- `removeMemberFromChannel`. -/
def dropMember (key : Text) (c : Channel) : Core :=
  if (c.removeMember fd).empty then { κ with channels := κ.channels.erase (ircCaseFold c.name) }
  else κ.setChannel key (c.removeMember fd)

/-- What a client reads when it joins `c`, after the relay to all members. -/
def joinReplies (c : Channel) : List Signal :=
  [.line fd (if c.hasTopic
    then .numeric "332".toList (κ.replyTarget fd) (.text (c.name ++ " :".toList ++ c.topic))
    else .numeric "331".toList (κ.replyTarget fd) (.text (c.name ++ " :No topic is set".toList))),
   .line fd (.numeric "353".toList (κ.replyTarget fd) (.names c.name (κ.namesOf c))),
   .line fd (.numeric "366".toList (κ.replyTarget fd)
    (.text (c.name ++ " :End of /NAMES list".toList)))]

def joinSignals (c : Channel) : List Signal :=
  toAll c.members.keys (.relay (κ.who fd).source (.join c.name)) ++ κ.joinReplies fd c

end Core

/-! ## MODE -/

/-- A mode change that alters the channel, and the channel it makes. -/
inductive ModeApplied (κ : Core) (change : ModeChange) (c : Channel) : Channel → Prop
  | inviteOnly : change.mode = 'i' → c.inviteOnly ≠ change.adding →
      ModeApplied κ change c (c.setInviteOnly change.adding)
  | topicRestricted : change.mode = 't' → c.topicRestricted ≠ change.adding →
      ModeApplied κ change c (c.setTopicRestricted change.adding)
  | setKey : change.mode = 'k' → change.adding = true → change.argument ≠ [] →
      ¬ (c.hasKey = true ∧ c.key = change.argument) →
      ModeApplied κ change c (c.setKey change.argument)
  | removeKey : change.mode = 'k' → change.adding = false → c.hasKey = true →
      ModeApplied κ change c c.removeKey
  | setOperator (target : Fd) : change.mode = 'o' → κ.holder change.argument = some target →
      c.hasMember target = true → c.isMemberOperator target ≠ change.adding →
      ModeApplied κ change c (c.setMemberOperator target change.adding)
  | setUserLimit (limit : Nat) : change.mode = 'l' → change.adding = true →
      Server.parsePositiveUserLimit change.argument = some limit →
      ¬ (c.hasUserLimit = true ∧ c.userLimit = limit) →
      ModeApplied κ change c (c.setUserLimit limit)
  | removeUserLimit : change.mode = 'l' → change.adding = false → c.hasUserLimit = true →
      ModeApplied κ change c c.removeUserLimit

/-- The changes of one MODE line, in order: each is refused with a numeric, has no effect,
or is applied and announced to the members. -/
inductive ModeRun (fd : Fd) (key : Text) : Core → List ModeChange → Core → List Signal → Prop
  | nil (κ : Core) : ModeRun fd key κ [] κ []
  | refused {κ κ' : Core} {change : ModeChange} {changes : List ModeChange}
      {signals : List Signal} (line : Line) : line.isReply = true →
      ModeRun fd key κ changes κ' signals →
      ModeRun fd key κ (change :: changes) κ' (.line fd line :: signals)
  | unchanged {κ κ' : Core} {change : ModeChange} {changes : List ModeChange}
      {signals : List Signal} : ModeRun fd key κ changes κ' signals →
      ModeRun fd key κ (change :: changes) κ' signals
  | applied {κ κ' : Core} {change : ModeChange} {changes : List ModeChange}
      {signals : List Signal} {c c' : Channel} : κ.channels[key]? = some c →
      ModeApplied κ change c c' → ModeRun fd key (κ.setChannel key c') changes κ' signals →
      ModeRun fd key κ (change :: changes) κ'
        (toAll c'.members.keys (.relay (κ.who fd).source (.mode c'.name change)) ++ signals)

/-! ## Commands -/

inductive Effect (κ : Core) (fd : Fd) (command : Command) : Core → List Signal → Prop
  | silent : Effect κ fd command κ []
  | reply (line : Line) : line.isReply = true → Effect κ fd command κ [.line fd line]
  | quit : command.name = "QUIT".toList →
      Effect κ fd command κ
        [.disconnect fd (command.parameters.head?.getD "Client Quit".toList)]
  | pass : command.name = "PASS".toList → (κ.who fd).registered = false →
      command.parameters.head? = some κ.password →
      Effect κ fd command ((κ.acceptPassword fd).complete fd) ((κ.acceptPassword fd).welcome fd)
  | user (username mode unused realname : Text) (rest : List Text) :
      command.name = "USER".toList → (κ.who fd).registered = false →
      command.parameters = username :: mode :: unused :: realname :: rest →
      Effect κ fd command ((κ.setUser fd username realname).complete fd)
        ((κ.setUser fd username realname).welcome fd)
  | nick (nickname : Text) (rest : List Text) (recipients : List Fd) :
      command.name = "NICK".toList → command.parameters = nickname :: rest →
      Server.isValidNickname nickname = true →
      (∀ other, κ.nicknameIndex[ircCaseFold nickname]? = some other → other = fd) →
      (κ.who fd).nickname ≠ nickname → recipients.Nodup →
      (∀ m, m ∈ recipients ↔ (κ.who fd).registered = true ∧ (κ.who fd).nickname ≠ [] ∧
        (m = fd ∨ κ.Peers fd m)) →
      Effect κ fd command ((κ.rename fd nickname).complete fd)
        (toAll recipients (.relay (κ.who fd).source (.nick nickname)) ++
          (κ.rename fd nickname).welcome fd)
  | create (channelName : Text) (rest : List Text) :
      command.name = "JOIN".toList → command.parameters = channelName :: rest →
      (κ.who fd).registered = true → Server.isChannelTarget channelName = true →
      κ.channels[ircCaseFold channelName]? = none →
      Effect κ fd command
        (κ.setChannel (ircCaseFold channelName)
          (({ name := channelName } : Channel).addMember fd true))
        (κ.joinSignals fd (({ name := channelName } : Channel).addMember fd true))
  | join (channelName : Text) (rest : List Text) (c : Channel) :
      command.name = "JOIN".toList → command.parameters = channelName :: rest →
      (κ.who fd).registered = true → Server.isChannelTarget channelName = true →
      κ.channels[ircCaseFold channelName]? = some c → c.hasMember fd = false →
      (c.inviteOnly = true → c.isInvited (κ.who fd).nickname = true) →
      (c.hasKey = true → rest.head?.getD [] = c.key) →
      (c.hasUserLimit = true → c.getMemberCount < c.userLimit) →
      Effect κ fd command
        (κ.setChannel (ircCaseFold channelName)
          ((c.addMember fd false).removeInvite (κ.who fd).nickname))
        (κ.joinSignals fd ((c.addMember fd false).removeInvite (κ.who fd).nickname))
  | privmsgChannel (targetName text : Text) (rest : List Text) (c : Channel) :
      command.name = "PRIVMSG".toList → command.parameters = targetName :: text :: rest →
      (κ.who fd).registered = true → Server.isChannelTarget targetName = true →
      κ.channels[ircCaseFold targetName]? = some c → c.hasMember fd = true →
      Effect κ fd command κ
        (toAll (c.members.keys.filter (some · ≠ some fd))
          (.relay (κ.who fd).source (.privmsg targetName text)))
  | privmsgUser (targetName text : Text) (rest : List Text) (target : Fd) :
      command.name = "PRIVMSG".toList → command.parameters = targetName :: text :: rest →
      (κ.who fd).registered = true → Server.isChannelTarget targetName = false →
      κ.holder targetName = some target →
      Effect κ fd command κ
        [.line target (.relay (κ.who fd).source (.privmsg (κ.who target).nickname text))]
  | topic (channelName newTopic : Text) (rest : List Text) (c : Channel) :
      command.name = "TOPIC".toList → command.parameters = channelName :: newTopic :: rest →
      (κ.who fd).registered = true → κ.channels[ircCaseFold channelName]? = some c →
      c.hasMember fd = true → (c.topicRestricted = true → c.isMemberOperator fd = true) →
      Effect κ fd command (κ.setChannel (ircCaseFold channelName) (c.setTopic newTopic))
        (toAll c.members.keys (.relay (κ.who fd).source (.topic channelName newTopic)))
  | kick (channelName targetNick : Text) (rest : List Text) (c : Channel) (target : Fd) :
      command.name = "KICK".toList → command.parameters = channelName :: targetNick :: rest →
      (κ.who fd).registered = true → κ.channels[ircCaseFold channelName]? = some c →
      c.isMemberOperator fd = true → κ.holder targetNick = some target →
      c.hasMember target = true →
      Effect κ fd command (κ.dropMember target (ircCaseFold channelName) c)
        (toAll c.members.keys (.relay (κ.who fd).source
          (.kick channelName targetNick (rest.head?.getD (κ.who fd).nickname))))
  | invite (targetNick channelName : Text) (rest : List Text) (c : Channel) (target : Fd) :
      command.name = "INVITE".toList → command.parameters = targetNick :: channelName :: rest →
      (κ.who fd).registered = true → κ.holder targetNick = some target →
      κ.channels[ircCaseFold channelName]? = some c → c.isMemberOperator fd = true →
      c.hasMember target = false →
      Effect κ fd command (κ.setChannel (ircCaseFold channelName) (c.addInvite targetNick))
        [.line fd (.numeric "341".toList (κ.replyTarget fd)
          (.text (targetNick ++ " ".toList ++ channelName))),
         .line target (.relay (κ.who fd).source (.invite targetNick channelName))]
  | mode (target : Text) (rest : List Text) (c : Channel) (changes : List ModeChange)
      (κ' : Core) (signals : List Signal) :
      command.name = "MODE".toList → command.parameters = target :: rest →
      (κ.who fd).registered = true → κ.channels[ircCaseFold target]? = some c →
      c.isMemberOperator fd = true →
      Server.parseChannelModeChanges command.parameters = some changes →
      ModeRun fd (ircCaseFold target) κ changes κ' signals →
      Effect κ fd command κ' signals

/-- What became of the server: the core and the signals that `E` allows. -/
def Server.Becomes (s s' : Server) (E : Core → List Signal → Prop) : Prop :=
  ∃ signals, E s'.core signals ∧ s'.wire = s.wire.deliver signals

end FtIrc
