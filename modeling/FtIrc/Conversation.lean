import FtIrc.Server

/-!
# Channel and message commands

(`srcs/Command/` `Join.cpp`, `Privmsg.cpp`, `Topic.cpp`, `Kick.cpp`, `Invite.cpp`)

Each handler checks, changes the channel it found and relays the change.  A `Channel *` is
the key the channel is stored under, with the channel's current value beside it.
-/

namespace FtIrc.Server

variable (s : Server) (fd : Fd) (command : Command)

/-- What `handleJoin` queues once the client is a member. -/
def announceJoin (channel : Channel) : Server :=
  let s := s.broadcastToChannel channel (.relay (s.client fd).source (.join channel.name))
  let s :=
    if channel.hasTopic then
      s.sendNumeric fd "332".toList (.text (channel.name ++ " :".toList ++ channel.topic))
    else s.sendNumeric fd "331".toList (.text (channel.name ++ " :No topic is set".toList))
  s.sendChannelNames fd channel

def handleJoin : Server :=
  let client := s.client fd
  if !client.registered then
    s.sendNumeric fd "451".toList (.text ":You have not registered".toList)
  else
    match command.parameters with
    | [] => s.sendNumeric fd "461".toList (.text "JOIN :Not enough parameters".toList)
    | channelName :: rest =>
      if !isChannelTarget channelName then
        s.sendNumeric fd "403".toList (.text (channelName ++ " :No such channel".toList))
      else
        let key := ircCaseFold channelName
        match s.findChannel channelName with
        | none =>
          let channel := ({ name := channelName } : Channel).addMember fd true
          (s.setChannel key channel).announceJoin fd channel
        | some channel =>
          if channel.hasMember fd then s
          else if channel.inviteOnly && !channel.isInvited client.nickname then
            s.sendNumeric fd "473".toList
              (.text (channel.name ++ " :Cannot join channel (+i)".toList))
          else if channel.hasKey && rest.head?.getD [] != channel.key then
            s.sendNumeric fd "475".toList
              (.text (channel.name ++ " :Cannot join channel (+k)".toList))
          else if channel.hasUserLimit && decide (channel.getMemberCount ≥ channel.userLimit) then
            s.sendNumeric fd "471".toList
              (.text (channel.name ++ " :Cannot join channel (+l)".toList))
          else
            let channel := (channel.addMember fd false).removeInvite client.nickname
            (s.setChannel key channel).announceJoin fd channel

def handlePrivmsg : Server :=
  let client := s.client fd
  if !client.registered then
    s.sendNumeric fd "451".toList (.text ":You have not registered".toList)
  else
    match command.parameters with
    | [] => s.sendNumeric fd "411".toList (.text ":No recipient given (PRIVMSG)".toList)
    | [_] => s.sendNumeric fd "412".toList (.text ":No text to send".toList)
    | targetName :: text :: _ =>
      if isChannelTarget targetName then
        match s.findChannel targetName with
        | none => s.sendNumeric fd "401".toList (.text (targetName ++ " :No such nick/channel".toList))
        | some channel =>
          if !channel.hasMember fd then
            s.sendNumeric fd "404".toList (.text (targetName ++ " :Cannot send to channel".toList))
          else
            s.broadcastToChannel channel (.relay client.source (.privmsg targetName text)) (some fd)
      else
        match s.findClientByNickname targetName with
        | none => s.sendNumeric fd "401".toList (.text (targetName ++ " :No such nick/channel".toList))
        | some target =>
          s.queueLine target
            (.relay client.source (.privmsg (s.client target).nickname text))

def handleTopic : Server :=
  let client := s.client fd
  if !client.registered then
    s.sendNumeric fd "451".toList (.text ":You have not registered".toList)
  else
    match command.parameters with
    | [] => s.sendNumeric fd "461".toList (.text "TOPIC :Not enough parameters".toList)
    | channelName :: rest =>
      match s.findChannel channelName with
      | none => s.sendNumeric fd "403".toList (.text (channelName ++ " :No such channel".toList))
      | some channel =>
        if !channel.hasMember fd then
          s.sendNumeric fd "442".toList
            (.text (channelName ++ " :You're not on that channel".toList))
        else
          match rest with
          | [] =>
            if channel.hasTopic then
              s.sendNumeric fd "332".toList (.text (channelName ++ " :".toList ++ channel.topic))
            else s.sendNumeric fd "331".toList (.text (channelName ++ " :No topic is set".toList))
          | newTopic :: _ =>
            if channel.topicRestricted && !channel.isMemberOperator fd then
              s.sendNumeric fd "482".toList
                (.text (channelName ++ " :You're not channel operator".toList))
            else
              let channel := channel.setTopic newTopic
              (s.setChannel (ircCaseFold channelName) channel).broadcastToChannel channel
                (.relay client.source (.topic channelName newTopic))

def handleKick : Server :=
  let client := s.client fd
  if !client.registered then
    s.sendNumeric fd "451".toList (.text ":You have not registered".toList)
  else
    match command.parameters with
    | channelName :: targetNick :: rest =>
      match s.findChannel channelName with
      | none => s.sendNumeric fd "403".toList (.text (channelName ++ " :No such channel".toList))
      | some channel =>
        if !channel.hasMember fd then
          s.sendNumeric fd "442".toList
            (.text (channelName ++ " :You're not on that channel".toList))
        else if !channel.isMemberOperator fd then
          s.sendNumeric fd "482".toList
            (.text (channelName ++ " :You're not channel operator".toList))
        else
          match (s.findClientByNickname targetNick).filter channel.hasMember with
          | none =>
            s.sendNumeric fd "441".toList
              (.text (targetNick ++ " ".toList ++ channelName ++
                " :They aren't on that channel".toList))
          | some target =>
            let reason := rest.head?.getD client.nickname
            let s := s.broadcastToChannel channel
              (.relay client.source (.kick channelName targetNick reason))
            s.removeMemberFromChannel (ircCaseFold channelName) channel target
    | _ => s.sendNumeric fd "461".toList (.text "KICK :Not enough parameters".toList)

def handleInvite : Server :=
  let client := s.client fd
  if !client.registered then
    s.sendNumeric fd "451".toList (.text ":You have not registered".toList)
  else
    match command.parameters with
    | targetNick :: channelName :: _ =>
      match s.findClientByNickname targetNick with
      | none => s.sendNumeric fd "401".toList (.text (targetNick ++ " :No such nick/channel".toList))
      | some target =>
        match s.findChannel channelName with
        | none => s.sendNumeric fd "403".toList (.text (channelName ++ " :No such channel".toList))
        | some channel =>
          if !channel.hasMember fd then
            s.sendNumeric fd "442".toList
              (.text (channelName ++ " :You're not on that channel".toList))
          else if !channel.isMemberOperator fd then
            s.sendNumeric fd "482".toList
              (.text (channelName ++ " :You're not channel operator".toList))
          else if channel.hasMember target then
            s.sendNumeric fd "443".toList
              (.text (targetNick ++ " ".toList ++ channelName ++ " :is already on channel".toList))
          else
            let s := s.setChannel (ircCaseFold channelName) (channel.addInvite targetNick)
            let s := s.sendNumeric fd "341".toList
              (.text (targetNick ++ " ".toList ++ channelName))
            s.queueLine target (.relay client.source (.invite targetNick channelName))
    | _ => s.sendNumeric fd "461".toList (.text "INVITE :Not enough parameters".toList)

end FtIrc.Server
