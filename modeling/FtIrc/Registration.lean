import FtIrc.Server

/-!
# Registration and session commands

(`srcs/Command/` `Pass.cpp`, `User.cpp`, `Nick.cpp`, `Ping.cpp`, `Cap.cpp`, `Quit.cpp`)

`PASS`, `NICK` and `USER` register a client in any order; `NICK` renames it later, and
tells everyone who shares a channel with it.
-/

namespace FtIrc.Server

open Std

variable (s : Server) (fd : Fd) (command : Command)

def handlePass : Server :=
  if (s.client fd).registered then
    s.sendNumeric fd "462".toList (.text ":You may not reregister".toList)
  else
    match command.parameters with
    | [] => s.sendNumeric fd "461".toList (.text "PASS :Not enough parameters".toList)
    | password :: _ =>
      if password ≠ s.password then
        s.sendNumeric fd "464".toList (.text ":Password incorrect".toList)
      else (s.modifyClient fd (·.setPasswordAccepted)).tryCompleteRegistration fd

def handleUser : Server :=
  if (s.client fd).registered then
    s.sendNumeric fd "462".toList (.text ":You may not reregister".toList)
  else
    match command.parameters with
    | username :: _ :: _ :: realname :: _ =>
      (s.modifyClient fd (·.setUser username realname)).tryCompleteRegistration fd
    | _ => s.sendNumeric fd "461".toList (.text "USER :Not enough parameters".toList)

/-! ## NICK -/

/-- The client itself and everyone it shares a channel with, each once. -/
def nickRecipients : ExtTreeSet Fd :=
  s.channels.foldl
    (fun recipients _ channel =>
      if channel.hasMember fd then
        channel.members.foldl (fun recipients member _ => recipients.insert member) recipients
      else recipients)
    ((∅ : ExtTreeSet Fd).insert fd)

/-- An invitation follows the nickname of the client it was made to. -/
def renameInvite (oldNickname nickname : Text) (channel : Channel) : Channel :=
  if channel.isInvited oldNickname then (channel.removeInvite oldNickname).addInvite nickname
  else channel

/-- What a successful NICK updates: the invitations, the index and the client. -/
def changeNickname (nickname : Text) : Server :=
  let client := s.client fd
  let s :=
    if client.hasNickname then
      { s with
        channels := s.channels.map fun _ channel => renameInvite client.nickname nickname channel
        nicknameIndex := s.nicknameIndex.erase (ircCaseFold client.nickname) }
    else s
  let s := s.modifyClient fd (·.setNickname nickname)
  { s with nicknameIndex := s.nicknameIndex.insert (ircCaseFold nickname) fd }

def handleNick : Server :=
  match command.parameters with
  | [] => s.sendNumeric fd "431".toList (.text ":No nickname given".toList)
  | nickname :: _ =>
    if !isValidNickname nickname then
      s.sendNumeric fd "432".toList (.text (nickname ++ " :Erroneous nickname".toList))
    else
      let key := ircCaseFold nickname
      if (s.nicknameIndex[key]?).any (· != fd) then
        s.sendNumeric fd "433".toList (.text (nickname ++ " :Nickname is already in use".toList))
      else
        let client := s.client fd
        -- a change of case only is a change
        if client.hasNickname && client.nickname == nickname then s
        else
          let recipients :=
            if client.hasNickname && client.registered then s.nickRecipients fd else ∅
          let s := s.changeNickname fd nickname
          -- the first NICK of a registration is not relayed
          let s :=
            if client.registered then
              recipients.toList.foldl
                (fun s target => s.queueIfFound target (.relay client.source (.nick nickname))) s
            else s
          s.tryCompleteRegistration fd

/-! ## PING, CAP, QUIT and the rest -/

def handlePing : Server :=
  match command.parameters with
  | [] => s.queueLine fd (.plain ":ircserv 409 * :No origin specified".toList)
  | token :: _ => s.queueLine fd (.plain (":ircserv PONG ircserv :".toList ++ token))

def handleCap : Server :=
  match command.parameters with
  | [] => s
  | subcommand :: rest =>
    if subcommand = "LS".toList then s.queueLine fd (.plain ":ircserv CAP * LS".toList)
    else if subcommand = "REQ".toList then
      s.queueLine fd (.plain (":ircserv CAP * NAK ".toList ++ rest.head?.getD []))
    else s

/-- Only the flag is raised here; the `QUIT` line is queued when the client is removed. -/
def handleQuit : Server :=
  s.requestDisconnect fd (command.parameters.head?.getD "Client Quit".toList)

def handleUnknownCommand : Server :=
  s.sendNumeric fd "421".toList (.text (command.name ++ " :Unknown command".toList))

end FtIrc.Server
