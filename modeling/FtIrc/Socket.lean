import FtIrc.Dispatch

/-!
# Connections (`srcs/Server/ServerSocket.cpp`, `ServerSend.cpp`, `Server.cpp`)

Accepting, reading, writing and removing a client.  What a system call returns is an
argument: `recv` and `send` return `none` for `-1`, and `recv` the empty text at the end
of the stream.
-/

namespace FtIrc.Server

open Std

variable (s : Server)

/-! ## Accepting -/

inductive AcceptResult where
  | failed
  /-- `accept` succeeds and the `fcntl` of `setNonBlocking` does not -/
  | blocking (fd : Fd)
  | connected (fd : Fd)
deriving DecidableEq

def addPollFd (fd : Fd) (events : PollEvents) : Except String Server :=
  if s.pollFds.any (·.fd == fd) then .error "attempted to register the same fd twice !!!"
  else .ok { s with pollFds := s.pollFds ++ [{ fd := fd, events := events }] }

/-- An exception leaves `run`, and the process ends. -/
def acceptClient : AcceptResult → Except String Server
  | .failed => .ok s
  | .blocking _ => .error "fcntl() failed"
  | .connected fd =>
    if s.clients.contains fd then .error "accepted fd already belongs to a client"
    else
      ({ s with clients := s.clients.insert fd {} }.record (.accepted fd)).addPollFd fd
        { pollin := true }

/-! ## Removing -/

/-- Everyone else the client shares a channel with, each once. -/
def quitRecipients (fd : Fd) : ExtTreeSet Fd :=
  s.channels.foldl
    (fun recipients _ channel =>
      if channel.hasMember fd then
        channel.members.foldl
          (fun recipients member _ =>
            if member ≠ fd then recipients.insert member else recipients) recipients
      else recipients)
    ∅

/-- What the last loop of `cleanupClientIrcState` leaves of a channel, if anything. -/
def purgeChannel (fd : Fd) (nickname : Text) (channel : Channel) : Option Channel :=
  let channel := if nickname.isEmpty then channel else channel.removeInvite nickname
  let channel := channel.removeMember fd
  if channel.empty then none else some channel

/-- The relays of `cleanupClientIrcState`: a client that never registered leaves unannounced. -/
def announceQuit (fd : Fd) : Server :=
  let client := s.client fd
  if client.registered then
    let reason :=
      if client.disconnectReason.isEmpty then "Connection closed".toList
      else client.disconnectReason
    (s.quitRecipients fd).toList.foldl
      (fun s target => s.queueIfFound target (.relay client.source (.quit reason))) s
  else s

/-- `removeClient` deletes the client right after: this is all that is left of it. -/
def cleanupClientIrcState (fd : Fd) : Server :=
  let client := s.client fd
  let s := s.announceQuit fd
  let s := { s with channels := s.channels.filterMap fun _ => purgeChannel fd client.nickname }
  if !client.nickname.isEmpty && s.nicknameIndex[ircCaseFold client.nickname]? == some fd then
    { s with nicknameIndex := s.nicknameIndex.erase (ircCaseFold client.nickname) }
  else s

def removeClient (index : Nat) : Server :=
  match s.pollFds[index]? with
  | none => s
  | some p =>
    let s :=
      match s.clients[p.fd]? with
      | none => s
      | some _ =>
        let s := s.cleanupClientIrcState p.fd
        { s with clients := s.clients.erase p.fd }.record (.removed p.fd)
    { s with pollFds := s.pollFds.eraseIdx index }

/-! ## Reading -/

/-- The loop of `receiveFromClient` over the complete lines of the input buffer.  Each
turn takes at least one byte from it. -/
def handleLines (fd : Fd) : Nat → Server → Server
  | 0, s => s
  | turns + 1, s =>
    match (s.client fd).popLine with
    | none => s
    | some (line, client) =>
      let s := (s.modifyClient fd fun _ => client).handleCompleteLine fd line
      if (s.client fd).disconnectRequested then s else handleLines fd turns s

def receiveFromClient (index : Nat) (received : Option Text) : Server × Bool :=
  match s.pollFds[index]? with
  | none => (s, false)
  | some p =>
    match s.findClient p.fd with
    | none => (s, false)
    | some _ =>
      match received with
      | none => (s, false)
      | some [] => (s, false)
      | some data =>
        let s := s.modifyClient p.fd (·.appendInput data)
        let s := handleLines p.fd (s.client p.fd).getInputSize s
        (s, !decide ((s.client p.fd).getInputSize > maxPendingInput))

/-! ## Writing -/

def disarmPollout (index : Nat) : Server :=
  { s with pollFds := s.pollFds.modify index fun p =>
      { p with events := { p.events with pollout := false } } }

def flushClientOutput (index : Nat) (sent : Option Nat) : Server × Bool :=
  match s.pollFds[index]? with
  | none => (s, false)
  | some p =>
    match s.findClient p.fd with
    | none => (s, false)
    | some client =>
      if !client.hasOutput then (s.disarmPollout index, true)
      else
        match sent with
        | none => (s.requestDisconnect p.fd "Write error".toList, false)
        | some 0 => (s.requestDisconnect p.fd "Write error".toList, false)
        | some length =>
          let s := (s.modifyClient p.fd (·.consumeOutput length)).record
            (.sent p.fd (client.outputBuffer.take length))
          if (s.client p.fd).hasOutput then (s, true) else (s.disarmPollout index, true)

end FtIrc.Server
