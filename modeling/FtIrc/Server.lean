import FtIrc.Channel
import FtIrc.Command
import FtIrc.Line

/-!
# The server's state, lookups and output queues

(`includes/Server.hpp`, `srcs/Server/ServerSend.cpp`, `srcs/Server/ServerUtils.cpp`)

The server owns the poll descriptors, the clients by descriptor, the nickname index and
the channels by folded name.  `log` is a history variable: what happened, oldest first.
No definition of the model reads it.
-/

namespace FtIrc

open Std

def maxPendingInput : Nat := 64 * 1024

def maxPendingOutput : Nat := 8 * 1024 * 1024

/-- The bits of `events` and `revents` the server looks at. -/
structure PollEvents where
  pollin : Bool := false
  pollout : Bool := false
  pollerr : Bool := false
  pollhup : Bool := false
  pollnval : Bool := false
deriving DecidableEq

structure PollFd where
  fd : Fd
  events : PollEvents
  revents : PollEvents := {}
deriving DecidableEq

inductive Action where
  | accepted (fd : Fd)
  | removed (fd : Fd)
  | disconnectRequested (fd : Fd) (reason : Text)
  | completeLine (fd : Fd) (line : Text)
  | dispatched (fd : Fd) (command : Command)
  /-- a `queueLine` call and what it returned -/
  | queued (fd : Fd) (line : Line) (accepted : Bool)
  /-- a `findClient == NULL` branch of a loop over members or recipients -/
  | unresolved (fd : Fd)
  | sent (fd : Fd) (bytes : Text)
deriving DecidableEq

structure Server where
  listenerFd : Fd
  password : Text
  pollFds : List PollFd
  clients : ExtTreeMap Fd Client := ∅
  nicknameIndex : ExtTreeMap Text Fd := ∅
  channels : ExtTreeMap Text Channel := ∅
  log : List Action := []

namespace Server

variable (s : Server)

/-- The server the constructor leaves: a listening socket and nobody connected. -/
def start (listenerFd : Fd) (password : Text) : Server where
  listenerFd := listenerFd
  password := password
  pollFds := [{ fd := listenerFd, events := { pollin := true } }]

def record (action : Action) : Server := { s with log := s.log ++ [action] }

/-! ## Lookups -/

def findClient (fd : Fd) : Option Client := s.clients[fd]?

/-- What a `Client &` refers to. -/
def client (fd : Fd) : Client := (s.clients[fd]?).getD {}

def findClientByNickname (nickname : Text) : Option Fd :=
  match s.nicknameIndex[ircCaseFold nickname]? with
  | none => none
  | some fd => (s.findClient fd).map fun _ => fd

def isValidNickname (nickname : Text) : Bool :=
  match nickname with
  | [] => false
  | first :: _ =>
    if first = '#' ∨ first = '&' ∨ first = ':' then false
    else nickname.all fun c => !(c == ' ' || c == ',' || c == '\r' || c == '\n' || c == '\t')

def findChannel (name : Text) : Option Channel := s.channels[ircCaseFold name]?

/-- `isChannelTarget` of `Mode.cpp`; `handleJoin` and `handlePrivmsg` test the same
first character. -/
def isChannelTarget (target : Text) : Bool :=
  match target with
  | [] => false
  | first :: _ => first == '#' || first == '&'

/-! ## Updates through a pointer -/

def modifyClient (fd : Fd) (f : Client → Client) : Server :=
  { s with clients := s.clients.modify fd f }

def setChannel (key : Text) (channel : Channel) : Server :=
  { s with channels := s.channels.insert key channel }

def requestDisconnect (fd : Fd) (reason : Text) : Server :=
  (s.modifyClient fd (·.requestDisconnect reason)).record (.disconnectRequested fd reason)

/-! ## Output -/

/-- The loop at the end of `queueRaw`: watch the first entry of `fd` for `POLLOUT`. -/
def armPollout (fd : Fd) : List PollFd → List PollFd
  | [] => []
  | p :: ps =>
    if p.fd = fd then { p with events := { p.events with pollout := true } } :: ps
    else p :: armPollout fd ps

def queueRaw (fd : Fd) (data : Text) : Server × Bool :=
  let client := s.client fd
  if client.disconnectRequested then (s, false)
  else if data.length = 0 then (s, true)
  else if data.length > maxPendingOutput ∨
      client.getOutputSize > maxPendingOutput - data.length then
    (s.requestDisconnect fd "Exceeded Client OutputBuffer".toList, false)
  else
    ({ s.modifyClient fd (·.appendOutput data) with pollFds := armPollout fd s.pollFds }, true)

def queueLine (fd : Fd) (line : Line) : Server :=
  let result := s.queueRaw fd (line.render ++ "\r\n".toList)
  result.1.record (.queued fd line result.2)

def sendNumeric (fd : Fd) (numeric : Text) (arguments : Arguments) : Server :=
  let client := s.client fd
  s.queueLine fd (.numeric numeric
    (if client.hasNickname then client.nickname else "*".toList) arguments)

/-- The body of every loop over members or recipients. -/
def queueIfFound (fd : Fd) (line : Line) : Server :=
  match s.findClient fd with
  | none => s.record (.unresolved fd)
  | some _ => s.queueLine fd line

def broadcastToChannel (channel : Channel) (line : Line) (excludeFd : Option Fd := none) :
    Server :=
  channel.members.keys.foldl
    (fun s fd => if some fd ≠ excludeFd then s.queueIfFound fd line else s) s

/-- One turn of the loop of `sendChannelNames`. -/
def collectName (found : Server × List (Bool × Text)) (member : Fd × Bool) :
    Server × List (Bool × Text) :=
  match found.1.findClient member.1 with
  | none => (found.1.record (.unresolved member.1), found.2)
  | some client => (found.1, found.2 ++ [(member.2, client.nickname)])

def sendChannelNames (fd : Fd) (channel : Channel) : Server :=
  let (s, namesList) := channel.members.toList.foldl collectName (s, [])
  let s := s.sendNumeric fd "353".toList (.names channel.name namesList)
  s.sendNumeric fd "366".toList (.text (channel.name ++ " :End of /NAMES list".toList))

def sendWelcome (fd : Fd) : Server :=
  let s := s.sendNumeric fd "001".toList (.text
    (":Welcome to this really awesome IRC server !".toList ++ (s.client fd).getPrefix))
  s.sendNumeric fd "376".toList (.text ":End of MOTD command".toList)

/-- A channel whose last member goes is deleted. -/
def removeMemberFromChannel (key : Text) (channel : Channel) (fd : Fd) : Server :=
  let channel := channel.removeMember fd
  if channel.empty then { s with channels := s.channels.erase (ircCaseFold channel.name) }
  else s.setChannel key channel

def tryCompleteRegistration (fd : Fd) : Server :=
  if (s.client fd).registered then s
  else if !(s.client fd).isRegistrationReady then s
  else (s.modifyClient fd (·.setRegistered true)).sendWelcome fd

end Server

end FtIrc
