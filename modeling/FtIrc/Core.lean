import FtIrc.Socket

/-!
# The server as an IRC state and a wire

`Core` is what the commands are about: who is connected under which name, and the
channels.  `Wire` is how lines reach the clients: the two buffers of each connection, the
disconnect flag, the poll descriptors and the history.  Queueing a line leaves the core
alone (`core_queueLine`), and what it does to the wire depends on the wire only
(`wire_queueLine`).
-/

namespace FtIrc

open Std

structure Identity where
  nickname : Text := []
  username : Text := []
  realname : Text := []
  passwordAccepted : Bool := false
  hasUser : Bool := false
  registered : Bool := false
deriving DecidableEq

structure Core where
  listenerFd : Fd
  password : Text
  identities : Fd → Option Identity
  nicknameIndex : ExtTreeMap Text Fd
  channels : ExtTreeMap Text Channel

structure Port where
  outputBuffer : Text := []
  inputBuffer : Text := []
  disconnectRequested : Bool := false
  disconnectReason : Text := []
deriving DecidableEq

structure Wire where
  ports : Fd → Option Port
  pollFds : List PollFd
  log : List Action

def Client.identity (client : Client) : Identity where
  nickname := client.nickname
  username := client.username
  realname := client.realname
  passwordAccepted := client.passwordAccepted
  hasUser := client.hasUser
  registered := client.registered

def Client.port (client : Client) : Port where
  outputBuffer := client.outputBuffer
  inputBuffer := client.inputBuffer
  disconnectRequested := client.disconnectRequested
  disconnectReason := client.disconnectReason

namespace Server

def core (s : Server) : Core where
  listenerFd := s.listenerFd
  password := s.password
  identities fd := (s.clients[fd]?).map Client.identity
  nicknameIndex := s.nicknameIndex
  channels := s.channels

def wire (s : Server) : Wire where
  ports fd := (s.clients[fd]?).map Client.port
  pollFds := s.pollFds
  log := s.log

end Server

/-! ## Operations of the core -/

namespace Core

variable (κ : Core)

/-- Who a `Client &` refers to. -/
def who (fd : Fd) : Identity := (κ.identities fd).getD {}

def modify (fd : Fd) (f : Identity → Identity) : Core :=
  { κ with identities := fun x => if fd = x then (κ.identities x).map f else κ.identities x }

def setChannel (key : Text) (channel : Channel) : Core :=
  { κ with channels := κ.channels.insert key channel }

def replyTarget (fd : Fd) : Text :=
  if (κ.who fd).nickname.isEmpty then "*".toList else (κ.who fd).nickname

def Live (fd : Fd) : Prop := (κ.identities fd).isSome

/-- Every member of every channel is connected. -/
def MembersLive : Prop := ∀ (key : Text) (c : Channel), κ.channels[key]? = some c → ∀ m ∈ c.members, κ.Live m

/-- `findClientByNickname`. -/
def holder (nickname : Text) : Option Fd :=
  match κ.nicknameIndex[ircCaseFold nickname]? with
  | none => none
  | some fd => (κ.identities fd).map fun _ => fd

end Core

def Identity.source (id : Identity) : Source := ⟨id.nickname, id.username⟩

/-! ## Operations of the wire -/

namespace Wire

variable (w : Wire)

def port (fd : Fd) : Port := (w.ports fd).getD {}

def modify (fd : Fd) (f : Port → Port) : Wire :=
  { w with ports := fun x => if fd = x then (w.ports x).map f else w.ports x }

def record (action : Action) : Wire := { w with log := w.log ++ [action] }

def requestDisconnect (fd : Fd) (reason : Text) : Wire :=
  (w.modify fd fun p => { p with disconnectReason := reason, disconnectRequested := true }).record
    (.disconnectRequested fd reason)

end Wire

/-- Whether the output buffer has room for `data`. -/
def Port.Fits (p : Port) (data : Text) : Prop :=
  data.length ≤ maxPendingOutput ∧ p.outputBuffer.length ≤ maxPendingOutput - data.length

instance (p : Port) (data : Text) : Decidable (p.Fits data) := by unfold Port.Fits; infer_instance

/-- A line with its terminator. -/
def Line.bytes (line : Line) : Text := line.render ++ "\r\n".toList

namespace Wire

variable (w : Wire)

def queueLine (fd : Fd) (line : Line) : Wire :=
  if (w.port fd).disconnectRequested then w.record (.queued fd line false)
  else if (w.port fd).Fits line.bytes then
    { w.modify fd fun p => { p with outputBuffer := p.outputBuffer ++ line.bytes } with
      pollFds := Server.armPollout fd w.pollFds }.record (.queued fd line true)
  else
    (w.requestDisconnect fd "Exceeded Client OutputBuffer".toList).record (.queued fd line false)

end Wire

/-- What a handler asks of the wire. -/
inductive Signal where
  | line (fd : Fd) (line : Line)
  | disconnect (fd : Fd) (reason : Text)

namespace Wire

def signal (w : Wire) : Signal → Wire
  | .line fd line => w.queueLine fd line
  | .disconnect fd reason => w.requestDisconnect fd reason

def deliver (w : Wire) (signals : List Signal) : Wire := signals.foldl signal w

@[simp] theorem deliver_nil (w : Wire) : w.deliver [] = w := rfl

@[simp] theorem deliver_cons (w : Wire) (x : Signal) (xs : List Signal) :
    w.deliver (x :: xs) = (w.signal x).deliver xs := rfl

@[simp] theorem signal_line (w : Wire) (fd : Fd) (line : Line) :
    w.signal (.line fd line) = w.queueLine fd line := rfl

@[simp] theorem signal_disconnect (w : Wire) (fd : Fd) (reason : Text) :
    w.signal (.disconnect fd reason) = w.requestDisconnect fd reason := rfl

theorem deliver_append (w : Wire) (xs ys : List Signal) :
    w.deliver (xs ++ ys) = (w.deliver xs).deliver ys := List.foldl_append

end Wire

/-- The same line to each of `fds`, in order. -/
def toAll (fds : List Fd) (line : Line) : List Signal := fds.map (.line · line)

@[simp] theorem toAll_nil (line : Line) : toAll [] line = [] := rfl

@[simp] theorem toAll_cons (fd : Fd) (fds : List Fd) (line : Line) :
    toAll (fd :: fds) line = .line fd line :: toAll fds line := rfl

/-! ## Both sides of a server update -/

namespace Server

variable (s : Server) (fd : Fd)

theorem core_modifyClient {f : Client → Client} {g : Identity → Identity}
    (h : ∀ c, (f c).identity = g c.identity) :
    (s.modifyClient fd f).core = s.core.modify fd g := by
  unfold core modifyClient Core.modify
  congr 1
  funext x
  simp only [ExtTreeMap.getElem?_modify, Std.compare_eq_iff_eq]
  by_cases hx : fd = x
  · subst hx
    simp only [if_true, Option.map_map]
    congr 1
    exact funext h
  · simp only [if_neg hx]

theorem wire_modifyClient {f : Client → Client} {g : Port → Port}
    (h : ∀ c, (f c).port = g c.port) : (s.modifyClient fd f).wire = s.wire.modify fd g := by
  unfold wire modifyClient Wire.modify
  congr 1
  funext x
  simp only [ExtTreeMap.getElem?_modify, Std.compare_eq_iff_eq]
  by_cases hx : fd = x
  · subst hx
    simp only [if_true, Option.map_map]
    congr 1
    exact funext h
  · simp only [if_neg hx]

end Server

theorem Core.modify_id (κ : Core) (fd : Fd) : κ.modify fd id = κ := by
  unfold Core.modify
  simp

theorem Wire.modify_id (w : Wire) (fd : Fd) : w.modify fd id = w := by
  unfold Wire.modify
  simp

end FtIrc
