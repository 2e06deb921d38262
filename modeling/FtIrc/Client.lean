import FtIrc.Text

/-!
# Clients (`srcs/Client.cpp`, `srcs/ClientRegister.cpp`)

What the server keeps of a connection: who it is, how far it has registered, and its
two buffers.  A `Client *` is the descriptor the client is stored under (`acceptClient`
stores it under its own `_fd`, and nothing changes either), so `_fd` is no field here.
`{}` is what the constructor builds.
-/

namespace FtIrc

structure Client where
  nickname : Text := []
  username : Text := []
  realname : Text := []
  passwordAccepted : Bool := false
  hasUser : Bool := false
  registered : Bool := false
  outputBuffer : Text := []
  inputBuffer : Text := []
  disconnectRequested : Bool := false
  disconnectReason : Text := []
deriving DecidableEq

namespace Client

variable (client : Client)

def requestDisconnect (reason : Text) : Client :=
  { client with disconnectReason := reason, disconnectRequested := true }

/-! ## Buffers -/

def appendOutput (data : Text) : Client :=
  { client with outputBuffer := client.outputBuffer ++ data }

def hasOutput : Bool := !client.outputBuffer.isEmpty

def getOutputSize : Nat := client.outputBuffer.length

def consumeOutput (length : Nat) : Client :=
  if length ≥ client.outputBuffer.length then { client with outputBuffer := [] }
  else { client with outputBuffer := client.outputBuffer.drop length }

def appendInput (data : Text) : Client :=
  { client with inputBuffer := client.inputBuffer ++ data }

def getInputSize : Nat := client.inputBuffer.length

/-- The line without one trailing carriage return. -/
def stripReturn (line : Text) : Text :=
  if line.getLast? = some '\r' then line.dropLast else line

/-- The first complete line of the input buffer, and the client without it. -/
def popLine : Option (Text × Client) :=
  match client.inputBuffer.dropWhile (· != '\n') with
  | [] => none
  | _ :: rest =>
    some (stripReturn (client.inputBuffer.takeWhile (· != '\n')),
      { client with inputBuffer := rest })

/-! ## Registration -/

def hasNickname : Bool := !client.nickname.isEmpty

def setPasswordAccepted : Client := { client with passwordAccepted := true }

def setNickname (nickname : Text) : Client := { client with nickname := nickname }

def setUser (username realname : Text) : Client :=
  { client with username := username, realname := realname, hasUser := true }

def setRegistered (registered : Bool) : Client := { client with registered := registered }

def isRegistrationReady : Bool :=
  client.passwordAccepted && !client.nickname.isEmpty && client.hasUser

/-- No peer address for now: every client is at `localhost`. -/
def getPrefix : Text :=
  client.nickname ++ "!".toList ++ client.username ++ "@localhost".toList

end Client

end FtIrc
