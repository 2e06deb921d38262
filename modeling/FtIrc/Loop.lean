import FtIrc.Socket

/-!
# The event loop (`Server::run` and `removeDisconnectedClients`, `srcs/Server/Server.cpp`)

`run` is a state machine.  Between turns it is about to call `poll`, to visit the
descriptor at index `i` of the pass, or to look at index `i` in
`removeDisconnectedClients`.  A turn takes what the system answers in it (`Kernel`) and may
end in an exception, which ends the process.
-/

namespace FtIrc

inductive PollResult where
  /-- `-1`; a stop may have been requested meanwhile -/
  | failed (stopRequested : Bool)
  /-- `revents`, by index in `_pollFds` -/
  | ready (revents : Nat → PollEvents)

structure Kernel where
  /-- what `_stopRequested` holds when a loop condition reads it -/
  stopRequested : Bool := false
  poll : PollResult := .ready fun _ => {}
  accept : Server.AcceptResult := .failed
  received : Option Text := none
  sent : Option Nat := none

inductive Pc where
  | poll
  | visit (i : Nat)
  | sweep (i : Nat)
  | stopped
deriving DecidableEq

structure Loop where
  server : Server
  pc : Pc

namespace Server

variable (s : Server)

def setRevents (revents : Nat → PollEvents) : Server :=
  { s with pollFds := s.pollFds.mapIdx fun i p => { p with revents := revents i } }

/-- The body of the loop over descriptors: the server after it and the next index. -/
def visitDescriptor (i : Nat) (k : Kernel) : Except String (Server × Nat) :=
  match s.pollFds[i]? with
  | none => .ok (s, i)
  | some p =>
    let events := p.revents
    if events = {} then .ok (s, i + 1)
    else if p.fd = s.listenerFd then
      if events.pollin then (s.acceptClient k.accept).map (·, i + 1) else .ok (s, i + 1)
    else if events.pollerr || events.pollnval then .ok (s.removeClient i, i)
    else
      let received := if events.pollin then s.receiveFromClient i k.received else (s, true)
      let s := received.1
      if !received.2 then .ok (s.removeClient i, i)
      else
        let flushed := if events.pollout then s.flushClientOutput i k.sent else (s, true)
        let s := flushed.1
        if !flushed.2 then .ok (s.removeClient i, i)
        else if events.pollhup then .ok (s.removeClient i, i)
        else .ok (s, i + 1)

/-- The body of the loop of `removeDisconnectedClients`. -/
def sweepDescriptor (i : Nat) : Server × Nat :=
  match s.pollFds[i]? with
  | none => (s, i)
  | some p =>
    if p.fd = s.listenerFd then (s, i + 1)
    else
      match s.findClient p.fd with
      | none => (s, i + 1)
      | some client =>
        if client.disconnectRequested then (s.removeClient i, i) else (s, i + 1)

end Server

namespace Loop

def start (listenerFd : Fd) (password : Text) : Loop := ⟨.start listenerFd password, .poll⟩

def turn (l : Loop) (k : Kernel) : Except String Loop :=
  let s := l.server
  match l.pc with
  | .stopped => .ok l
  | .poll =>
    if k.stopRequested then .ok ⟨s, .stopped⟩
    else
      match k.poll with
      | .failed true => .ok ⟨s, .stopped⟩
      | .failed false => .error "poll() failed"
      | .ready revents =>
        let s := s.setRevents revents
        -- `readyCount == 0`
        if s.pollFds.all (·.revents = {}) then .ok ⟨s, .poll⟩ else .ok ⟨s, .visit 0⟩
  | .visit i =>
    if i < s.pollFds.length && !k.stopRequested then
      (s.visitDescriptor i k).map fun next => ⟨next.1, .visit next.2⟩
    else .ok ⟨s, .sweep 0⟩
  | .sweep i =>
    if i < s.pollFds.length then
      let next := s.sweepDescriptor i
      .ok ⟨next.1, .sweep next.2⟩
    else .ok ⟨s, .poll⟩

/-- Turn after turn, as long as none throws. -/
def run (l : Loop) (ks : List Kernel) : Except String Loop := ks.foldlM turn l

end Loop

end FtIrc
