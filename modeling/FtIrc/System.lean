import FtIrc.Loop
import FtIrc.Lib.Transition

/-!
# The server as a transition system

The steps the event loop is made of, in any order: the system reports events, a
connection is accepted, bytes arrive, a complete line leaves the input buffer, a line is
handled, output is flushed, a client is removed.  `Reachable` is every state some order of
steps leads to, so it holds of more states than the loop reaches (`Loop.reachable_server`).
-/

namespace FtIrc

inductive Event where
  | poll (revents : Nat → PollEvents)
  | accept (result : Server.AcceptResult)
  | receive (fd : Fd) (data : Text)
  | pop (fd : Fd)
  | line (fd : Fd) (line : Text)
  | flush (index : Nat) (sent : Option Nat)
  | remove (index : Nat)

namespace Server

def isClientIndex (s : Server) (index : Nat) : Bool :=
  (s.pollFds[index]?).any fun p => p.fd != s.listenerFd

/-- `none` when the step is not possible, or throws. -/
def step (s : Server) : Event → Option Server
  | .poll revents => some (s.setRevents revents)
  | .accept result => (s.acceptClient result).toOption
  | .receive fd data => (s.findClient fd).map fun _ => s.modifyClient fd (·.appendInput data)
  | .pop fd =>
    ((s.findClient fd).bind Client.popLine).map fun popped => s.modifyClient fd fun _ => popped.2
  | .line fd line =>
    -- a line ends at its line feed
    if (s.findClient fd).isSome ∧ '\n' ∉ line then some (s.handleCompleteLine fd line) else none
  | .flush index sent =>
    if s.isClientIndex index then some (s.flushClientOutput index sent).1 else none
  | .remove index => if s.isClientIndex index then some (s.removeClient index) else none

def Step (s : Server) (e : Event) (s' : Server) : Prop := s.step e = some s'

/-- Reached by some run of steps from the empty server. -/
def Reachable (s : Server) : Prop :=
  ∃ listenerFd password, Transition.Reachable Step (start listenerFd password) s

theorem Reachable.start (listenerFd : Fd) (password : Text) :
    Reachable (start listenerFd password) := ⟨listenerFd, password, .refl⟩

theorem Reachable.of_run {listenerFd : Fd} {password : Text} {es : List Event} {s : Server}
    (h : Transition.Run Step (Server.start listenerFd password) es s) : Reachable s :=
  ⟨listenerFd, password, h.reachable⟩

theorem Reachable.step {s s' : Server} {e : Event} (h : Reachable s) (hs : s.Step e s') :
    Reachable s' := by
  obtain ⟨listenerFd, password, hr⟩ := h
  exact ⟨listenerFd, password, Transition.Reachable.step hr hs⟩

theorem Reachable.invariant {I : Server → Prop} {s : Server} (h : Reachable s)
    (hinit : ∀ listenerFd password, I (Server.start listenerFd password))
    (hstep : ∀ s e s', Reachable s → I s → Step s e s' → I s') : I s := by
  obtain ⟨listenerFd, password, hr⟩ := h
  exact Transition.Reachable.invariant hr (hinit _ _)
    fun s e s' hs => hstep s e s' ⟨listenerFd, password, hs⟩

/-! ## Sessions -/

def steps (s : Server) (es : List Event) : Option Server := es.foldlM step s

theorem Reachable.steps {s s' : Server} (h : Reachable s) {es : List Event}
    (hs : s.steps es = some s') : Reachable s' := by
  obtain ⟨listenerFd, password, hr⟩ := h
  exact ⟨listenerFd, password, hr.trans (Transition.Run.of_foldlM hs).reachable⟩

/-- `bob` on 4 has created `#c`, made it `+i` and invited `al`, who is on 5.  On 6 `eve`
has not registered. -/
def sessionEvents : List Event :=
  [.accept (.connected 4), .accept (.connected 5), .accept (.connected 6),
    .line 4 "PASS pw".toList, .line 4 "NICK bob".toList, .line 4 "USER b 0 * :Bob".toList,
    .line 5 "NICK al".toList, .line 5 "USER a 0 * :Al".toList, .line 5 "PASS pw".toList,
    .line 6 "NICK eve".toList, .line 4 "JOIN #c".toList, .line 4 "MODE #c +i".toList,
    .line 4 "INVITE al #C".toList]

def session : Server := ((start 3 "pw".toList).steps sessionEvents).getD (start 3 "pw".toList)

theorem session_steps : (start 3 "pw".toList).steps sessionEvents = some session := by
  have h : ((start 3 "pw".toList).steps sessionEvents).isSome = true := by decide +kernel
  obtain ⟨s, hs⟩ := Option.isSome_iff_exists.1 h
  rw [session, hs]
  rfl

theorem session_reachable : Reachable session := (Reachable.start 3 _).steps session_steps

end Server

end FtIrc
