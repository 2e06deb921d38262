import FtIrc.Turns

/-!
# Passes of the event loop

Which turns a pass is made of when one client sends one line, and what a client can do to
itself in many passes: a client that sends `PING` and never reads fills its own output
buffer (`Loop.flood`).
-/

namespace FtIrc

open Std

namespace Wire

/-- What a signal does to the ports depends on the ports only. -/
theorem ports_signal {w w' : Wire} (h : w.ports = w'.ports) (x : Signal) :
    (w.signal x).ports = (w'.signal x).ports := by
  have hport (fd : Fd) : w.port fd = w'.port fd := by rw [port, port, h]
  have hmodify (fd : Fd) (f : Port → Port) : (w.modify fd f).ports = (w'.modify fd f).ports := by
    unfold modify
    rw [h]
  cases x with
  | line fd line =>
    rw [signal_line, signal_line]
    unfold queueLine
    rw [hport]
    split
    · exact h
    split
    · exact hmodify fd _
    · exact hmodify fd _
  | disconnect fd reason => exact hmodify fd _

theorem input_modify {w : Wire} (fd m : Fd) {f : Port → Port}
    (hf : ∀ p, (f p).inputBuffer = p.inputBuffer) :
    ((w.modify fd f).port m).inputBuffer = (w.port m).inputBuffer := by
  by_cases hfd : fd = m
  · subst hfd
    cases hp : w.ports fd with
    | none => simp [port, Wire.modify, hp]
    | some p =>
      rw [port_modify_self (by rw [hp]; rfl), hf]
  · rw [port_modify_of_ne hfd]

theorem input_deliver (w : Wire) (signals : List Signal) (m : Fd) :
    ((w.deliver signals).port m).inputBuffer = (w.port m).inputBuffer := by
  induction signals generalizing w with
  | nil => rfl
  | cons x signals ih =>
    rw [deliver_cons, ih]
    cases x with
    | line fd line =>
      rw [signal_line]
      unfold queueLine
      split
      · rfl
      split
      · exact input_modify (w := w) fd m fun _ => rfl
      · exact input_modify (w := w) fd m fun _ => rfl
    | disconnect fd reason => exact input_modify (w := w) fd m fun _ => rfl

end Wire

namespace Server

variable {s : Server} {i : Nat} {k : Kernel} {p : PollFd} {fd : Fd} {line : Text}

/-! ## A read of one line -/

theorem popLine_single {c : Client} (hinput : c.inputBuffer = []) (hline : '\n' ∉ line)
    (hreturn : line.getLast? ≠ some '\r') :
    (c.appendInput (line ++ "\n".toList)).popLine = some (line, c) := by
  have hbefore : ∀ a ∈ line, (a != '\n') = true := by
    intro a ha
    rw [bne_iff_ne]
    rintro rfl
    exact hline ha
  have htake : (line ++ "\n".toList).takeWhile (· != '\n') = line := by
    rw [List.takeWhile_append_of_pos hbefore]
    exact List.append_nil line
  have hdrop : (line ++ "\n".toList).dropWhile (· != '\n') = ['\n'] := by
    rw [List.dropWhile_append_of_pos hbefore]
    rfl
  unfold Client.popLine Client.appendInput
  dsimp only
  rw [hinput, List.nil_append, hdrop, htake]
  unfold Client.stripReturn
  rw [if_neg hreturn, ← hinput]

theorem input_handleCompleteLine (hr : Reachable s) (hfd : s.core.Live fd) (line : Text) (m : Fd) :
    ((s.handleCompleteLine fd line).client m).inputBuffer = (s.client m).inputBuffer := by
  have hport (s : Server) : (s.client m).inputBuffer = (s.wire.port m).inputBuffer :=
    congrArg Port.inputBuffer (port_client s m)
  rw [hport, hport]
  rcases handleCompleteLine_spec hr.ok.membersLive hfd line with ⟨-, -, hwire⟩ | ⟨-, signals, -, hwire⟩
  · rw [hwire]
    rfl
  · rw [hwire, Wire.input_deliver]
    rfl

/-- A client that sends one line has it handled, and nothing else happens. -/
theorem afterLines_single (hr : Reachable s) (h : s.Reads i k p (line ++ "\n".toList))
    (hinput : (s.client p.fd).inputBuffer = []) (hline : '\n' ∉ line)
    (hreturn : line.getLast? ≠ some '\r') :
    s.afterLines p (line ++ "\n".toList) = s.handleCompleteLine p.fd line := by
  have hpop : ((s.appended p (line ++ "\n".toList)).client p.fd).popLine =
      some (line, s.client p.fd) := by
    rw [h.client_appended]
    exact popLine_single hinput hline hreturn
  -- taken from the buffer, the line leaves the server as it was
  have hpopped : (s.appended p (line ++ "\n".toList)).modifyClient p.fd (fun _ => s.client p.fd) = s := by
    have hc : s.clients[p.fd]? = some (s.client p.fd) := findClient_of_live h.live
    unfold appended modifyClient
    dsimp only
    congr 1
    apply ExtTreeMap.ext_getElem?
    intro x
    simp only [ExtTreeMap.getElem?_modify, Std.compare_eq_iff_eq]
    split
    · next hx =>
      subst hx
      rw [hc]
      rfl
    · rfl
  have hsize : ((s.appended p (line ++ "\n".toList)).client p.fd).getInputSize = line.length + 1 := by
    rw [h.client_appended]
    simp [Client.getInputSize, Client.appendInput, hinput]
  have hnone : ((s.handleCompleteLine p.fd line).client p.fd).popLine = none := by
    unfold Client.popLine
    rw [input_handleCompleteLine hr h.live, hinput]
    rfl
  unfold afterLines
  rw [hsize, handleLines, hpop]
  dsimp only
  rw [hpopped, handleLines_none hnone]
  split <;> rfl

theorem revents_handleCompleteLine (hr : Reachable s) (hfd : s.core.Live fd) (line : Text) :
    (s.handleCompleteLine fd line).revents = s.revents :=
  map_handleCompleteLine (fun _ => rfl) hr.ok.membersLive hfd line

theorem getElem?_revents (hi : i < s.fds.length) (revents : Nat → PollEvents) :
    (s.setRevents revents).revents[i]? = some (revents i) := by
  have hi : i < s.pollFds.length := by simpa [fds] using hi
  simp [Server.revents, setRevents, hi]

end Server

namespace Loop

variable {s : Server} {i n : Nat} {k : Kernel} {p : PollFd} {fd : Fd} {line : Text}

/-! ## Turns with nothing to do -/

theorem turn_poll (revents : Nat → PollEvents) (hi : i < s.fds.length) (hready : revents i ≠ {}) :
    Turn ⟨s, .poll⟩ { poll := .ready revents } ⟨s.setRevents revents, .visit 0⟩ := by
  have hsome : (s.setRevents revents).pollFds.all (·.revents = {}) = false := by
    have hi' : i < s.pollFds.length := by simpa [Server.fds] using hi
    rw [List.all_eq_false]
    refine ⟨_, List.mem_of_getElem? (i := i) (List.getElem?_eq_getElem ?_), ?_⟩
    · simpa [Server.setRevents] using hi'
    · simpa [Server.setRevents] using hready
  unfold Turn turn
  simp only [Bool.false_eq_true, if_false, hsome]

theorem visits_idle (hin : i ≤ n) (hidle : ∀ j, i ≤ j → j < n → s.revents[j]? = some {}) :
    Transition.Reachable Turn ⟨s, .visit i⟩ ⟨s, .visit n⟩ := by
  induction n, hin using Nat.le_induction with
  | base => exact .refl
  | succ n hin ih =>
    refine (ih fun j hj hjn => hidle j hj (by omega)).step (e := {}) ?_
    have hn := hidle n hin (by omega)
    obtain ⟨p, hp, hidle⟩ : ∃ p, s.pollFds[n]? = some p ∧ p.revents = {} := by
      simpa [Server.revents] using hn
    have hlt := (List.getElem?_eq_some_iff.1 hp).1
    have hvisit : s.visitDescriptor n {} = .ok (s, n + 1) := Server.visitDescriptor_idle hp hidle
    unfold Turn turn
    simp [hlt, hvisit, Except.map]

theorem turn_visits_end : Turn ⟨s, .visit s.fds.length⟩ {} ⟨s, .sweep 0⟩ := by
  unfold Turn turn Server.fds
  simp

theorem exists_turn_sweep (s : Server) (i : Nat) : ∃ l', Turn ⟨s, .sweep i⟩ {} l' := by
  unfold Turn turn
  dsimp only
  split
  · exact ⟨_, rfl⟩
  · exact ⟨_, rfl⟩

/-- A sweep up to index `n` over clients that stay. -/
theorem sweep_idle (hr : s.Reachable) (hn : n ≤ s.fds.length) (hidle : ∀ j < n, ¬ s.MarkedAt j) :
    Transition.Reachable Turn ⟨s, .sweep 0⟩ ⟨s, .sweep n⟩ := by
  induction n with
  | zero => exact .refl
  | succ n ih =>
    refine (ih (by omega) fun j hj => hidle j (by omega)).step (e := {}) ?_
    obtain ⟨⟨s', pc⟩, ht⟩ := exists_turn_sweep s n
    rcases ht.sweep rfl hr with ⟨-, -, hend⟩ | ⟨hpc, heq, -⟩ | ⟨p, hp, -, hflag, -⟩
    · dsimp only at hend
      omega
    · obtain rfl : pc = .sweep (n + 1) := hpc
      obtain rfl : s' = s := heq
      exact ht
    · exact absurd ⟨p.fd, Server.getElem?_fds hp, hflag⟩ (hidle n (by omega))

theorem sweep_none (hr : s.Reachable) (hnone : s.NoneMarked) :
    Transition.Reachable Turn ⟨s, .sweep 0⟩ ⟨s, .poll⟩ := by
  have hidle := (Server.noneMarked_iff hr).1 hnone
  refine (sweep_idle hr le_rfl fun j _ => hidle j).step (e := {}) ?_
  unfold Turn turn Server.fds
  simp

/-! ## Turns that read one line -/

theorem turn_line (hr : s.Reachable) (h : s.Reads i k p (line ++ "\n".toList))
    (hstop : k.stopRequested = false) (hevents : p.revents = { pollin := true })
    (hinput : (s.client p.fd).inputBuffer = []) (hline : '\n' ∉ line)
    (hreturn : line.getLast? ≠ some '\r') :
    Turn ⟨s, .visit i⟩ k ⟨s.handleCompleteLine p.fd line, .visit (i + 1)⟩ := by
  have hsize : ((s.handleCompleteLine p.fd line).client p.fd).getInputSize = 0 := by
    unfold Client.getInputSize
    rw [Server.input_handleCompleteLine hr h.live, hinput]
    rfl
  have hlt := (List.getElem?_eq_some_iff.1 h.entry).1
  unfold Turn turn
  dsimp only
  rw [h.visit, Server.afterLines_single hr h hinput hline hreturn, hsize]
  simp [hlt, hstop, Server.visitRest, hevents, maxPendingInput, Except.map]

/-- A turn that reads does not throw. -/
theorem exists_turn_reads {data : Text} (h : s.Reads i k p data) (hstop : k.stopRequested = false) :
    ∃ l', Turn ⟨s, .visit i⟩ k l' := by
  have hlt := (List.getElem?_eq_some_iff.1 h.entry).1
  obtain ⟨next, hnext⟩ : ∃ next, s.visitDescriptor i k = .ok next := by
    rw [h.visit]
    exact Server.exists_visitRest _ _ _ _ _
  refine ⟨⟨next.1, .visit next.2⟩, ?_⟩
  unfold Turn turn
  simp [hlt, hstop, hnext, Except.map]

/-- A client that is ready to be read, and sends `data`. -/
theorem reads_of_revents (hr : s.Reachable) (hi : s.fds[i]? = some fd) (hclient : fd ≠ s.listenerFd)
    {events : PollEvents} (hready : s.revents[i]? = some events) (hin : events.pollin = true)
    (herr : events.pollerr = false) (hnval : events.pollnval = false) (data : Text) (hdata : data ≠ []) :
    ∃ p, p.fd = fd ∧ p.revents = events ∧ s.Reads i { received := some data } p data := by
  have hfd : s.core.Live fd := (hr.polled.live fd).2 ⟨List.mem_of_getElem? hi, hclient⟩
  obtain ⟨p, hp, rfl⟩ : ∃ p, s.pollFds[i]? = some p ∧ p.fd = fd := by simpa [Server.fds] using hi
  obtain rfl : p.revents = events := by simpa [Server.revents, hp] using hready
  exact ⟨p, rfl, rfl, hp, hclient, (Server.live_iff _ _).1 hfd, hin, herr, hnval, rfl, hdata⟩

/-- Only the client at `i` is ready to be read. -/
def only (i : Nat) : Nat → PollEvents := fun j => if j = i then { pollin := true } else {}

/-- **One line in a pass.**  When only the client at `i` is ready, and sends a line, the pass
handles that line and goes on to the sweep. -/
theorem pass_line (hr : s.Reachable) (hi : s.fds[i]? = some fd) (hclient : fd ≠ s.listenerFd)
    (hinput : (s.client fd).inputBuffer = []) (line : Text) (hline : '\n' ∉ line)
    (hreturn : line.getLast? ≠ some '\r') :
    Transition.Reachable Turn ⟨s, .poll⟩
      ⟨(s.setRevents (only i)).handleCompleteLine fd line, .sweep 0⟩ := by
  have hlt := (List.getElem?_eq_some_iff.1 hi).1
  have hr₁ : (s.setRevents (only i)).Reachable := hr.step (e := .poll (only i)) rfl
  have hfds : (s.setRevents (only i)).fds = s.fds := Server.fds_setRevents _
  have hrevents {j : Nat} (hj : j < s.fds.length) := Server.getElem?_revents (s := s) hj (only i)
  obtain ⟨p, rfl, hevents, hread⟩ := reads_of_revents hr₁ (hfds ▸ hi) hclient
    (by rw [hrevents hlt, only, if_pos rfl]) rfl rfl rfl (line ++ "\n".toList) (by simp)
  have hafter := (Server.same_handleCompleteLine hr₁.ok.membersLive hread.live line).fds
  have hlater := Server.revents_handleCompleteLine hr₁ hread.live line
  have hidle {j : Nat} (hne : j ≠ i) (hj : j < s.fds.length) :
      (s.setRevents (only i)).revents[j]? = some {} := by
    rw [hrevents hj, only, if_neg hne]
  have hbefore := visits_idle (s := s.setRevents (only i)) (Nat.zero_le i)
    fun j _ hj => hidle (by omega) (by omega)
  have hbehind := visits_idle (s := (s.setRevents (only i)).handleCompleteLine p.fd line)
    (Nat.succ_le_of_lt hlt) fun j hj hj' => by rw [hlater]; exact hidle (by omega) hj'
  have hend := turn_visits_end (s := (s.setRevents (only i)).handleCompleteLine p.fd line)
  rw [hafter, hfds] at hend
  have hpoll := turn_poll (only i) hlt (by simp [only])
  exact (((Transition.Reachable.refl.step hpoll).trans hbefore).step
    (turn_line hr₁ hread rfl hevents hinput hline hreturn)).trans (hbehind.step hend)

/-! ## What one line does -/

/-- The server that dispatches the command of a line. -/
def dispatching (s : Server) (A : Fd) (line : Text) : Server :=
  (s.record (.completeLine A line)).record (.dispatched A (Command.parse line))

/-- A handler that sends one signal. -/
theorem dispatching_signal {s' : Server} (A : Fd) (line : Text) {x : Signal}
    (hcore : s'.core = (dispatching s A line).core)
    (hwire : s'.wire = (dispatching s A line).wire.signal x) :
    s'.core = s.core ∧ s'.wire.ports = (s.wire.signal x).ports := by
  refine ⟨hcore, ?_⟩
  rw [hwire]
  have hports : (dispatching s A line).wire.ports = s.wire.ports := rfl
  exact Wire.ports_signal hports x

def ping : Text := "PING :x".toList

def pong : Line := .plain ":ircserv PONG ircserv :x".toList

theorem handleCompleteLine_ping (s : Server) (A : Fd) :
    (s.handleCompleteLine A ping).core = s.core ∧
      (s.handleCompleteLine A ping).wire.ports = (s.wire.signal (.line A pong)).ports := by
  have hparse : Command.parse ping = ⟨true, "PING".toList, ["x".toList]⟩ := by decide
  have hhandle : s.handleCompleteLine A ping = (dispatching s A ping).queueLine A pong := by
    unfold Server.handleCompleteLine dispatching
    rw [hparse]
    rfl
  rw [hhandle]
  exact dispatching_signal A ping (Server.core_queueLine _ _ _) (Server.wire_queueLine _ _ _)

theorem handleCompleteLine_privmsg {A target : Fd} {line nickname text : Text}
    (hparse : Command.parse line = ⟨true, "PRIVMSG".toList, [nickname, text]⟩)
    (hreg : (s.core.who A).registered = true) (hnick : Server.isChannelTarget nickname = false)
    (hholder : s.core.holder nickname = some target) :
    (s.handleCompleteLine A line).core = s.core ∧
      (s.handleCompleteLine A line).wire.ports = (s.wire.signal (.line target
        (.relay (s.core.who A).source (.privmsg (s.core.who target).nickname text)))).ports := by
  have hhandle : s.handleCompleteLine A line =
      (dispatching s A line).handlePrivmsg A ⟨true, "PRIVMSG".toList, [nickname, text]⟩ := by
    unfold Server.handleCompleteLine dispatching
    rw [hparse]
    rfl
  have hqueue : s.handleCompleteLine A line = (dispatching s A line).queueLine target
      (.relay (s.core.who A).source (.privmsg (s.core.who target).nickname text)) := by
    rw [hhandle]
    unfold Server.handlePrivmsg dispatching
    simp [hreg, hnick, hholder]
  rw [hqueue]
  exact dispatching_signal A line (Server.core_queueLine _ _ _) (Server.wire_queueLine _ _ _)

theorem handleCompleteLine_quit {A : Fd} {line reason : Text}
    (hparse : Command.parse line = ⟨true, "QUIT".toList, [reason]⟩) :
    (s.handleCompleteLine A line).core = s.core ∧
      (s.handleCompleteLine A line).wire.ports = (s.wire.signal (.disconnect A reason)).ports := by
  have hhandle : s.handleCompleteLine A line =
      (dispatching s A line).requestDisconnect A reason := by
    unfold Server.handleCompleteLine dispatching
    rw [hparse]
    rfl
  rw [hhandle]
  exact dispatching_signal A line (Server.core_requestDisconnect _ _ _)
    (Server.wire_requestDisconnect _ _ _)

/-! ## Filling an output buffer -/

/-- Nothing but the output buffer of one client has changed. -/
structure Fills (fd : Fd) (s s' : Server) : Prop where
  core : s'.core = s.core
  fds : s'.fds = s.fds
  other : ∀ x, fd ≠ x → s'.wire.port x = s.wire.port x
  self : s'.wire.port fd =
    { s.wire.port fd with outputBuffer := (s'.wire.port fd).outputBuffer }

theorem Fills.refl (fd : Fd) (s : Server) : Fills fd s s := ⟨rfl, rfl, fun _ _ => rfl, rfl⟩

theorem Fills.trans {s' s'' : Server} (h : Fills fd s s') (h' : Fills fd s' s'') :
    Fills fd s s'' := by
  refine ⟨h'.core.trans h.core, h'.fds.trans h.fds,
    fun x hx => (h'.other x hx).trans (h.other x hx), ?_⟩
  rw [h'.self, h.self]

/-- What else a port holds is the same. -/
theorem Fills.same {β : Type*} {f : Port → β} {s' : Server} (h : Fills fd s s')
    (hf : ∀ p out, f { p with outputBuffer := out } = f p) (x : Fd) :
    f (s'.wire.port x) = f (s.wire.port x) := by
  by_cases hx : fd = x
  · subst hx
    rw [h.self, hf]
  · rw [h.other x hx]

theorem Fills.input {s' : Server} (h : Fills fd s s') (x : Fd) :
    (s'.client x).inputBuffer = (s.client x).inputBuffer := by
  have hport (s : Server) : (s.client x).inputBuffer = (s.wire.port x).inputBuffer :=
    congrArg Port.inputBuffer (Server.port_client s x)
  rw [hport, hport, h.same (f := Port.inputBuffer) fun _ _ => rfl]

theorem Fills.noneMarked {s' : Server} (h : Fills fd s s') (hnone : s.NoneMarked) :
    s'.NoneMarked := by
  rw [Server.noneMarked_iff_flag] at hnone ⊢
  intro x
  have hflag := hnone x
  rw [Server.client_disconnectRequested] at hflag ⊢
  rw [h.same (f := Port.disconnectRequested) fun _ _ => rfl]
  exact hflag

/-- One `PING` more. -/
theorem pass_ping (hr : s.Reachable) (hi : s.fds[i]? = some fd) (hclient : fd ≠ s.listenerFd)
    (hinput : (s.client fd).inputBuffer = []) (hnone : s.NoneMarked)
    (hfits : (s.wire.port fd).Fits pong.bytes) :
    ∃ s', Transition.Reachable Turn ⟨s, .poll⟩ ⟨s', .poll⟩ ∧ Fills fd s s' ∧
      (s'.wire.port fd).outputBuffer = (s.wire.port fd).outputBuffer ++ pong.bytes := by
  have hpass := pass_line hr hi hclient hinput ping (by decide) (by decide)
  obtain ⟨hcore, hports⟩ := handleCompleteLine_ping (s.setRevents (only i)) fd
  have hr₁ : (s.setRevents (only i)).Reachable := hr.step (e := .poll (only i)) rfl
  have hfd : (s.setRevents (only i)).core.Live fd :=
    (hr.polled.live fd).2 ⟨List.mem_of_getElem? hi, hclient⟩
  have hsame := Server.same_handleCompleteLine hr₁.ok.membersLive hfd ping
  have hport (x : Fd) : ((s.setRevents (only i)).handleCompleteLine fd ping).wire.port x =
      (s.wire.queueLine fd pong).port x := by
    have hpolled : (s.setRevents (only i)).wire.ports = s.wire.ports := rfl
    have hqueued := Wire.ports_signal hpolled (.line fd pong)
    exact congrArg (fun ports => (ports x).getD {}) (hports.trans hqueued)
  have hself : (s.wire.queueLine fd pong).port fd =
      { s.wire.port fd with outputBuffer := (s.wire.port fd).outputBuffer ++ pong.bytes } := by
    have hflag : (s.wire.port fd).disconnectRequested = false := by
      rw [← Server.client_disconnectRequested]
      exact Server.noneMarked_iff_flag.1 hnone fd
    unfold Wire.queueLine
    rw [if_neg (by simp [hflag]), if_pos hfits]
    exact Wire.port_modify_self (w := s.wire) ((Server.isSome_ports _ _).2 hfd)
  have hfills : Fills fd s ((s.setRevents (only i)).handleCompleteLine fd ping) := by
    refine ⟨hcore, hsame.fds.trans (Server.fds_setRevents _), ?_, ?_⟩
    · intro x hx
      rw [hport]
      exact Wire.port_signal_of_ne s.wire (x := .line fd pong) hx
    · rw [hport, hself]
  exact ⟨_, hpass.trans (sweep_none (reachable_of_turns hr hpass) (hfills.noneMarked hnone)),
    hfills, by rw [hport, hself]⟩

/-- **A client that never reads fills its output buffer.**  Pass after pass it sends `PING`,
until there is no room for another answer. -/
theorem flood (hr : s.Reachable) (hi : s.fds[i]? = some fd) (hclient : fd ≠ s.listenerFd)
    (hinput : (s.client fd).inputBuffer = []) (hnone : s.NoneMarked) :
    ∃ s', Transition.Reachable Turn ⟨s, .poll⟩ ⟨s', .poll⟩ ∧ Fills fd s s' ∧
      ¬ (s'.wire.port fd).Fits pong.bytes := by
  induction hroom : maxPendingOutput - (s.wire.port fd).outputBuffer.length
    using Nat.strong_induction_on generalizing s with
  | _ room ih =>
    by_cases hfits : (s.wire.port fd).Fits pong.bytes
    · obtain ⟨s₁, hpass, hfills, hout⟩ := pass_ping hr hi hclient hinput hnone hfits
      have hr₁ : s₁.Reachable := reachable_of_turns hr hpass
      have hless : maxPendingOutput - (s₁.wire.port fd).outputBuffer.length < room := by
        have hpos := Server.bytes_length_pos pong
        obtain ⟨h1, h2⟩ := hfits
        rw [hout, List.length_append]
        omega
      have hl : s₁.listenerFd = s.listenerFd := congrArg Core.listenerFd hfills.core
      obtain ⟨s', hrun, hfills', hfull⟩ := ih _ hless hr₁ (by rw [hfills.fds]; exact hi)
        (by rw [hl]; exact hclient) (by rw [hfills.input]; exact hinput)
        (hfills.noneMarked hnone) rfl
      exact ⟨s', hpass.trans hrun, hfills.trans hfills', hfull⟩
    · exact ⟨s, .refl, .refl fd s, hfits⟩

/-! ## A session -/

/-- A pass over `n` descriptors in which somebody connects. -/
def acceptTurns (n : Nat) (fd : Fd) : List Kernel :=
  [{ poll := .ready (only 0) }, { accept := .connected fd }] ++
    List.replicate (2 * n + 3) ({} : Kernel)

/-- `al` on 4, `bob` on 5 and `eve` on 6 register, the latter two also join `#c`. -/
def sessionTurns : List Kernel :=
  acceptTurns 1 4 ++ acceptTurns 2 5 ++ acceptTurns 3 6 ++
    [{ poll := .ready fun i => { pollin := i != 0 } }, ({} : Kernel),
      { received := some "PASS pw\nNICK al\nUSER a 0 * :Al\n".toList },
      { received := some "PASS pw\nNICK bob\nUSER b 0 * :Bob\nJOIN #c\n".toList },
      { received := some "PASS pw\nNICK eve\nUSER e 0 * :Eve\nJOIN #c\n".toList }] ++
    List.replicate 6 ({} : Kernel)

def session : Loop := ((start 3 "pw".toList).run sessionTurns).toOption.getD (start 3 "pw".toList)

theorem session_run : Transition.Run Turn (start 3 "pw".toList) sessionTurns session := by
  have h : ((start 3 "pw".toList).run sessionTurns).toOption.isSome = true := by decide +kernel
  refine run_turns ?_
  unfold session
  cases hrun : (start 3 "pw".toList).run sessionTurns with
  | error e => rw [hrun] at h; cases h
  | ok l => rfl

theorem session_reachable : session.Reachable := ⟨3, "pw".toList, session_run.reachable⟩

/-- Who is there at the end of the session. -/
structure SessionCore (κ : Core) : Prop where
  listenerFd : κ.listenerFd = 3
  al : (κ.who 4).source = ⟨"al".toList, "a".toList⟩ ∧ (κ.who 4).registered = true
  bob : (κ.who 5).nickname = "bob".toList ∧ κ.holder "bob".toList = some 5
  eve : (κ.who 6).source = ⟨"eve".toList, "e".toList⟩ ∧ (κ.who 6).registered = true
  peers : κ.Peers 6 5

/-- Nobody has sent half a line, and nobody is to be disconnected. -/
def AtRest (s : Server) : Prop := (∀ fd, (s.client fd).inputBuffer = []) ∧ s.NoneMarked

theorem session_facts : session.pc = .poll ∧ session.server.fds = [3, 4, 5, 6] ∧
    SessionCore session.server.core ∧ AtRest session.server := by
  have h : session.pc = .poll ∧ session.server.listenerFd = 3 ∧
      session.server.fds = [3, 4, 5, 6] ∧
      ((session.server.client 4).source = ⟨"al".toList, "a".toList⟩ ∧
        (session.server.client 4).registered = true) ∧
      ((session.server.client 5).nickname = "bob".toList ∧
        session.server.findClientByNickname "bob".toList = some 5) ∧
      ((session.server.client 6).source = ⟨"eve".toList, "e".toList⟩ ∧
        (session.server.client 6).registered = true) ∧
      (session.server.channels["#c".toList]?).any
        (fun c => c.members.contains 6 && c.members.contains 5) = true ∧
      ∀ entry ∈ session.server.clients.toList,
        entry.2.inputBuffer = [] ∧ entry.2.disconnectRequested = false := by
    decide +kernel
  obtain ⟨hpc, hlistener, hfds, hal, hbob, heve, hpeers, hclients⟩ := h
  generalize session.server = s at *
  simp only [Server.client_source, Server.client_registered, Server.client_nickname,
    Server.findClientByNickname_eq] at hal hbob heve
  have hclients {fd : Fd} {c : Client} (hc : s.clients[fd]? = some c) :=
    hclients (fd, c) (ExtTreeMap.mem_toList_iff_getElem?_eq_some.2 hc)
  refine ⟨hpc, hfds, ⟨hlistener, hal, hbob, heve, ?_⟩, ?_, fun fd c hc => (hclients hc).2⟩
  · obtain ⟨c, hc, hmem⟩ := (Option.any_eq_true _ _).1 hpeers
    rw [Bool.and_eq_true] at hmem
    exact ⟨_, c, hc, ExtTreeMap.mem_iff_contains.2 hmem.1, ExtTreeMap.mem_iff_contains.2 hmem.2⟩
  · intro fd
    unfold Server.client
    cases hc : s.clients[fd]? with
    | none => rfl
    | some c => exact (hclients hc).1

theorem eq_of_pc {l : Loop} {pc : Pc} (h : l.pc = pc) : l = ⟨l.server, pc⟩ := by
  subst h
  rfl

/-- The server at the end of the session, on its own. -/
theorem exists_session : ∃ s, Reachable ⟨s, .poll⟩ ∧ s.fds = [3, 4, 5, 6] ∧ SessionCore s.core ∧ AtRest s :=
  ⟨session.server, eq_of_pc session_facts.1 ▸ session_reachable, session_facts.2⟩

/-- After the session `bob` sends `PING`, and never reads, until nothing fits any more. -/
theorem session_flooded :
    ∃ s, Reachable ⟨s, .poll⟩ ∧ s.fds = [3, 4, 5, 6] ∧ SessionCore s.core ∧ AtRest s ∧
      ¬ (s.wire.port 5).Fits pong.bytes := by
  obtain ⟨s₀, hsession, hfds, hcore, hrest⟩ := exists_session
  have hr := reachable_server hsession
  have hbob : s₀.fds[2]? = some 5 := by rw [hfds]; rfl
  have hclient : 5 ≠ s₀.listenerFd := by rw [show s₀.listenerFd = 3 from hcore.listenerFd]; decide
  obtain ⟨s, hrun, hfills, hfull⟩ := flood hr hbob hclient (hrest.1 5) hrest.2
  refine ⟨s, hsession.turns hrun, hfills.fds.trans hfds,
    hfills.core ▸ hcore, ⟨?_, hfills.noneMarked hrest.2⟩, hfull⟩
  intro fd
  rw [hfills.input]
  exact hrest.1 fd

/-- What does not fit where an answer to `PING` does not. -/
theorem not_fits_of_length {q : Port} {l : Line} (h : ¬ q.Fits pong.bytes)
    (hlength : pong.bytes.length ≤ l.bytes.length) : ¬ q.Fits l.bytes := by
  rintro ⟨h1, h2⟩
  exact h ⟨by omega, by omega⟩

/-- A line of `al` to `bob`, for whom nothing fits any more. -/
theorem privmsg_marks (hcore : SessionCore s.core) (hlive : s.core.Live 5)
    (hfull : ¬ (s.wire.port 5).Fits pong.bytes) :
    ((s.handleCompleteLine 4 "PRIVMSG bob :hi".toList).client 5).disconnectRequested = true := by
  have hparse : Command.parse "PRIVMSG bob :hi".toList =
      ⟨true, "PRIVMSG".toList, ["bob".toList, "hi".toList]⟩ := by decide
  obtain ⟨-, hports⟩ := handleCompleteLine_privmsg hparse hcore.al.2 rfl hcore.bob.2
  rw [hcore.al.1, hcore.bob.1] at hports
  have hport := congrArg (fun ports => (ports 5).getD {}) hports
  rw [Server.client_disconnectRequested]
  show (((s.handleCompleteLine 4 "PRIVMSG bob :hi".toList).wire.ports 5).getD {}).disconnectRequested = true
  rw [hport]
  exact (Wire.flag_queueLine s.wire ((Server.isSome_ports s 5).2 hlive) _).2
    (Or.inr (not_fits_of_length hfull (by decide)))

end Loop

end FtIrc
