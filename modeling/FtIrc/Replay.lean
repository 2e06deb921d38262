import FtIrc.Lib.Machine
import FtIrc.Traffic
import FtIrc.Semantics

/-!
# Replaying the history

The history says which connections were accepted, which commands were dispatched and which
clients were removed for what reason.  The machine of `Core.respond`, fed with these, is in
the state the server is in, and has said what the server has tried to queue
(`Server.replayed_run`): how the bytes came in and went out makes no difference.
-/

namespace FtIrc

/-! ## The machine -/

/-- What reaches the core. -/
inductive Input where
  | connect (fd : Fd)
  | command (fd : Fd) (command : Command)
  | disconnect (fd : Fd) (reason : Text)
deriving DecidableEq

/-- What comes of it: a connection is open, or a line is said to one. -/
inductive Utterance where
  | opened (fd : Fd)
  | line (fd : Fd) (line : Line)
deriving DecidableEq

def Signal.utterance : Signal → Option Utterance
  | .line fd words => some (.line fd words)
  | .disconnect .. => none

def Core.respond (κ : Core) : Input → Core × List Utterance
  | .connect fd => (κ.connect fd, [.opened fd])
  | .command fd command =>
    ((κ.dispatch fd command).1, (κ.dispatch fd command).2.filterMap Signal.utterance)
  | .disconnect fd reason =>
    (κ.disconnect fd, (κ.quitSignals fd reason).filterMap Signal.utterance)

/-- The inputs a core may be given. -/
def Input.Fits (κ : Core) : Input → Prop
  | .connect fd => ¬ κ.Live fd
  | .command fd _ => κ.Live fd
  | .disconnect fd _ => κ.Live fd

/-! ## Reading the history -/

/-- The reason given last for disconnecting the present connection on `fd`. -/
def readReason (fd : Fd) (reason : Text) : Action → Text
  | .accepted x => if x = fd then [] else reason
  | .disconnectRequested x reason' => if x = fd then reason' else reason
  | _ => reason

def lastReason (log : List Action) (fd : Fd) : Text := log.foldl (readReason fd) []

def quitReason (log : List Action) (fd : Fd) : Text :=
  if (lastReason log fd).isEmpty then "Connection closed".toList else lastReason log fd

/-- The input an entry stands for, after the entries `before`. -/
def readInput (before : List Action) : Action → Option Input
  | .accepted fd => some (.connect fd)
  | .dispatched fd command => some (.command fd command)
  | .removed fd => some (.disconnect fd (quitReason before fd))
  | _ => none

def inputsFrom (before : List Action) : List Action → List Input
  | [] => []
  | a :: log => (readInput before a).toList ++ inputsFrom (before ++ [a]) log

def inputs (log : List Action) : List Input := inputsFrom [] log

def Action.utterance : Action → Option Utterance
  | .accepted fd => some (.opened fd)
  | .queued fd line _ => some (.line fd line)
  | _ => none

/-- Every connection opened and every line the server tried to queue. -/
def utterances (log : List Action) : List Utterance := log.filterMap Action.utterance

theorem inputsFrom_append (before log log' : List Action) :
    inputsFrom before (log ++ log') = inputsFrom before log ++ inputsFrom (before ++ log) log' := by
  induction log generalizing before with
  | nil => rw [List.append_nil]; rfl
  | cons a log ih =>
    show (readInput before a).toList ++ inputsFrom (before ++ [a]) (log ++ log') = _
    rw [ih, ← List.append_assoc, List.append_assoc before]
    rfl

theorem inputs_snoc (log : List Action) (a : Action) :
    inputs (log ++ [a]) = inputs log ++ (readInput log a).toList :=
  (inputsFrom_append [] log [a]).trans (congrArg _ (List.append_nil _))

/-- An entry that stands for no input. -/
def Action.isUnread : Action → Bool
  | .accepted .. => false
  | .dispatched .. => false
  | .removed .. => false
  | _ => true

theorem inputs_unread (log : List Action) {actions : List Action}
    (h : ∀ a ∈ actions, a.isUnread = true) : inputs (log ++ actions) = inputs log := by
  induction actions generalizing log with
  | nil => rw [List.append_nil]
  | cons a actions ih =>
    have ha := h a List.mem_cons_self
    have hnone : readInput log a = none := by cases a <;> first | rfl | cases ha
    rw [List.append_cons, ih _ fun b hb => h b (List.mem_cons_of_mem _ hb), inputs_snoc, hnone]
    exact List.append_nil _

theorem utterances_append (log log' : List Action) :
    utterances (log ++ log') = utterances log ++ utterances log' := List.filterMap_append

/-- An entry that says nothing. -/
theorem utterances_quiet (log : List Action) {actions : List Action}
    (h : ∀ a ∈ actions, a.isQuiet = true) : utterances (log ++ actions) = utterances log := by
  have hnone : utterances actions = [] := by
    refine List.filterMap_eq_nil_iff.2 fun a ha => ?_
    have := h a ha
    cases a <;> first | rfl | cases this
  rw [utterances_append, hnone, List.append_nil]

/-! ## Delivering signals -/

namespace Wire

variable (w : Wire) {fd m : Fd}

theorem utterances_signal (x : Signal) :
    utterances (w.signal x).log = utterances w.log ++ x.utterance.toList := by
  cases x with
  | line fd line =>
    rw [signal_line]
    unfold queueLine
    split
    · exact utterances_append w.log [.queued fd line false]
    split
    · exact utterances_append w.log [.queued fd line true]
    · refine (utterances_append (w.log ++ [_]) [.queued fd line false]).trans ?_
      rw [utterances_quiet w.log (by simp [Action.isQuiet])]
      rfl
  | disconnect fd reason =>
    rw [Signal.utterance, Option.toList_none, List.append_nil]
    exact utterances_quiet w.log (by simp [Action.isQuiet])

/-- Every line is tried, whether there is room or not. -/
theorem utterances_deliver (signals : List Signal) :
    utterances (w.deliver signals).log = utterances w.log ++ signals.filterMap Signal.utterance := by
  induction signals generalizing w with
  | nil => exact (List.append_nil _).symm
  | cons x signals ih =>
    rw [deliver_cons, ih, utterances_signal, List.append_assoc]
    congr 1
    cases h : x.utterance <;> simp [h]

theorem inputs_deliver (signals : List Signal) : inputs (w.deliver signals).log = inputs w.log := by
  obtain ⟨actions, hlog, hdelivery⟩ := w.log_deliver signals
  rw [hlog]
  refine inputs_unread _ fun a ha => ?_
  have := hdelivery a ha
  cases a <;> first | rfl | cases this

/-! ## Reasons -/

/-- A connection carries the reason that the history gave last. -/
def Reasoned (w : Wire) : Prop :=
  ∀ m, (w.ports m).isSome → (w.port m).disconnectReason = lastReason w.log m

variable {w}

theorem lastReason_snoc (log : List Action) (a : Action) (m : Fd) :
    lastReason (log ++ [a]) m = readReason m (lastReason log m) a := List.foldl_append

theorem Reasoned.record (h : w.Reasoned) {a : Action}
    (ha : ∀ m reason, readReason m reason a = reason) : (w.record a).Reasoned := fun m hm =>
  (h m hm).trans ((lastReason_snoc w.log a m).trans (ha _ _)).symm

theorem Reasoned.modify (h : w.Reasoned) (fd : Fd) {f : Port → Port}
    (hf : ∀ p, (f p).disconnectReason = p.disconnectReason) : (w.modify fd f).Reasoned := by
  intro m hm
  rw [isSome_modify] at hm
  refine Eq.trans ?_ (h m hm)
  by_cases hfd : fd = m
  · subst hfd
    rw [port_modify_self hm, hf]
  · rw [port_modify_of_ne hfd]

theorem Reasoned.requestDisconnect (h : w.Reasoned) (fd : Fd) (reason : Text) :
    (w.requestDisconnect fd reason).Reasoned := by
  intro m hm
  have hlive : (w.ports m).isSome := isSome_modify (w := w) fd m _ ▸ hm
  refine Eq.trans ?_ (lastReason_snoc w.log (.disconnectRequested fd reason) m).symm
  show ((w.modify fd _).port m).disconnectReason = if fd = m then reason else lastReason w.log m
  by_cases hfd : fd = m
  · subst hfd
    rw [port_modify_self hlive, if_pos rfl]
  · rw [port_modify_of_ne hfd, if_neg hfd]
    exact h m hlive

theorem Reasoned.signal (h : w.Reasoned) (x : Signal) : (w.signal x).Reasoned := by
  cases x with
  | line fd line =>
    rw [signal_line]
    unfold queueLine
    split
    · exact h.record fun _ _ => rfl
    split
    · exact (h.modify fd (f := fun p => { p with outputBuffer := p.outputBuffer ++ line.bytes })
        fun _ => rfl).record (a := .queued fd line true) fun _ _ => rfl
    · exact (h.requestDisconnect fd _).record fun _ _ => rfl
  | disconnect fd reason => exact h.requestDisconnect fd reason

theorem Reasoned.deliver (h : w.Reasoned) (signals : List Signal) : (w.deliver signals).Reasoned := by
  induction signals generalizing w with
  | nil => exact h
  | cons x signals ih => exact ih (h.signal x)

/-- Signals for others leave the reason alone. -/
theorem Reasoned.lastReason_deliver (h : w.Reasoned) (hm : (w.ports m).isSome) {signals : List Signal}
    (hne : ∀ x ∈ signals, x.fd ≠ m) : lastReason (w.deliver signals).log m = lastReason w.log m := by
  rw [← h.deliver signals m (by rw [isSome_deliver]; exact hm), port_deliver_of_ne w hne, h m hm]

theorem Reasoned.step (h : w.Reasoned) {w' : Wire} {t : Traffic} (hs : w.Step t w') : w'.Reasoned := by
  have hdrain (fd : Fd) (length : Nat) : (w.drain fd length).Reasoned :=
    (h.modify fd (f := fun p => { p with outputBuffer := p.outputBuffer.drop length })
      fun _ => rfl).record (a := .sent fd ((w.port fd).outputBuffer.take length)) fun _ _ => rfl
  cases hs with
  | connect fd =>
    intro m hm
    refine Eq.trans ?_ (lastReason_snoc w.log (.accepted fd) m).symm
    show ((if fd = m then some {} else w.ports m).getD {}).disconnectReason =
      if fd = m then [] else lastReason w.log m
    by_cases hfd : fd = m
    · rw [if_pos hfd, if_pos hfd]
      rfl
    · rw [if_neg hfd, if_neg hfd]
      refine h m ?_
      rwa [show (w.connect fd).ports m = if fd = m then some {} else w.ports m from rfl,
        if_neg hfd] at hm
  | note action hnote => exact h.record fun _ _ => by cases action <;> first | rfl | cases hnote
  | input fd f => exact h.modify fd fun _ => rfl
  | signal x => exact h.signal x
  | drainSome fd length => exact hdrain fd length
  | drainAll fd length => exact hdrain fd length
  | rest => exact h
  | leave fd =>
    intro m hm
    have hne : fd ≠ m := by
      rintro rfl
      simp [Wire.disconnect] at hm
    refine Eq.trans ?_ (lastReason_snoc w.log (.removed fd) m).symm
    show ((if fd = m then none else w.ports m).getD {}).disconnectReason = lastReason w.log m
    rw [if_neg hne]
    refine h m ?_
    rwa [show (w.disconnect fd _).ports m = if fd = m then none else w.ports m from rfl,
      if_neg hne] at hm
  | poll => exact h

end Wire

/-- A QUIT is for others. -/
theorem Core.fd_quitSignals (κ : Core) (fd : Fd) (reason : Text) :
    ∀ x ∈ κ.quitSignals fd reason, x.fd ≠ fd := by
  intro x hx
  unfold quitSignals at hx
  split at hx
  · have hmem := fd_toAll hx
    rw [Std.ExtTreeSet.mem_toList, Std.ExtTreeSet.mem_erase, ne_eq, Std.compare_eq_iff_eq] at hmem
    exact Ne.symm hmem.1
  · cases hx

/-! ## Every step of the server -/

namespace Server

variable {s s' : Server} {e : Event} {fd : Fd} {listenerFd : Fd} {password : Text}

theorem Reachable.reasoned (h : Reachable s) : s.wire.Reasoned := by
  obtain ⟨listenerFd, password, hr⟩ := h.wire
  refine hr.invariant (I := Wire.Reasoned) ?_ fun _ _ _ _ ih hs => ih.step hs
  intro m hm
  simp [Server.wire, Server.start] at hm

theorem Reachable.quitReason_eq (h : Reachable s) (hfd : s.core.Live fd) :
    s.wire.quitReason fd = quitReason s.log fd := by
  unfold Wire.quitReason quitReason
  rw [h.reasoned fd ((isSome_ports s fd).2 hfd)]
  rfl

/-- From `s` to `s'` nothing reaches the core. -/
structure Idles (s s' : Server) : Prop where
  inputs : inputs s'.log = inputs s.log
  core : s'.core = s.core
  utterances : utterances s'.log = utterances s.log

/-- From `s` to `s'` the server takes one input, as the machine does. -/
structure Takes (s : Server) (i : Input) (s' : Server) : Prop where
  inputs : inputs s'.log = FtIrc.inputs s.log ++ [i]
  core : s'.core = (s.core.respond i).1
  utterances : utterances s'.log = FtIrc.utterances s.log ++ (s.core.respond i).2

theorem idles_quiet (hcore : s'.core = s.core) (hwire : s.wire.Quiet s'.wire) : s.Idles s' := by
  obtain ⟨actions, hlog, hquiet⟩ := hwire.log
  replace hlog : s'.log = s.log ++ actions := hlog
  refine ⟨?_, hcore, ?_⟩
  · rw [hlog]
    refine inputs_unread _ fun a ha => ?_
    have hunread := hquiet a ha
    cases a <;> first | rfl | cases hunread
  · rw [hlog, utterances_quiet _ hquiet]

theorem takes_connect (hcore : s'.core = s.core.connect fd) (hwire : s'.wire = s.wire.connect fd) :
    s.Takes (.connect fd) s' := by
  have hlog : s'.log = s.log ++ [.accepted fd] := congrArg Wire.log hwire
  refine ⟨?_, hcore, ?_⟩
  · rw [hlog, inputs_snoc]
    rfl
  · rw [hlog, utterances_append]
    rfl

/-- A command that was parsed. -/
theorem takes_command {command : Command} {line : Text}
    (h : ((s.record (.completeLine fd line)).record (.dispatched fd command)).Answers s'
      (s.core.dispatch fd command)) : s.Takes (.command fd command) s' := by
  obtain ⟨hcore, hwire⟩ := h
  have hlog : s'.log = (((s.wire.record (.completeLine fd line)).record
      (.dispatched fd command)).deliver (s.core.dispatch fd command).2).log := congrArg Wire.log hwire
  refine ⟨?_, hcore, ?_⟩
  · rw [hlog, Wire.inputs_deliver]
    refine (inputs_snoc (s.log ++ [.completeLine fd line]) (.dispatched fd command)).trans ?_
    rw [inputs_snoc, show readInput s.log (.completeLine fd line) = none from rfl]
    simp [readInput]
  · rw [hlog, Wire.utterances_deliver]
    refine congrArg (· ++ _) ?_
    refine (utterances_append (s.log ++ [.completeLine fd line]) [.dispatched fd command]).trans ?_
    rw [utterances_append]
    simp [utterances, Action.utterance]

theorem Reachable.handles (h : Reachable s) (hfd : s.core.Live fd) (line : Text) :
    s.Idles (s.handleCompleteLine fd line) ∨
      (Command.parse line).valid = true ∧
      s.Takes (.command fd (Command.parse line)) (s.handleCompleteLine fd line) := by
  unfold handleCompleteLine
  dsimp only
  split
  · exact Or.inl (idles_quiet rfl (Wire.Quiet.record _ rfl nofun))
  · next hvalid =>
    exact Or.inr ⟨by simpa using hvalid, takes_command (dispatchCommand_answers _ fd _ h.ok.membersLive hfd)⟩

theorem Reachable.takes_disconnect (h : Reachable s) {index : Nat} {p : PollFd}
    (hp : s.pollFds[index]? = some p) (hfd : s.core.Live p.fd) :
    s.Takes (.disconnect p.fd (quitReason s.log p.fd)) (s.removeClient index) := by
  obtain ⟨hcore, hwire⟩ := removeClient_answers s hp h.ok.membersLive hfd rfl
  rw [h.quitReason_eq hfd] at hwire
  have hlog : (s.removeClient index).log =
      (s.wire.deliver (s.core.quitSignals p.fd (quitReason s.log p.fd))).log ++ [.removed p.fd] :=
    congrArg Wire.log hwire
  -- the QUIT lines go to others, and give no reason for this one
  have hreason : quitReason (s.wire.deliver (s.core.quitSignals p.fd (quitReason s.log p.fd))).log p.fd =
      quitReason s.log p.fd := by
    have hlast := h.reasoned.lastReason_deliver ((isSome_ports s p.fd).2 hfd)
      (s.core.fd_quitSignals p.fd (quitReason s.log p.fd))
    exact congrArg (fun reason : Text => if reason.isEmpty then "Connection closed".toList else reason) hlast
  refine ⟨?_, hcore, ?_⟩
  · rw [hlog, inputs_snoc, Wire.inputs_deliver]
    exact congrArg (fun reason => inputs s.log ++ [Input.disconnect p.fd reason]) hreason
  · rw [hlog, utterances_append, Wire.utterances_deliver]
    exact List.append_nil _

theorem Step.eq_of_line {line : Text} (hs : s.Step (.line fd line) s') :
    s' = s.handleCompleteLine fd line := by
  unfold Step step at hs
  dsimp only at hs
  split at hs <;> cases hs
  rfl

theorem Step.eq_of_remove {index : Nat} (hs : s.Step (.remove index) s') : s' = s.removeClient index := by
  unfold Step step at hs
  dsimp only at hs
  split at hs <;> cases hs
  rfl

/-- **A step gives the machine one input, or none.** -/
theorem Reachable.takes (h : Reachable s) (hs : s.Step e s') :
    s.Idles s' ∨ ∃ i, i.Fits s.core ∧ s.Takes i s' := by
  cases hs.move h.ok.membersLive with
  | quiet hcore hwire => exact Or.inl (idles_quiet hcore hwire)
  | @connect fd _ hnew hcore hwire => exact Or.inr ⟨.connect fd, hnew, takes_connect hcore hwire⟩
  | @command fd line _ signals hfd hvalid heffect hwire =>
    rw [hs.eq_of_line]
    rcases h.handles hfd line with hidle | ⟨-, htakes⟩
    · exact Or.inl hidle
    · exact Or.inr ⟨.command fd (Command.parse line), hfd, htakes⟩
  | @disconnect _ p _ recipients pollFds hp hfd hcore hrec hwire =>
    rw [hs.eq_of_remove]
    exact Or.inr ⟨.disconnect p.fd (quitReason s.log p.fd), hfd, h.takes_disconnect hp hfd⟩

/-- The server follows the machine. -/
theorem Reachable.follows (h : Reachable s) (hs : s.Step e s') :
    Machine.Follows Core.respond core (fun s => inputs s.log) (fun s => utterances s.log) s s' := by
  rcases h.takes hs with hidle | ⟨i, -, htakes⟩
  · exact ⟨[], by simpa using hidle.inputs, hidle.core,
      hidle.utterances.trans (List.append_nil _).symm⟩
  · refine ⟨[i], htakes.inputs, htakes.core, htakes.utterances.trans ?_⟩
    exact congrArg _ (List.append_nil _).symm

theorem Reachable.follows_run (h : Reachable s) (hrun : Transition.Reachable Step s s') :
    Machine.Follows Core.respond core (fun s => inputs s.log) (fun s => utterances s.log) s s' := by
  refine Machine.Follows.run (fun t e t' hr hs => ?_) hrun
  obtain ⟨listenerFd, password, hstart⟩ := h
  exact Reachable.follows ⟨listenerFd, password, hstart.trans hr⟩ hs

/-- **The core, and every line the server has tried to queue, are what the machine makes of what
the history says was accepted, dispatched and removed.** -/
theorem replayed_run {es : List Event} (hrun : Transition.Run Step (start listenerFd password) es s) :
    s.core = Machine.after Core.respond (start listenerFd password).core (inputs s.log) ∧
      utterances s.log = Machine.said Core.respond (start listenerFd password).core (inputs s.log) :=
  ((Reachable.start listenerFd password).follows_run hrun.reachable).tracked rfl rfl

end Server

end FtIrc
