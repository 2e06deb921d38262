import FtIrc.Steps

/-!
# What delivered signals leave on the wire

Disconnect requests stay, connections stay, and the history only grows.  A connection whose
disconnection is not requested afterwards has been given every line addressed to it
(`Wire.stream_deliver`).
-/

namespace FtIrc

open Std

/-! ## What a client has been sent -/

/-- One entry of the history, read by the connection on `m`. -/
def readAction (m : Fd) (lines : List Line) : Action → List Line
  | .accepted fd => if fd = m then [] else lines
  | .queued fd line true => if fd = m then lines ++ [line] else lines
  | _ => lines

/-- The lines queued to the present connection on `m`, oldest first. -/
def stream (log : List Action) (m : Fd) : List Line := log.foldl (readAction m) []

theorem stream_append (log actions : List Action) (m : Fd) :
    stream (log ++ actions) m = actions.foldl (readAction m) (stream log m) := List.foldl_append

theorem stream_quiet (log : List Action) {actions : List Action} (m : Fd)
    (h : ∀ a ∈ actions, a.isQuiet = true) : stream (log ++ actions) m = stream log m := by
  rw [stream_append]
  generalize stream log m = lines
  induction actions with
  | nil => rfl
  | cons a actions ih =>
    have ha := h a List.mem_cons_self
    have hread : readAction m lines a = lines := by
      cases a <;> first | rfl | cases ha
    rw [List.foldl_cons, hread]
    exact ih fun b hb => h b (List.mem_cons_of_mem _ hb)

/-- The lines among `signals` for the client on `m`. -/
def linesFor (m : Fd) : List Signal → List Line
  | [] => []
  | .line fd line :: signals => if fd = m then line :: linesFor m signals else linesFor m signals
  | .disconnect .. :: signals => linesFor m signals

theorem linesFor_append (m : Fd) (xs ys : List Signal) :
    linesFor m (xs ++ ys) = linesFor m xs ++ linesFor m ys := by
  induction xs with
  | nil => rfl
  | cons x xs ih =>
    cases x with
    | line fd line =>
      simp only [List.cons_append, linesFor]
      split
      · rw [ih, List.cons_append]
      · exact ih
    | disconnect => exact ih

theorem linesFor_toAll_of_notMem {m : Fd} {fds : List Fd} (h : m ∉ fds) (line : Line) :
    linesFor m (toAll fds line) = [] := by
  induction fds with
  | nil => rfl
  | cons fd fds ih =>
    rw [List.mem_cons, not_or] at h
    rw [toAll_cons, linesFor, if_neg (Ne.symm h.1)]
    exact ih h.2

theorem linesFor_toAll {m : Fd} {fds : List Fd} (hnodup : fds.Nodup) (h : m ∈ fds) (line : Line) :
    linesFor m (toAll fds line) = [line] := by
  induction fds with
  | nil => cases h
  | cons fd fds ih =>
    rw [List.nodup_cons] at hnodup
    rw [toAll_cons, linesFor]
    split
    · next he =>
      subst he
      rw [linesFor_toAll_of_notMem hnodup.1]
    · next he =>
      rcases List.mem_cons.1 h with rfl | h
      · exact absurd rfl he
      · exact ih hnodup.2 h

def Signal.fd : Signal → Fd
  | .line fd _ => fd
  | .disconnect fd _ => fd

theorem fd_toAll {fds : List Fd} {line : Line} {x : Signal} (h : x ∈ toAll fds line) :
    x.fd ∈ fds := by
  obtain ⟨fd, hfd, rfl⟩ := List.mem_map.1 h
  exact hfd

/-! ## One signal -/

/-- An entry that delivering a signal may leave in the history. -/
def Action.isDelivery : Action → Bool
  | .disconnectRequested .. => true
  | .queued .. => true
  | _ => false

namespace Wire

variable (w : Wire) (fd m : Fd)

theorem isSome_signal (x : Signal) : ((w.signal x).ports m).isSome = (w.ports m).isSome := by
  cases x with
  | line fd line =>
    rw [signal_line]
    unfold queueLine
    split
    · rfl
    split
    · exact isSome_modify (w := w) fd m _
    · exact isSome_modify (w := w) fd m _
  | disconnect fd reason => exact isSome_modify (w := w) fd m _

theorem port_signal_of_ne {m : Fd} {x : Signal} (h : x.fd ≠ m) : (w.signal x).port m = w.port m := by
  cases x with
  | line fd line =>
    rw [signal_line]
    unfold queueLine
    split
    · rfl
    split
    · exact port_modify_of_ne (w := w) h
    · exact port_modify_of_ne (w := w) h
  | disconnect fd reason => exact port_modify_of_ne (w := w) h

theorem log_signal (x : Signal) :
    ∃ actions, (w.signal x).log = w.log ++ actions ∧ ∀ a ∈ actions, a.isDelivery = true := by
  cases x with
  | line fd line =>
    rw [signal_line]
    unfold queueLine
    split
    · exact ⟨_, rfl, by simp [Action.isDelivery]⟩
    split
    · exact ⟨_, rfl, by simp [Action.isDelivery]⟩
    · exact ⟨_, List.append_assoc _ _ _, by simp [Action.isDelivery]⟩
  | disconnect fd reason => exact ⟨_, rfl, by simp [Action.isDelivery]⟩

theorem requestDisconnect_flag (reason : Text)
    (h : (w.port m).disconnectRequested = true) :
    ((w.requestDisconnect fd reason).port m).disconnectRequested = true :=
  flag_modify (w := w) (fun _ _ => rfl) h

theorem signal_flag (x : Signal) (h : (w.port m).disconnectRequested = true) :
    ((w.signal x).port m).disconnectRequested = true := by
  cases x with
  | line fd line =>
    rw [signal_line]
    unfold queueLine
    split
    · exact h
    split
    · exact flag_modify (w := w) (fun _ hp => hp) h
    · exact w.requestDisconnect_flag fd m _ h
  | disconnect fd reason => exact w.requestDisconnect_flag fd m reason h

/-- A line for which there is no room marks the connection. -/
theorem flag_queueLine {m : Fd} (hlive : (w.ports m).isSome) (line : Line) :
    ((w.queueLine m line).port m).disconnectRequested = true ↔
      (w.port m).disconnectRequested = true ∨ ¬ (w.port m).Fits line.bytes := by
  unfold queueLine
  split
  · next hflag => exact iff_of_true hflag (Or.inl hflag)
  next hflag =>
  split
  · next hfits =>
    have hport := port_modify_self (w := w)
      (f := fun p => { p with outputBuffer := p.outputBuffer ++ line.bytes }) hlive
    exact iff_of_false (fun h => hflag (congrArg Port.disconnectRequested hport ▸ h))
      (not_or.2 ⟨hflag, not_not.2 hfits⟩)
  · next hfits =>
    refine iff_of_true ?_ (Or.inr hfits)
    show ((w.modify m _).port m).disconnectRequested = true
    rw [port_modify_self hlive]

/-- A line is either accepted, or the connection is marked. -/
theorem stream_signal (x : Signal) (hlive : (w.ports m).isSome)
    (h : ((w.signal x).port m).disconnectRequested = false) :
    stream (w.signal x).log m = stream w.log m ++ linesFor m [x] := by
  cases x with
  | line fd line =>
    rw [signal_line] at h ⊢
    unfold queueLine at h ⊢
    by_cases hflag : (w.port fd).disconnectRequested = true
    · rw [if_pos hflag] at h ⊢
      have hne : fd ≠ m := by
        rintro rfl
        rw [show (w.record (.queued fd line false)).port fd = w.port fd from rfl, hflag] at h
        cases h
      show stream (w.log ++ [_]) m = _
      rw [stream_append, linesFor, if_neg hne]
      exact (List.append_nil _).symm
    rw [if_neg hflag] at h ⊢
    split
    · show stream (w.log ++ [_]) m = _
      rw [stream_append, linesFor]
      simp only [List.foldl_cons, List.foldl_nil, readAction]
      split
      · rfl
      · exact (List.append_nil _).symm
    · next hfit =>
      rw [if_neg hfit] at h
      have hne : fd ≠ m := by
        rintro rfl
        rw [show ((w.requestDisconnect fd _).record (.queued fd line false)).port fd =
          (w.modify fd _).port fd from rfl, port_modify_self hlive] at h
        cases h
      show stream (w.log ++ [_] ++ [_]) m = _
      rw [stream_append, stream_append, linesFor, if_neg hne]
      exact (List.append_nil _).symm
  | disconnect fd reason =>
    show stream (w.log ++ [_]) m = _
    rw [stream_append]
    exact (List.append_nil _).symm

/-! ## All signals -/

theorem isSome_deliver (signals : List Signal) :
    ((w.deliver signals).ports m).isSome = (w.ports m).isSome := by
  induction signals generalizing w with
  | nil => rfl
  | cons x signals ih => rw [deliver_cons, ih, isSome_signal]

theorem port_deliver_of_ne {m : Fd} {signals : List Signal} (h : ∀ x ∈ signals, x.fd ≠ m) :
    (w.deliver signals).port m = w.port m := by
  induction signals generalizing w with
  | nil => rfl
  | cons x signals ih =>
    rw [deliver_cons, ih _ fun y hy => h y (List.mem_cons_of_mem _ hy),
      port_signal_of_ne w (h x List.mem_cons_self)]

theorem log_deliver (signals : List Signal) :
    ∃ actions, (w.deliver signals).log = w.log ++ actions ∧ ∀ a ∈ actions, a.isDelivery = true := by
  induction signals generalizing w with
  | nil => exact ⟨[], (List.append_nil _).symm, by simp⟩
  | cons x signals ih =>
    obtain ⟨as, has, hd⟩ := w.log_signal x
    obtain ⟨bs, hbs, hd'⟩ := ih (w.signal x)
    refine ⟨as ++ bs, by rw [deliver_cons, hbs, has, List.append_assoc], ?_⟩
    intro a ha
    rcases List.mem_append.1 ha with ha | ha
    · exact hd a ha
    · exact hd' a ha

theorem deliver_flag (signals : List Signal) (h : (w.port m).disconnectRequested = true) :
    ((w.deliver signals).port m).disconnectRequested = true := by
  induction signals generalizing w with
  | nil => exact h
  | cons x signals ih => exact ih (w.signal x) (w.signal_flag m x h)

/-- **An unmarked connection misses no line.** -/
theorem stream_deliver (signals : List Signal) (hlive : (w.ports m).isSome)
    (h : ((w.deliver signals).port m).disconnectRequested = false) :
    stream (w.deliver signals).log m = stream w.log m ++ linesFor m signals := by
  induction signals generalizing w with
  | nil => exact (List.append_nil _).symm
  | cons x signals ih =>
    rw [deliver_cons] at h ⊢
    have hx : ((w.signal x).port m).disconnectRequested = false := by
      by_contra hx
      rw [(w.signal x).deliver_flag m signals (by simpa using hx)] at h
      cases h
    rw [ih (w.signal x) (by rw [isSome_signal]; exact hlive) h, stream_signal w m x hlive hx,
      List.append_assoc, ← linesFor_append]
    rfl

end Wire

/-! ## The history of a step -/

namespace Server

variable {s s' : Server} {signals : List Signal} {actions : List Action} {fd : Fd}

/-- A line is handled. -/
theorem log_handled {line : Text} {command : Command}
    (hwire : s'.wire = ((s.wire.record (.completeLine fd line)).record (.dispatched fd command)).deliver signals)
    (hlog : (((s.wire.record (.completeLine fd line)).record (.dispatched fd command)).deliver signals).log =
      ((s.wire.record (.completeLine fd line)).record (.dispatched fd command)).log ++ actions) :
    s'.log = s.log ++ ([.completeLine fd line, .dispatched fd command] ++ actions) := by
  refine (congrArg Wire.log hwire).trans (hlog.trans ?_)
  exact (List.append_assoc (s.log ++ [_]) [_] actions).trans (List.append_assoc s.log [_] _)

/-- A client is removed. -/
theorem log_removed {pollFds : List PollFd} (hwire : s'.wire = (s.wire.deliver signals).disconnect fd pollFds)
    (hlog : (s.wire.deliver signals).log = s.wire.log ++ actions) :
    s'.log = s.log ++ (actions ++ [.removed fd]) := by
  refine (congrArg Wire.log hwire).trans ?_
  exact (congrArg (· ++ [Action.removed fd]) hlog).trans (List.append_assoc _ _ _)

end Server

end FtIrc
