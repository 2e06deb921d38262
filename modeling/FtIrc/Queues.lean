import FtIrc.Unregistered
import FtIrc.Stores

/-!
# What a step queues to each client

`queueLine` takes the lines for one client one after the other, and each depends on what the
client's queue holds by then (`Port.queue`).  So the lines a step addresses to a client, in
order, say all that happens to its queue (`Server.Queued`).
-/

namespace FtIrc

open Std

/-! ## One client -/

/-- The lines `queueLine` was called with for the client on `m`. -/
def queuedTo (m : Fd) (actions : List Action) : List Line :=
  actions.filterMap fun
    | .queued fd line _ => if fd = m then some line else none
    | _ => none

/-- `queueLine`, at the client it is called for. -/
def Port.queue (p : Port) (line : Line) : Port :=
  if p.disconnectRequested then p
  else if p.Fits line.bytes then { p with outputBuffer := p.outputBuffer ++ line.bytes }
  else
    { p with
      disconnectReason := "Exceeded Client OutputBuffer".toList
      disconnectRequested := true }

/-- What has happened since the present connection on `m` was accepted. -/
def sinceAccepted (m : Fd) (log : List Action) : List Action :=
  History.recent (fun a => a = .accepted m) log

theorem sinceAccepted_append {m : Fd} {log actions : List Action} (h : .accepted m ∉ actions) :
    sinceAccepted m (log ++ actions) = sinceAccepted m log ++ actions :=
  History.recent_append fun _ ha hm => h (hm ▸ ha)

theorem sinceAccepted_accepted (m : Fd) (log : List Action) :
    sinceAccepted m (log ++ [.accepted m]) = [] :=
  History.recent_snoc_of_pos (q := fun a => a = Action.accepted m) rfl

theorem queuedTo_append (m : Fd) (as bs : List Action) :
    queuedTo m (as ++ bs) = queuedTo m as ++ queuedTo m bs := List.filterMap_append

theorem mem_queuedTo {m : Fd} {actions : List Action} {line : Line} :
    line ∈ queuedTo m actions ↔ ∃ accepted, .queued m line accepted ∈ actions := by
  unfold queuedTo
  rw [List.mem_filterMap]
  constructor
  · rintro ⟨a, ha, hline⟩
    split at hline
    · next fd line' accepted =>
      split at hline
      · next he => subst he; cases hline; exact ⟨accepted, ha⟩
      · cases hline
    · cases hline
  · rintro ⟨accepted, hmem⟩
    exact ⟨_, hmem, if_pos rfl⟩

namespace Wire

variable (w : Wire) {m : Fd}

theorem port_queueLine (hlive : (w.ports m).isSome) (line : Line) :
    (w.queueLine m line).port m = (w.port m).queue line := by
  unfold queueLine Port.queue
  split
  · rfl
  split
  · exact port_modify_self (w := w) hlive
  · exact port_modify_self (w := w) hlive

/-- A client whose disconnection no signal requests is queued the lines for it. -/
theorem port_deliver {signals : List Signal} (hlive : (w.ports m).isSome)
    (h : ∀ reason, .disconnect m reason ∉ signals) :
    (w.deliver signals).port m = (linesFor m signals).foldl Port.queue (w.port m) := by
  induction signals generalizing w with
  | nil => rfl
  | cons x signals ih =>
    rw [deliver_cons, ih _ (by rw [isSome_signal]; exact hlive)
      fun reason hmem => h reason (List.mem_cons_of_mem _ hmem)]
    cases x with
    | line fd line =>
      rw [linesFor]
      split
      · next he => subst he; rw [signal_line, port_queueLine w hlive, List.foldl_cons]
      · next hne => rw [port_signal_of_ne (x := .line fd line) w hne]
    | disconnect fd reason =>
      have hne : fd ≠ m := by
        rintro rfl
        exact h reason List.mem_cons_self
      rw [linesFor, port_signal_of_ne (x := .disconnect fd reason) w hne]

/-- Every signal that is a line leaves one entry, of that line. -/
theorem log_signal_queued (x : Signal) :
    ∃ actions, (w.signal x).log = w.log ++ actions ∧
      ∀ m, queuedTo m actions = linesFor m [x] := by
  cases x with
  | line fd line =>
    rw [signal_line]
    unfold queueLine
    split
    · exact ⟨_, rfl, fun m => by by_cases hm : fd = m <;> simp [queuedTo, linesFor, hm]⟩
    split
    · exact ⟨_, rfl, fun m => by by_cases hm : fd = m <;> simp [queuedTo, linesFor, hm]⟩
    · exact ⟨_, List.append_assoc _ _ _, fun m => by
        by_cases hm : fd = m <;> simp [queuedTo, linesFor, hm]⟩
  | disconnect fd reason => exact ⟨_, rfl, fun _ => rfl⟩

theorem log_deliver_queued (signals : List Signal) :
    ∃ actions, (w.deliver signals).log = w.log ++ actions ∧
      ∀ m, queuedTo m actions = linesFor m signals := by
  induction signals generalizing w with
  | nil => exact ⟨[], (List.append_nil _).symm, fun _ => rfl⟩
  | cons x signals ih =>
    obtain ⟨as, has, hx⟩ := w.log_signal_queued x
    obtain ⟨bs, hbs, hrest⟩ := ih (w.signal x)
    refine ⟨as ++ bs, by rw [deliver_cons, hbs, has, List.append_assoc], fun m => ?_⟩
    rw [queuedTo_append, hx, hrest, ← linesFor_append]
    rfl

end Wire

theorem linesFor_of_ne {m : Fd} {signals : List Signal} (h : ∀ x ∈ signals, x.fd ≠ m) :
    linesFor m signals = [] := by
  induction signals with
  | nil => rfl
  | cons x signals ih =>
    have hrest := ih fun y hy => h y (List.mem_cons_of_mem _ hy)
    cases x with
    | line fd line =>
      have hne : fd ≠ m := h _ List.mem_cons_self
      rw [linesFor, if_neg hne]
      exact hrest
    | disconnect => exact hrest

theorem mem_linesFor {m : Fd} {signals : List Signal} {line : Line} :
    line ∈ linesFor m signals ↔ .line m line ∈ signals := by
  induction signals with
  | nil => simp [linesFor]
  | cons x signals ih =>
    cases x with
    | line fd line' =>
      rw [linesFor]
      split
      · next he => subst he; simp [ih]
      · next hne => simp [ih, Ne.symm hne]
    | disconnect => simp [linesFor, ih]

/-! ## Who is addressed -/

namespace Core

variable {κ : Core}

theorem live_of_holder {nickname : Text} {fd : Fd} (h : κ.holder nickname = some fd) :
    κ.Live fd := by
  unfold holder at h
  split at h
  · cases h
  · next x _ =>
    obtain ⟨id, hid, rfl⟩ := Option.map_eq_some_iff.1 h
    exact Option.isSome_iff_exists.2 ⟨id, hid⟩

theorem Expected.live {A x : Fd} (h : κ.Expected A x) (hlive : κ.Live A) : κ.Live x := by
  rcases h with rfl | h
  · exact hlive
  · exact live_of_registered h

end Core

/-- A command addresses clients only. -/
theorem Effect.signals_live {κ κ' : Core} {A : Fd} {command : Command} {signals : List Signal}
    (he : Effect κ A command κ' signals) (hok : κ.Ok) (hlive : κ.Live A) :
    ∀ x ∈ signals, κ.Live x.fd := by
  intro x hx
  rcases he.expected hok with hexp | ⟨before, B, relay, haddr, hbefore, rfl⟩
  · exact (hexp x hx).live hlive
  rcases List.mem_append.1 hx with hx | hx
  · rw [hbefore x hx]
    exact hlive
  · cases List.mem_singleton.1 hx
    cases haddr with
    | privmsg _ _ _ _ _ _ _ hholder => exact Core.live_of_holder hholder
    | invite _ _ _ _ _ _ _ hholder => exact Core.live_of_holder hholder

theorem disconnect_notMem_toAll {m : Fd} {reason : Text} {fds : List Fd} {line : Line} :
    .disconnect m reason ∉ toAll fds line := by
  intro hmem
  obtain ⟨fd, -, heq⟩ := List.mem_map.1 hmem
  cases heq

theorem ModeRun.disconnects {κ κ' : Core} {A : Fd} {key : Text} {changes : List ModeChange}
    {signals : List Signal} (h : ModeRun A key κ changes κ' signals) {m : Fd} {reason : Text} :
    .disconnect m reason ∉ signals := by
  induction h with
  | nil => exact List.not_mem_nil
  | refused _ _ _ ih => simpa using ih
  | unchanged _ ih => exact ih
  | applied _ _ _ ih => simpa [disconnect_notMem_toAll] using ih

/-- Only QUIT asks for a disconnection, and of its own client. -/
theorem Effect.disconnects {κ κ' : Core} {A : Fd} {command : Command} {signals : List Signal}
    (he : Effect κ A command κ' signals) {m : Fd} {reason : Text}
    (h : .disconnect m reason ∈ signals) :
    m = A ∧ command.name = "QUIT".toList ∧ κ' = κ ∧
      reason = command.parameters.head?.getD "Client Quit".toList ∧ signals = [.disconnect A reason] := by
  have hwelcome {κ : Core} : .disconnect m reason ∉ κ.welcome A := by
    unfold Core.welcome
    split <;> simp only [List.mem_cons, List.not_mem_nil, reduceCtorEq, or_self, not_false_eq_true]
  have hjoin {κ : Core} {c : Channel} : .disconnect m reason ∉ κ.joinSignals A c := by
    intro hmem
    rcases List.mem_append.1 hmem with hmem | hmem
    · exact disconnect_notMem_toAll hmem
    · simp only [Core.joinReplies, List.mem_cons, List.not_mem_nil, reduceCtorEq, or_false] at hmem
  cases he with
  | silent => cases h
  | reply => simp at h
  | quit hname =>
    cases List.mem_singleton.1 h
    exact ⟨rfl, hname, rfl, rfl, rfl⟩
  | pass => exact absurd h hwelcome
  | user => exact absurd h hwelcome
  | nick => exact absurd h (by simp [disconnect_notMem_toAll, hwelcome])
  | create => exact absurd h hjoin
  | join => exact absurd h hjoin
  | privmsgChannel => exact absurd h disconnect_notMem_toAll
  | privmsgUser => simp at h
  | topic => exact absurd h disconnect_notMem_toAll
  | kick => exact absurd h disconnect_notMem_toAll
  | invite => simp at h
  | mode _ _ _ _ _ _ _ _ _ _ _ _ hrun => exact absurd h hrun.disconnects

/-! ## The server -/

namespace Server

variable {s s' s'' : Server} {e : Event} {A : Fd} {line : Text}

/-- From `s` to `s'` just `lines` are queued to the client on `m`, in this order; each is
left out if the client is to be disconnected by then, or has no room for it. -/
structure Queued (s s' : Server) (m : Fd) (lines : List Line) : Prop where
  log : ∃ actions, s'.log = s.log ++ actions ∧ queuedTo m actions = lines
  port : (s'.client m).port = lines.foldl Port.queue (s.client m).port

theorem Queued.trans {m : Fd} {lines more : List Line} (h : s.Queued s' m lines)
    (h' : s'.Queued s'' m more) : s.Queued s'' m (lines ++ more) := by
  obtain ⟨⟨as, has, hl⟩, hp⟩ := h
  obtain ⟨⟨bs, hbs, hl'⟩, hp'⟩ := h'
  refine ⟨⟨as ++ bs, by rw [hbs, has, List.append_assoc], by rw [queuedTo_append, hl, hl']⟩, ?_⟩
  rw [hp', hp, List.foldl_append]

theorem Queued.outputBuffer {m : Fd} (h : s.Queued s' m []) :
    (s'.client m).outputBuffer = (s.client m).outputBuffer :=
  congrArg Port.outputBuffer h.port

theorem queued_deliver {signals : List Signal} (hwire : s'.wire = s.wire.deliver signals) {m : Fd}
    (hlive : ∀ x ∈ signals, s.core.Live x.fd) (h : ∀ reason, .disconnect m reason ∉ signals) :
    s.Queued s' m (linesFor m signals) := by
  obtain ⟨actions, hlog, hqueued⟩ := s.wire.log_deliver_queued signals
  refine ⟨⟨actions, (congrArg Wire.log hwire).trans hlog, hqueued m⟩, ?_⟩
  rw [port_client, port_client, hwire]
  by_cases hm : s.core.Live m
  · exact Wire.port_deliver _ ((isSome_ports s m).2 hm) h
  · have hne : ∀ x ∈ signals, x.fd ≠ m := by
      rintro x hx rfl
      exact hm (hlive x hx)
    rw [linesFor_of_ne hne, Wire.port_deliver_of_ne _ hne]
    rfl

theorem queued_quiet {m : Fd} {actions : List Action} (hlog : s'.log = s.log ++ actions)
    (hquiet : ∀ a ∈ actions, a.isQuiet = true ∨ ∃ fd command, a = .dispatched fd command)
    (hport : s'.wire.port m = s.wire.port m) : s.Queued s' m [] := by
  refine ⟨⟨actions, hlog, ?_⟩, by rw [port_client, port_client, hport]; rfl⟩
  rw [queuedTo, List.filterMap_eq_nil_iff]
  intro a ha
  rcases hquiet a ha with hq | ⟨fd, command, rfl⟩
  · cases a <;> first | rfl | cases hq
  · rfl

/-- The entries in front of the lines a command queues are none themselves. -/
theorem queued_dispatched {signals : List Signal} {command : Command}
    (hwire : s'.wire = ((s.wire.record (.completeLine A line)).record
      (.dispatched A command)).deliver signals)
    (hlive : ∀ x ∈ signals, s.core.Live x.fd) {m : Fd} (hm : ∀ reason, .disconnect m reason ∉ signals) :
    s.Queued s' m (linesFor m signals) := by
  have hfirst : s.Queued ((s.record (.completeLine A line)).record (.dispatched A command)) m [] :=
    queued_quiet (show _ = s.log ++ [.completeLine A line, .dispatched A command] by simp [record])
      (by simp [Action.isQuiet]) rfl
  exact hfirst.trans (queued_deliver (by rw [hwire]; rfl) hlive hm)

/-- **What a line queues**: the lines of one effect of its command, or nothing. -/
theorem Reachable.queued (hr : Reachable s) (hs : s.Step (.line A line) s') :
    s.core.Live A ∧
    (((Command.parse line).valid = false ∧ s'.core = s.core ∧ ∀ m, s.Queued s' m []) ∨
      (Command.parse line).valid = true ∧ ∃ signals,
        Effect s.core A (Command.parse line) s'.core signals ∧
        ∀ m, (∀ reason, .disconnect m reason ∉ signals) → s.Queued s' m (linesFor m signals)) := by
  unfold Step Server.step at hs
  dsimp only at hs
  split at hs
  swap
  · cases hs
  next hA =>
  cases hs
  have hlive := (live_iff s A).2 hA.1
  refine ⟨hlive, ?_⟩
  rcases handleCompleteLine_spec hr.ok.membersLive hlive line with
    ⟨hvalid, hcore, hwire⟩ | ⟨hvalid, signals, heffect, hwire⟩
  · refine Or.inl ⟨hvalid, hcore, fun m => ?_⟩
    exact queued_quiet (show _ = s.log ++ [.completeLine A line] from congrArg Wire.log hwire)
      (by simp [Action.isQuiet]) (by rw [hwire]; rfl)
  · exact Or.inr ⟨hvalid, signals, heffect, fun m hm =>
      queued_dispatched hwire (heffect.signals_live hr.ok hlive) hm⟩

end Server

end FtIrc
