import FtIrc.Buffers
import FtIrc.Agreement

/-!
# From bytes to bytes

What a client gets for what it sends (`Loop.bytes_to_bytes`).  Its bytes, behind those of a line
it had begun, are cut into frames, the frames are parsed, the valid ones are its inputs to the
machine of `Core.respond`, among those of the others; and the bytes of what the machine says to it
are what it is sent, after what was pending before.
-/

namespace FtIrc

open Std

/-! ## The commands of a client -/

/-- The valid commands among complete lines. -/
def commandsIn (lines : List Text) : List Command := (lines.map Command.parse).filter (·.valid)

/-- The commands of the client on `fd` among inputs. -/
def commandsOf (fd : Fd) : List Input → List Command
  | [] => []
  | .command x command :: is => if x = fd then command :: commandsOf fd is else commandsOf fd is
  | _ :: is => commandsOf fd is

theorem commandsOf_append (fd : Fd) (is js : List Input) :
    commandsOf fd (is ++ js) = commandsOf fd is ++ commandsOf fd js := by
  induction is with
  | nil => rfl
  | cons i is ih =>
    cases i with
    | command x command =>
      show (if x = fd then command :: commandsOf fd (is ++ js) else commandsOf fd (is ++ js)) =
        (if x = fd then command :: commandsOf fd is else commandsOf fd is) ++ commandsOf fd js
      rw [ih]
      split <;> rfl
    | _ => exact ih

theorem commandsIn_append (lines more : List Text) :
    commandsIn (lines ++ more) = commandsIn lines ++ commandsIn more := by
  unfold commandsIn
  rw [List.map_append, List.filter_append]

namespace Server

variable {s s' : Server} {e : Event} {fd : Fd}

/-- From `s` to `s'` the commands that are taken are those of the lines that are handled. -/
def Parses (s s' : Server) : Prop :=
  ∃ actions is, s'.log = s.log ++ actions ∧ inputs s'.log = inputs s.log ++ is ∧
    ∀ fd, commandsOf fd is = commandsIn (handedTo fd actions)

theorem Parses.trans {s'' : Server} (h : s.Parses s') (h' : s'.Parses s'') : s.Parses s'' := by
  obtain ⟨as, is, has, his, hcommands⟩ := h
  obtain ⟨bs, js, hbs, hjs, hcommands'⟩ := h'
  refine ⟨as ++ bs, is ++ js, by rw [hbs, has, List.append_assoc],
    by rw [hjs, his, List.append_assoc], fun fd => ?_⟩
  rw [commandsOf_append, handedTo_append, commandsIn_append, hcommands, hcommands']

theorem Parses.refl (s : Server) : s.Parses s :=
  ⟨[], [], (List.append_nil _).symm, (List.append_nil _).symm, fun _ => rfl⟩

theorem commandsOf_inputsFrom (fd : Fd) (before : List Action) {actions : List Action}
    (h : ∀ a ∈ actions, a.isNote = false) : commandsOf fd (inputsFrom before actions) = [] := by
  induction actions generalizing before with
  | nil => rfl
  | cons a actions ih =>
    have ha := h a List.mem_cons_self
    have hfirst : commandsOf fd (readInput before a).toList = [] := by
      cases a <;> first | rfl | cases ha
    show commandsOf fd ((readInput before a).toList ++ inputsFrom (before ++ [a]) actions) = []
    rw [commandsOf_append, hfirst, ih (before ++ [a]) fun b hb => h b (List.mem_cons_of_mem _ hb)]
    rfl

theorem handedTo_unnoted (fd : Fd) {actions : List Action} (h : ∀ a ∈ actions, a.isNote = false) :
    handedTo fd actions = [] := by
  refine List.filterMap_eq_nil_iff.2 fun a ha => ?_
  have := h a ha
  cases a <;> first | rfl | cases this

theorem parses_unnoted {actions : List Action} (hlog : s'.log = s.log ++ actions)
    (h : ∀ a ∈ actions, a.isNote = false) : s.Parses s' := by
  refine ⟨actions, inputsFrom s.log actions, hlog, ?_, fun fd => ?_⟩
  · rw [hlog]
    exact inputsFrom_append [] s.log actions
  · rw [commandsOf_inputsFrom fd s.log h, handedTo_unnoted fd h]
    rfl

theorem isNote_of_isDelivery {a : Action} (h : a.isDelivery = true) : a.isNote = false := by
  cases a <;> first | rfl | cases h

theorem log_flushClientOutput (index : Nat) (sent : Option Nat) :
    ∃ actions, (s.flushClientOutput index sent).1.log = s.log ++ actions ∧
      ∀ a ∈ actions, a.isNote = false := by
  have hnone : ∃ actions, s.log = s.log ++ actions ∧ ∀ a ∈ actions, a.isNote = false :=
    ⟨[], (List.append_nil _).symm, nofun⟩
  unfold flushClientOutput
  split
  · exact hnone
  split
  · exact hnone
  split
  · exact hnone
  split
  · exact ⟨[_], rfl, by simp [Action.isNote]⟩
  · exact ⟨[_], rfl, by simp [Action.isNote]⟩
  · dsimp only
    split
    · exact ⟨[_], rfl, by simp [Action.isNote]⟩
    · exact ⟨[_], rfl, by simp [Action.isNote]⟩

/-- A line is handled: what comes of it as a command, and as an input. -/
theorem parses_handleCompleteLine (hr : Reachable s) (hfd : s.core.Live fd) (line : Text) :
    s.Parses (s.handleCompleteLine fd line) := by
  rcases handleCompleteLine_spec hr.ok.membersLive hfd line with
    ⟨hvalid, -, hwire⟩ | ⟨hvalid, signals, -, hwire⟩
  · have hlog : (s.handleCompleteLine fd line).log = s.log ++ [.completeLine fd line] :=
      congrArg Wire.log hwire
    refine ⟨_, [], hlog, ?_, fun x => ?_⟩
    · rw [hlog, inputs_snoc]
      rfl
    · by_cases hx : fd = x
      · simp [handedTo, hx, commandsIn, hvalid, commandsOf]
      · simp [handedTo, hx, commandsIn, commandsOf]
  · obtain ⟨delivered, hdelivered, hdelivery⟩ := Wire.log_deliver _ signals
    have hnoted : s.Parses ((s.record (.completeLine fd line)).record
        (.dispatched fd (Command.parse line))) := by
      refine ⟨[.completeLine fd line, .dispatched fd (Command.parse line)],
        [.command fd (Command.parse line)], List.append_assoc s.log [_] [_], ?_, fun x => ?_⟩
      · refine (inputs_snoc (s.log ++ [.completeLine fd line]) (.dispatched fd _)).trans ?_
        exact congrArg (· ++ _) ((inputs_snoc s.log (.completeLine fd line)).trans (List.append_nil _))
      · by_cases hx : fd = x
        · simp [handedTo, hx, commandsIn, hvalid, commandsOf]
        · simp [handedTo, hx, commandsIn, commandsOf]
    exact hnoted.trans (parses_unnoted ((congrArg Wire.log hwire).trans hdelivered)
      fun a ha => isNote_of_isDelivery (hdelivery a ha))

/-- **The inputs are the parsed lines**, step by step. -/
theorem Reachable.parses_step (hr : Reachable s) (hs : s.Step e s') : s.Parses s' := by
  have hsame (hlog : s'.log = s.log) : s.Parses s' := by
    have hnothing : s'.log = s.log ++ [] := hlog.trans (List.append_nil _).symm
    exact parses_unnoted hnothing nofun
  unfold Step Server.step at hs
  cases e with
  | poll revents =>
    cases hs
    exact hsame rfl
  | accept result =>
    dsimp only at hs
    cases hok : s.acceptClient result with
    | error e => rw [hok] at hs; cases hs
    | ok s₁ =>
      rw [hok] at hs
      cases hs
      rcases acceptClient_spec hok with rfl | ⟨fd, rfl, -, -, -, hwire⟩
      · exact .refl _
      · exact parses_unnoted (congrArg Wire.log hwire) (by simp [Action.isNote])
  | receive fd data =>
    obtain ⟨c, -, rfl⟩ := Option.map_eq_some_iff.1 hs
    exact hsame rfl
  | pop fd =>
    obtain ⟨popped, -, rfl⟩ := Option.map_eq_some_iff.1 hs
    exact hsame rfl
  | line fd line =>
    dsimp only at hs
    split at hs
    · next hfd =>
      cases hs
      exact parses_handleCompleteLine hr ((live_iff s fd).2 hfd.1) line
    · cases hs
  | flush index sent =>
    dsimp only at hs
    split at hs
    · cases hs
      obtain ⟨actions, hlog, hnote⟩ := s.log_flushClientOutput index sent
      exact parses_unnoted hlog hnote
    · cases hs
  | remove index =>
    dsimp only at hs
    split at hs
    · next hi =>
      cases hs
      obtain ⟨p, recipients, -, -, -, -, -, hwire⟩ := hr.polled.removeClient hr.ok.membersLive hi
      obtain ⟨delivered, hdelivered, hdelivery⟩ :=
        s.wire.log_deliver (toAll recipients (s.quitLine p.fd))
      refine parses_unnoted (log_removed hwire hdelivered) fun a ha => ?_
      rcases List.mem_append.1 ha with ha | ha
      · exact isNote_of_isDelivery (hdelivery a ha)
      · rw [List.mem_singleton.1 ha]
        rfl
    · cases hs

theorem Reachable.parses (hr : Reachable s) (hrun : Transition.Reachable Step s s') : s.Parses s' := by
  refine (hrun.invariant (I := fun s' => Reachable s' ∧ s.Parses s') ⟨hr, .refl s⟩ ?_).2
  rintro s₁ e s₂ - ⟨hr₁, hparses⟩ hs
  exact ⟨hr₁.step hs, hparses.trans (hr₁.parses_step hs)⟩

end Server

namespace Loop

variable {l l' : Loop} {k : Kernel} {ks : List Kernel} {fd : Fd} {p : PollFd} {data : Text}

/-- The bytes that are read from `fd` in a turn. -/
def receives (l : Loop) (k : Kernel) (fd : Fd) : Text :=
  match l.pc with
  | .visit i =>
    match l.server.pollFds[i]? with
    | none => []
    | some p =>
      if p.fd = fd ∧ k.stopRequested = false ∧ p.revents.pollin = true ∧ p.revents.pollerr = false ∧
          p.revents.pollnval = false then k.received.getD []
      else []
  | _ => []

/-- The bytes that are read from `fd` in a run. -/
def bytesFrom (fd : Fd) (l : Loop) : List Kernel → Text
  | [] => []
  | k :: ks =>
    match l.turn k with
    | .error _ => []
    | .ok l' => l.receives k fd ++ bytesFrom fd l' ks

theorem bytesFrom_cons {l₁ : Loop} (hturn : l.Turn k l₁) :
    l.bytesFrom fd (k :: ks) = l.receives k fd ++ l₁.bytesFrom fd ks := by
  show (match l.turn k with
    | .error _ => []
    | .ok l₁ => l.receives k fd ++ l₁.bytesFrom fd ks) = _
  rw [show l.turn k = .ok l₁ from hturn]

theorem receives_of_reads (h : l.Reads k p data) : l.receives k p.fd = data := by
  obtain ⟨i, hpc, hstop, hreads⟩ := h
  unfold receives
  rw [hpc]
  dsimp only
  rw [hreads.entry]
  dsimp only
  rw [if_pos ⟨rfl, hstop, hreads.pollin, hreads.pollerr, hreads.pollnval⟩, hreads.received]
  rfl

theorem receives_of_not_reads (hr : l.server.Reachable) (hfd : l.server.core.Live fd)
    (h : ∀ p data, l.Reads k p data → p.fd ≠ fd) : l.receives k fd = [] := by
  unfold receives
  cases hpc : l.pc with
  | visit i =>
    dsimp only
    cases hp : l.server.pollFds[i]? with
    | none => rfl
    | some p =>
      dsimp only
      split
      · next hcond =>
        obtain ⟨rfl, hstop, hin, herr, hnval⟩ := hcond
        cases hreceived : k.received with
        | none => rfl
        | some data =>
          by_cases hdata : data = []
          · rw [hdata]
            rfl
          · exact absurd rfl (h p data ⟨i, hpc, hstop, hp, ((hr.polled.live p.fd).1 hfd).2,
              (Server.live_iff _ _).1 hfd, hin, herr, hnval, hreceived, hdata⟩)
      · rfl
  | _ => rfl

/-- **What a turn takes** from a client that stays. -/
theorem Turn.takes (ht : l.Turn k l') (hr : l.server.Reachable) (hfd : l.server.core.Live fd)
    (hstays : l.server.Stays l'.server fd) :
    ∃ frames, l.server.wire.Takes l'.server.wire fd (l.receives k fd) frames := by
  rcases ht.cases hr with ⟨p, data, hreads, hrest⟩ | ⟨hnot, hrun⟩
  · obtain ⟨i, hpc, -, hread⟩ := id hreads
    have hr₁ := hr.run (hread.steps hr)
    have hfd₁ := ((hread.lines hr).1.live fd).2 hfd
    obtain ⟨-, actions, hlog, hnot⟩ := hstays.split hr (hread.steps hr) hrest.timely.steps
    obtain ⟨bs, hbs, haway⟩ := hrest.away hr₁ hfd₁
    rw [List.append_cancel_left (hlog.symm.trans hbs)] at hnot
    have hafter := (Server.hears_run hr₁ hfd₁ (haway hnot)).2.takes
    by_cases hp : p.fd = fd
    · subst hp
      obtain ⟨-, ⟨frames, htakes⟩, -⟩ := Server.takes_receive hr hfd (Server.getElem?_fds hread.entry)
        hread.nonempty (Server.receiveFromClient_eq hread.entry hread.found hread.nonempty)
      have h := htakes.trans hafter
      rw [List.append_nil, List.append_nil] at h
      exact ⟨frames, receives_of_reads hreads ▸ h⟩
    · have hnone : l.receives k fd = [] := by
        refine receives_of_not_reads hr hfd ?_
        rintro q data' ⟨j, hpc', -, hread'⟩ hq
        cases hpc.symm.trans hpc'
        exact hp ((congrArg PollFd.fd (Option.some.inj (hread.entry.symm.trans hread'.entry))).trans hq)
      have h := (Server.hears_run hr hfd ((hread.input hr).away hp)).2.takes.trans hafter
      exact ⟨[], hnone ▸ h⟩
  · obtain ⟨actions, hlog, hstays⟩ := hstays
    obtain ⟨bs, hbs, haway⟩ := hrun.away hr hfd
    rw [List.append_cancel_left (hlog.symm.trans hbs)] at hstays
    have hnone : l.receives k fd = [] :=
      receives_of_not_reads hr hfd fun p data hreads => absurd hreads (hnot p data)
    exact ⟨[], hnone ▸ (Server.hears_run hr hfd (haway hstays)).2.takes⟩

theorem run_takes (hr : l.server.Reachable) (hfd : l.server.core.Live fd) (hrun : l.run ks = .ok l')
    (hstays : l.server.Stays l'.server fd) :
    ∃ frames, l.server.wire.Takes l'.server.wire fd (l.bytesFrom fd ks) frames := by
  induction ks generalizing l with
  | nil =>
    cases hrun
    exact ⟨[], (Wire.Hears.refl _ fd).takes⟩
  | cons k ks ih =>
    obtain ⟨l₁, hturn, hrun⟩ := exists_turn_of_run hrun
    have hsteps := hturn.steps hr
    have hr₁ := hr.run hsteps
    obtain ⟨hfirst, hrest⟩ := hstays.split hr hsteps (run_steps hr₁ hrun)
    obtain ⟨frames, htakes⟩ := hturn.takes hr hfd hfirst
    obtain ⟨later, hlater⟩ := ih hr₁ (hfirst.stillOpen hr hfd hsteps).live hrun hrest
    exact ⟨frames ++ later, bytesFrom_cons hturn ▸ htakes.trans hlater⟩

/-- The lines of a client whose disconnection is not requested are the frames of what it had begun
and its bytes; what stands behind them is kept. -/
theorem run_lines (hl : l.Reachable) (hfd : l.server.core.Live fd) (hrun : l.run ks = .ok l')
    (hstays : l.server.Stays l'.server fd)
    (hflag : (l'.server.client fd).disconnectRequested = false) :
    (l.server.wire.port fd).disconnectRequested = false ∧
      (l'.server.client fd).inputBuffer =
        (Framing.frames '\n' ((l.server.client fd).inputBuffer ++ l.bytesFrom fd ks)).2 ∧
      ∃ actions, l'.server.log = l.server.log ++ actions ∧ handedTo fd actions =
        (Framing.frames '\n' ((l.server.client fd).inputBuffer ++ l.bytesFrom fd ks)).1.map
          Client.stripReturn := by
  have hr := reachable_server hl
  obtain ⟨frames, htakes⟩ := run_takes hr hfd hrun hstays
  obtain ⟨actions, hlog, hlines⟩ := htakes.log
  rw [Server.client_disconnectRequested] at hflag
  have hrest := (hl.turns (run_turns hrun).reachable).spent fd hflag
  rw [Server.client_inputBuffer, Server.client_inputBuffer, htakes.input,
    Framing.frames_flatMap_rest htakes.noFeed hrest]
  refine ⟨?_, rfl, actions, hlog, hlines⟩
  exact Bool.eq_false_iff.2 fun hset => Bool.false_ne_true (hflag.symm.trans (htakes.flag hset))

/-- **What a client is sent follows from what everybody sends.**  Take any run of the loop over
which a client stays connected.  The line it had begun and the bytes it sends are its commands
among the inputs, cut and parsed, and what it has begun by then; the core is the machine's after
the inputs; and what the machine says to the client are the bytes it is sent, or will be, after
what was pending before. -/
theorem bytes_to_bytes (hl : l.Reachable) (hfd : l.server.core.Live fd) (hrun : l.run ks = .ok l')
    (hstays : l.server.Stays l'.server fd)
    (hflag : (l'.server.client fd).disconnectRequested = false) :
    ∃ is, inputs l'.server.log = inputs l.server.log ++ is ∧
      l'.server.core = Machine.after Core.respond l.server.core is ∧
      commandsOf fd is = commandsIn ((Framing.frames '\n'
        ((l.server.client fd).inputBuffer ++ l.bytesFrom fd ks)).1.map Client.stripReturn) ∧
      (l'.server.client fd).inputBuffer =
        (Framing.frames '\n' ((l.server.client fd).inputBuffer ++ l.bytesFrom fd ks)).2 ∧
      sentTo l'.server.log fd ++ (l'.server.client fd).outputBuffer =
        sentTo l.server.log fd ++ (l.server.client fd).outputBuffer ++
          (linesOf fd (Machine.said Core.respond l.server.core is)).flatMap Line.bytes := by
  have hr := reachable_server hl
  have hsteps := run_steps hr hrun
  have hr' := hr.run hsteps
  have hopen := hstays.stillOpen hr hfd hsteps
  obtain ⟨hflag₀, hinput, actions, hlog, hlines⟩ := run_lines hl hfd hrun hstays hflag
  obtain ⟨is, his, hcore, hsaid⟩ := hr.follows_run hsteps
  obtain ⟨as, js, has, hjs, hcommands⟩ := hr.parses hsteps
  obtain rfl := List.append_cancel_left (his.symm.trans hjs)
  obtain rfl := List.append_cancel_left (hlog.symm.trans has)
  refine ⟨is, his, hcore, (hcommands fd).trans (congrArg commandsIn hlines), hinput, ?_⟩
  -- what was said to the client meanwhile was said to this connection
  have hnew : .opened fd ∉ Machine.said Core.respond l.server.core is := by
    obtain ⟨bs, hbs, hacc⟩ := hopen.log
    have hutterances := utterances_append l.server.log bs
    rw [← hbs] at hutterances
    rw [List.append_cancel_left (hsaid.symm.trans hutterances)]
    intro hmem
    obtain ⟨a, ha, hutterance⟩ := List.mem_filterMap.1 hmem
    cases a <;> cases hutterance
    exact hacc ha
  have hstream : stream l'.server.log fd =
      stream l.server.log fd ++ linesOf fd (Machine.said Core.respond l.server.core is) := by
    rw [Server.client_disconnectRequested] at hflag
    have hbefore : stream l.server.log fd = transcript (utterances l.server.log) fd :=
      (hr.heeds hfd).complete hflag₀
    have hafter : stream l'.server.log fd = transcript (utterances l'.server.log) fd :=
      (hr'.heeds hopen.live).complete hflag
    rw [hafter, hbefore, show utterances l'.server.log = _ from hsaid, transcript_extend _ hnew]
  rw [Server.client_outputBuffer, Server.client_outputBuffer, hr'.conserved hopen.live,
    hr.conserved hfd]
  unfold owed
  rw [hstream, List.flatMap_append]

/-- `bob` sends one line and a part of another. -/
def pingTurns : List Kernel :=
  [{ poll := .ready (only 2) }, ({} : Kernel), ({} : Kernel), { received := some "PING x\r\nPI".toList }] ++
    List.replicate 7 ({} : Kernel)

/-- He sends the rest, and begins a third. -/
def pingRest : List Kernel :=
  [{ poll := .ready (only 2) }, ({} : Kernel), ({} : Kernel), { received := some "NG y\nQ".toList }]

theorem bytes_to_bytes_session :
    ∃ l l' is, session.run pingTurns = .ok l ∧ (l.server.client 5).inputBuffer = "PI".toList ∧
      l.run pingRest = .ok l' ∧ l'.server.core = Machine.after Core.respond l.server.core is ∧
      commandsOf 5 is = [Command.parse "PING y".toList] ∧
      (l'.server.client 5).inputBuffer = "Q".toList ∧
      sentTo l'.server.log 5 ++ (l'.server.client 5).outputBuffer =
        sentTo l.server.log 5 ++ (l.server.client 5).outputBuffer ++
          (linesOf 5 (Machine.said Core.respond l.server.core is)).flatMap Line.bytes := by
  have hfacts : ∃ l ∈ (session.run pingTurns).toOption, (l.server.findClient 5).isSome = true ∧
      (l.server.client 5).inputBuffer = "PI".toList ∧
      commandsIn ((Framing.frames '\n' ((l.server.client 5).inputBuffer ++ l.bytesFrom 5 pingRest)).1.map
        Client.stripReturn) = [Command.parse "PING y".toList] ∧
      (Framing.frames '\n' ((l.server.client 5).inputBuffer ++ l.bytesFrom 5 pingRest)).2 = "Q".toList ∧
      (l.run pingRest).toOption.isSome = true ∧
      ∀ l' ∈ (l.run pingRest).toOption, (l'.server.client 5).disconnectRequested = false ∧
        .removed 5 ∉ l'.server.log.drop l.server.log.length := by
    decide +kernel
  obtain ⟨l, hl, hfound, hstored, hcommands, hrest, hok, hend⟩ := hfacts
  have hrun := run_of_mem hl
  have hreach := session_reachable.turns (run_turns hrun).reachable
  obtain ⟨l', hl', hrun', hstays⟩ := exists_stays hreach hok fun l' hl' => (hend l' hl').2
  obtain ⟨is, -, hcore, htaken, hinput, hsent⟩ := bytes_to_bytes hreach
    ((Server.live_iff _ _).2 hfound) hrun' hstays (hend l' hl').1
  exact ⟨l, l', is, hrun, hstored, hrun', hcore, htaken.trans hcommands, hinput.trans hrest, hsent⟩

end Loop

end FtIrc
