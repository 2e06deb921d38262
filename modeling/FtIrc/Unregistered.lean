import FtIrc.Authority

/-!
# What reaches a client that has not registered

A client takes part in the nickname lookup as soon as it has a nickname, so a message or an
invitation by nickname reaches it before it has given the password.  Nothing else does.
-/

namespace FtIrc

open Std

namespace Wire

variable (w : Wire) {m : Fd}

/-- One line is appended, or nothing is. -/
theorem output_queueLine (hlive : (w.ports m).isSome) (line : Line) :
    ((w.queueLine m line).port m).outputBuffer = (w.port m).outputBuffer ∨
      ((w.queueLine m line).port m).outputBuffer = (w.port m).outputBuffer ++ line.bytes := by
  unfold queueLine
  split
  · exact Or.inl rfl
  split
  · right
    exact congrArg Port.outputBuffer (port_modify_self (w := w) (f := fun p =>
      { p with outputBuffer := p.outputBuffer ++ line.bytes }) hlive)
  · left
    show ((w.modify m _).port m).outputBuffer = _
    rw [port_modify_self hlive]

end Wire

/-! ## Who a command writes to -/

namespace Core

variable {κ : Core} {A : Fd}

/-- The client of the line, or a registered one. -/
def Expected (κ : Core) (A : Fd) (x : Fd) : Prop := x = A ∨ (κ.who x).registered = true

theorem expected_members {key : Text} {c : Channel} (hc : κ.ChannelOk key c) {line : Line}
    {x : Signal} (h : x ∈ toAll c.members.keys line) : κ.Expected A x.fd :=
  Or.inr (hc.members _ (ExtTreeMap.mem_keys.1 (fd_toAll h)))

theorem expected_welcome {x : Signal} (h : x ∈ κ.welcome A) : x.fd = A := by
  unfold welcome at h
  split at h
  · simp only [List.mem_cons, List.not_mem_nil, or_false] at h
    rcases h with rfl | rfl <;> rfl
  · cases h

theorem expected_join {c : Channel} (hc : ∀ m ∈ c.members, κ.Expected A m) {x : Signal}
    (h : x ∈ κ.joinSignals A c) : κ.Expected A x.fd := by
  rcases List.mem_append.1 h with h | h
  · exact hc _ (ExtTreeMap.mem_keys.1 (fd_toAll h))
  · left
    simp only [joinReplies, List.mem_cons, List.not_mem_nil, or_false] at h
    rcases h with rfl | rfl | rfl <;> rfl

end Core

theorem ModeRun.expected {κ κ' : Core} {A : Fd} {key : Text} {changes : List ModeChange}
    {signals : List Signal} (h : ModeRun A key κ changes κ' signals) (hok : κ.Ok) :
    ∀ x ∈ signals, κ.Expected A x.fd := by
  induction h with
  | nil => nofun
  | refused line _ _ ih =>
    intro x hx
    rcases List.mem_cons.1 hx with rfl | hx
    · exact Or.inl rfl
    · exact ih hok x hx
  | unchanged _ ih => exact ih hok
  | applied hc hmode _ ih =>
    intro x hx
    have hc' := (hok.channel _ _ hc).mode hmode
    rcases List.mem_append.1 hx with hx | hx
    · exact Core.expected_members hc' hx
    · exact ih (hok.setChannel hc') x hx

/-- A command addresses `relay` to the client on `B`, by its nickname. -/
inductive Addressed (κ : Core) (A : Fd) (command : Command) (B : Fd) : Relay → Prop
  | privmsg (targetName text : Text) (rest : List Text) :
      command.name = "PRIVMSG".toList → command.parameters = targetName :: text :: rest →
      (κ.who A).registered = true → Server.isChannelTarget targetName = false →
      κ.holder targetName = some B →
      Addressed κ A command B (.privmsg (κ.who B).nickname text)
  | invite (targetNick channelName : Text) (rest : List Text) (c : Channel) :
      command.name = "INVITE".toList → command.parameters = targetNick :: channelName :: rest →
      (κ.who A).registered = true → κ.holder targetNick = some B →
      κ.channels[ircCaseFold channelName]? = some c → c.isMemberOperator A = true →
      B ∉ c.members → Addressed κ A command B (.invite targetNick channelName)

/-- What a command asks of the wire is for its own client or for registered ones, but for
one line that may be addressed to a client by nickname. -/
theorem Effect.expected {κ κ' : Core} {A : Fd} {command : Command} {signals : List Signal}
    (he : Effect κ A command κ' signals) (hok : κ.Ok) :
    (∀ x ∈ signals, κ.Expected A x.fd) ∨
    ∃ before B relay, Addressed κ A command B relay ∧ (∀ x ∈ before, x.fd = A) ∧
      signals = before ++ [.line B (.relay (κ.who A).source relay)] := by
  cases he with
  | silent => exact Or.inl nofun
  | reply line =>
    left
    intro x hx
    cases List.mem_singleton.1 hx
    exact Or.inl rfl
  | quit =>
    left
    intro x hx
    cases List.mem_singleton.1 hx
    exact Or.inl rfl
  | pass => exact Or.inl fun x hx => Or.inl (Core.expected_welcome hx)
  | user => exact Or.inl fun x hx => Or.inl (Core.expected_welcome hx)
  | nick _ _ recipients _ _ _ _ _ _ hrec =>
    left
    intro x hx
    rcases List.mem_append.1 hx with hx | hx
    · rcases ((hrec _).1 (fd_toAll hx)).2.2 with hA | ⟨key, c, hc, -, hm⟩
      · exact Or.inl hA
      · exact Or.inr ((hok.channel key c hc).members _ hm)
    · exact Or.inl (Core.expected_welcome hx)
  | create channelName =>
    left
    intro x hx
    refine Core.expected_join (fun m hm => ?_) hx
    rcases Server.mem_addMember hm with rfl | hm
    · exact Or.inl rfl
    · exact absurd hm ExtTreeMap.not_mem_empty
  | join _ _ c _ _ _ _ hc =>
    left
    intro x hx
    refine Core.expected_join (fun m hm => ?_) hx
    rcases Server.mem_addMember hm with rfl | hm
    · exact Or.inl rfl
    · exact Or.inr ((hok.channel _ c hc).members m hm)
  | privmsgChannel _ _ _ c _ _ _ _ hc =>
    left
    intro x hx
    exact Or.inr ((hok.channel _ c hc).members _
      (ExtTreeMap.mem_keys.1 (List.mem_of_mem_filter (fd_toAll hx))))
  | privmsgUser targetName text rest target hname hparams hreg htarget hholder =>
    exact Or.inr ⟨[], target, _, .privmsg targetName text rest hname hparams hreg htarget hholder,
      nofun, rfl⟩
  | topic _ _ _ c _ _ _ hc =>
    left
    intro x hx
    exact Or.inr ((hok.channel _ c hc).members _ (ExtTreeMap.mem_keys.1 (fd_toAll hx)))
  | kick _ _ _ c _ _ _ _ hc => exact Or.inl fun x hx => Core.expected_members (hok.channel _ c hc) hx
  | invite targetNick channelName rest c target hname hparams hreg hholder hc hop hmem =>
    refine Or.inr ⟨[.line A _], target, _, .invite targetNick channelName rest c hname hparams hreg
      hholder hc hop ?_, ?_, rfl⟩
    · intro hm
      rw [(Server.hasMember_iff c target).2 hm] at hmem
      cases hmem
    · intro x hx
      cases List.mem_singleton.1 hx
      rfl
  | mode _ _ _ _ _ _ _ _ _ _ _ _ hrun => exact Or.inl (hrun.expected hok)

/-! ## Clients that have not registered -/

namespace Server

variable {s s' : Server} {A B : Fd} {line : Text}

/-- The queue of `B` is left alone, or the command is addressed to `B`. -/
theorem unregistered_port (h : Reachable s) (hs : s.Step (.line A line) s') (hne : A ≠ B)
    (hB : s.core.Live B) (hreg : (s.core.who B).registered = false) :
    s'.wire.port B = s.wire.port B ∨
      ∃ relay, (Command.parse line).valid = true ∧ Addressed s.core A (Command.parse line) B relay ∧
        ((s'.wire.port B).outputBuffer = (s.wire.port B).outputBuffer ∨
          (s'.wire.port B).outputBuffer = (s.wire.port B).outputBuffer ++
            (Line.relay (s.core.who A).source relay).bytes) := by
  have hunexpected {x : Signal} (hx : s.core.Expected A x.fd) : x.fd ≠ B := by
    rintro rfl
    rcases hx with hx | hx
    · exact hne hx.symm
    · rw [hreg] at hx
      cases hx
  unfold Step step at hs
  dsimp only at hs
  split at hs
  swap
  · cases hs
  next hA =>
  cases hs
  have hlive := (live_iff s A).2 hA.1
  rcases handleCompleteLine_spec h.ok.membersLive hlive line with
    ⟨-, -, hwire⟩ | ⟨hvalid, signals, heffect, hwire⟩
  · exact Or.inl (by rw [hwire]; rfl)
  rcases heffect.expected h.ok with hexp | ⟨before, target, relay, haddr, hbefore, rfl⟩
  · left
    rw [hwire, Wire.port_deliver_of_ne _ fun x hx => hunexpected (hexp x hx)]
    rfl
  rw [Wire.deliver_append] at hwire
  have hport : ((((s.wire.record (.completeLine A line)).record
      (.dispatched A (Command.parse line))).deliver before).port B) = s.wire.port B := by
    rw [Wire.port_deliver_of_ne _ fun x hx => hunexpected (Or.inl (hbefore x hx))]
    rfl
  by_cases htarget : target = B
  · subst htarget
    refine Or.inr ⟨relay, hvalid, haddr, ?_⟩
    have hsome : ((((s.wire.record (.completeLine A line)).record
        (.dispatched A (Command.parse line))).deliver before).ports target).isSome := by
      rw [Wire.isSome_deliver]
      exact (isSome_ports s target).2 hB
    rw [hwire, Wire.deliver_cons, Wire.deliver_nil, Wire.signal_line, ← hport]
    exact Wire.output_queueLine _ hsome (.relay (s.core.who A).source relay)
  · left
    rw [hwire, Wire.port_deliver_of_ne, hport]
    intro x hx
    cases List.mem_singleton.1 hx
    exact htarget

/-- **Nothing unsolicited reaches a client that has not registered, but a message or an
invitation to its nickname.** -/
theorem unregistered_output (h : Reachable s) (hs : s.Step (.line A line) s') (hne : A ≠ B)
    (hB : B ∈ s.clients) (hreg : (s.client B).registered = false) :
    ((∀ relay, (Command.parse line).valid = true →
        ¬ Addressed s.core A (Command.parse line) B relay) →
      (s'.client B).outputBuffer = (s.client B).outputBuffer) ∧
    ((s'.client B).outputBuffer = (s.client B).outputBuffer ∨
      ∃ relay, (Command.parse line).valid = true ∧
        Addressed s.core A (Command.parse line) B relay ∧
        (s'.client B).outputBuffer = (s.client B).outputBuffer ++
          (Line.relay (s.client A).source relay).bytes) := by
  rw [client_registered] at hreg
  simp only [client_outputBuffer, client_source]
  rcases unregistered_port h hs hne (live_iff_mem.2 hB) hreg with heq | ⟨relay, hvalid, haddr, hout⟩
  · rw [heq]
    exact ⟨fun _ => rfl, Or.inl rfl⟩
  · refine ⟨fun hnone => absurd haddr (hnone relay hvalid), ?_⟩
    rcases hout with heq | heq
    · exact Or.inl heq
    · exact Or.inr ⟨relay, hvalid, haddr, heq⟩

/-- `eve` on 6 has given no password. -/
theorem unregistered_output_session :
    ∃ s', session.Step (.line 4 "TOPIC #c :hello".toList) s' ∧
      (s'.client 6).outputBuffer = (session.client 6).outputBuffer := by
  have hsession : (session.step (.line 4 "TOPIC #c :hello".toList)).isSome = true ∧
      6 ∈ session.clients ∧ (session.client 6).registered = false := by decide +kernel
  obtain ⟨hstep, hmem, hreg⟩ := hsession
  obtain ⟨s', hs⟩ := Option.isSome_iff_exists.1 hstep
  refine ⟨s', hs, (unregistered_output session_reachable hs (by decide) hmem hreg).1 ?_⟩
  rintro relay - (⟨_, _, _, hname⟩ | ⟨_, _, _, _, hname⟩)
  · exact absurd hname (by decide)
  · exact absurd hname (by decide)

/-- A message to a nickname reaches a client that has given no password. -/
theorem unregistered_output_message :
    ¬ ∀ (s s' : Server) (A B : Fd) (line : Text), Reachable s → s.Step (.line A line) s' → A ≠ B →
      B ∈ s.clients → (s.client B).registered = false →
      (s'.client B).outputBuffer = (s.client B).outputBuffer := by
  intro hall
  have hmessage : (session.step (.line 4 "PRIVMSG eve :hi".toList)).any (fun s' =>
        (s'.client 6).outputBuffer != (session.client 6).outputBuffer) = true ∧
      6 ∈ session.clients ∧ (session.client 6).registered = false := by decide +kernel
  obtain ⟨hstep, hmem, hreg⟩ := hmessage
  obtain ⟨s', hs, hdiff⟩ := (Option.any_eq_true _ _).1 hstep
  rw [hall session s' 4 6 _ session_reachable hs (by decide) hmem hreg] at hdiff
  simp at hdiff

end Server

end FtIrc
