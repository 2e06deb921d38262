import FtIrc.Requests
import FtIrc.System
import FtIrc.Handlers.Mode

/-!
# What a step can do

Every step of the system, seen from the core (`CoreMove`) and from the wire.  Only three
kinds of step touch the core: a connection is accepted, a command has one of its effects,
a client is removed.
-/

namespace FtIrc

open Std

namespace Core

variable (κ : Core) (fd : Fd)

def connect : Core :=
  { κ with identities := fun x => if fd = x then some {} else κ.identities x }

/-- `removeClient`: out of every channel, the index and the clients. -/
def disconnect : Core where
  listenerFd := κ.listenerFd
  password := κ.password
  identities x := if fd = x then none else κ.identities x
  nicknameIndex :=
    if !(κ.who fd).nickname.isEmpty &&
        κ.nicknameIndex[ircCaseFold (κ.who fd).nickname]? == some fd then
      κ.nicknameIndex.erase (ircCaseFold (κ.who fd).nickname)
    else κ.nicknameIndex
  channels := κ.channels.filterMap fun _ => Server.purgeChannel fd (κ.who fd).nickname

end Core

namespace Wire

variable (w : Wire) (fd : Fd)

def connect : Wire where
  ports x := if fd = x then some {} else w.ports x
  pollFds := w.pollFds ++ [{ fd := fd, events := { pollin := true } }]
  log := w.log ++ [.accepted fd]

def disconnect (pollFds : List PollFd) : Wire where
  ports x := if fd = x then none else w.ports x
  pollFds := pollFds
  log := w.log ++ [.removed fd]

/-- The reason `cleanupClientIrcState` announces. -/
def quitReason : Text :=
  if (w.port fd).disconnectReason.isEmpty then "Connection closed".toList
  else (w.port fd).disconnectReason

end Wire

theorem Wire.port_disconnect_of_ne (w : Wire) {fd x : Fd} (hx : fd ≠ x) (pollFds : List PollFd) :
    (w.disconnect fd pollFds).port x = w.port x := by
  unfold port disconnect
  dsimp only
  rw [if_neg hx]

/-- An entry of the history that queues nothing and changes no connection. -/
def Action.isQuiet : Action → Bool
  | .disconnectRequested .. => true
  | .completeLine .. => true
  | .sent .. => true
  | _ => false

/-- From `w` to `w'` no line is queued, and no disconnect request is taken back. -/
structure Wire.Quiet (w w' : Wire) : Prop where
  live : ∀ fd, (w'.ports fd).isSome = (w.ports fd).isSome
  flag : ∀ fd, (w.port fd).disconnectRequested = true → (w'.port fd).disconnectRequested = true
  log : ∃ actions, w'.log = w.log ++ actions ∧ ∀ a ∈ actions, a.isQuiet = true
  marked : w.Marked → w'.Marked

namespace Wire

variable {w w' w'' : Wire}

namespace Quiet

theorem refl (w : Wire) : w.Quiet w := ⟨fun _ => rfl, fun _ h => h, ⟨[], by simp, by simp⟩, id⟩

theorem trans (h : w.Quiet w') (h' : w'.Quiet w'') : w.Quiet w'' := by
  obtain ⟨as, has, hq⟩ := h.log
  obtain ⟨bs, hbs, hq'⟩ := h'.log
  refine ⟨fun fd => (h'.live fd).trans (h.live fd), fun fd hf => h'.flag fd (h.flag fd hf),
    ⟨as ++ bs, by rw [hbs, has, List.append_assoc], ?_⟩, fun hm => h'.marked (h.marked hm)⟩
  intro a ha
  rcases List.mem_append.1 ha with ha | ha
  · exact hq a ha
  · exact hq' a ha

theorem pollFds (w : Wire) (pollFds : List PollFd) : w.Quiet { w with pollFds := pollFds } :=
  ⟨fun _ => rfl, fun _ h => h, ⟨[], by simp, by simp⟩, id⟩

theorem record (w : Wire) {a : Action} (ha : a.isQuiet = true)
    (hreq : ∀ fd reason, a ≠ .disconnectRequested fd reason) : w.Quiet (w.record a) :=
  ⟨fun _ => rfl, fun _ h => h, ⟨[a], rfl, by simp [ha]⟩,
    fun hm => hm.record hreq (by rintro fd rfl; cases ha)⟩

theorem modify (w : Wire) (fd : Fd) {f : Port → Port}
    (hf : ∀ p, (f p).disconnectRequested = p.disconnectRequested) : w.Quiet (w.modify fd f) :=
  ⟨fun x => isSome_modify fd x f, fun _ h => flag_modify (fun p hp => by rw [hf, hp]) h,
    ⟨[], by simp [Wire.modify], by simp⟩, fun hm => hm.modify fd hf⟩

theorem requestDisconnect (w : Wire) (fd : Fd) (reason : Text) :
    w.Quiet (w.requestDisconnect fd reason) :=
  ⟨fun x => isSome_modify (w := w) fd x _, fun _ h => flag_modify (w := w) (fun _ _ => rfl) h,
    ⟨[_], rfl, by simp [Action.isQuiet]⟩, fun hm => hm.requestDisconnect fd reason⟩

end Quiet

end Wire

namespace Server

variable {s s' : Server} {fd : Fd}

/-! ## Accepting -/

theorem acceptClient_spec {result : AcceptResult} (h : s.acceptClient result = .ok s') :
    s' = s ∨ ∃ fd, result = .connected fd ∧ ¬ s.core.Live fd ∧
      (∀ p ∈ s.pollFds, p.fd ≠ fd) ∧ s'.core = s.core.connect fd ∧ s'.wire = s.wire.connect fd := by
  cases result with
  | failed => cases h; exact Or.inl rfl
  | blocking fd => cases h
  | connected fd =>
    right
    simp only [acceptClient] at h
    split at h
    · cases h
    next hnot =>
    unfold addPollFd at h
    split at h
    · cases h
    next hfds =>
    cases h
    refine ⟨fd, rfl, ?_, ?_, ?_, ?_⟩
    · rw [live_iff]
      intro hlive
      exact hnot (by rw [ExtTreeMap.contains_eq_isSome_getElem?]; exact hlive)
    · intro p hp he
      exact hfds (List.any_eq_true.2 ⟨p, hp, by simpa using he⟩)
    · unfold core Core.connect
      congr 1
      funext x
      simp only [record, ExtTreeMap.getElem?_insert, Std.compare_eq_iff_eq]
      split <;> rfl
    · unfold wire Wire.connect
      congr 1
      funext x
      simp only [record, ExtTreeMap.getElem?_insert, Std.compare_eq_iff_eq]
      split <;> rfl

/-! ## Handling a line -/

theorem handleCompleteLine_spec (hlive : s.core.MembersLive) (hfd : s.core.Live fd) (line : Text) :
    ((Command.parse line).valid = false ∧ (s.handleCompleteLine fd line).core = s.core ∧
      (s.handleCompleteLine fd line).wire = s.wire.record (.completeLine fd line)) ∨
    ((Command.parse line).valid = true ∧ ∃ signals,
      Effect s.core fd (Command.parse line) (s.handleCompleteLine fd line).core signals ∧
      (s.handleCompleteLine fd line).wire = ((s.wire.record (.completeLine fd line)).record
        (.dispatched fd (Command.parse line))).deliver signals) := by
  unfold handleCompleteLine
  cases hvalid : (Command.parse line).valid with
  | false => exact Or.inl ⟨rfl, by simp [hvalid], by simp [hvalid]⟩
  | true =>
    obtain ⟨signals, heffect, hwire⟩ := dispatchCommand_effect
      ((s.record (.completeLine fd line)).record (.dispatched fd (Command.parse line))) fd
      (Command.parse line) hlive hfd
    refine Or.inr ⟨rfl, signals, ?_, ?_⟩
    · simpa [hvalid] using heffect
    · simpa [hvalid] using hwire

/-! ## Reading and writing buffers -/

theorem modifyClient_congr {f g : Client → Client}
    (h : ∀ c, s.findClient fd = some c → f c = g c) : s.modifyClient fd f = s.modifyClient fd g := by
  unfold modifyClient
  congr 1
  apply ExtTreeMap.ext_getElem?
  intro x
  simp only [ExtTreeMap.getElem?_modify, Std.compare_eq_iff_eq]
  split
  · next hx =>
    subst hx
    cases hc : s.clients[fd]? with
    | none => rfl
    | some c => exact congrArg some (h c hc)
  · rfl

theorem popLine_spec {c c' : Client} {line : Text} (h : c.popLine = some (line, c')) :
    c' = { c with inputBuffer := c'.inputBuffer } := by
  unfold Client.popLine at h
  split at h
  · cases h
  · cases h
    rfl

theorem modifyClient_popped {c' : Client} {line : Text}
    (h : (s.findClient fd).bind Client.popLine = some (line, c')) :
    s.modifyClient fd (fun _ => c') =
      s.modifyClient fd fun c => { c with inputBuffer := c'.inputBuffer } := by
  obtain ⟨c, hc, hpop⟩ := Option.bind_eq_some_iff.1 h
  apply modifyClient_congr
  intro c₁ hc₁
  rw [hc] at hc₁
  cases hc₁
  exact popLine_spec hpop

/-- A step that moves bytes only. -/
theorem quiet_modifyClient (s : Server) (fd : Fd) {f : Client → Client} {g : Port → Port}
    (hid : ∀ c, (f c).identity = c.identity) (hport : ∀ c, (f c).port = g c.port)
    (hflag : ∀ p, (g p).disconnectRequested = p.disconnectRequested) :
    (s.modifyClient fd f).core = s.core ∧ s.wire.Quiet (s.modifyClient fd f).wire := by
  refine ⟨core_modifyClient_port s fd hid, ?_⟩
  rw [wire_modifyClient s fd hport]
  exact Wire.Quiet.modify s.wire fd hflag

theorem quiet_requestDisconnect (reason : Text) :
    (s.requestDisconnect fd reason).core = s.core ∧
      s.wire.Quiet (s.requestDisconnect fd reason).wire := by
  refine ⟨core_requestDisconnect _ _ _, ?_⟩
  rw [wire_requestDisconnect]
  exact Wire.Quiet.requestDisconnect s.wire fd reason

theorem quiet_flushClientOutput (index : Nat) (sent : Option Nat) :
    (s.flushClientOutput index sent).1.core = s.core ∧
      s.wire.Quiet (s.flushClientOutput index sent).1.wire := by
  unfold flushClientOutput
  split
  · exact ⟨rfl, .refl _⟩
  next p _ =>
  split
  · exact ⟨rfl, .refl _⟩
  next client _ =>
  split
  · exact ⟨rfl, .pollFds _ _⟩
  split
  · exact quiet_requestDisconnect _
  · exact quiet_requestDisconnect _
  · next length _ =>
    have hconsume := quiet_modifyClient s p.fd (f := (·.consumeOutput length))
      (g := fun q => { q with outputBuffer :=
        if length ≥ q.outputBuffer.length then [] else q.outputBuffer.drop length })
      (fun c => by unfold Client.consumeOutput; split <;> rfl)
      (fun c => by unfold Client.consumeOutput Client.port; dsimp only; split <;> rfl)
      (fun q => rfl)
    have hsent : s.wire.Quiet ((s.modifyClient p.fd (·.consumeOutput length)).wire.record
        (.sent p.fd (client.outputBuffer.take length))) := hconsume.2.trans (.record _ rfl nofun)
    dsimp only
    split
    · exact ⟨hconsume.1, hsent⟩
    · exact ⟨hconsume.1, hsent.trans (.pollFds _ _)⟩

/-! ## Removing -/

/-- Who reads the QUIT line of the client on `fd`. -/
def QuitRecipients (κ : Core) (fd : Fd) (recipients : List Fd) : Prop :=
  recipients.Nodup ∧
    ∀ m, m ∈ recipients ↔ (κ.who fd).registered = true ∧ κ.Peers fd m ∧ m ≠ fd

/-- What they read. -/
def quitLine (s : Server) (fd : Fd) : Line :=
  .relay (s.core.who fd).source (.quit (s.wire.quitReason fd))

theorem announceQuit_spec (fd : Fd) (hlive : s.core.MembersLive) :
    (s.announceQuit fd).core = s.core ∧ ∃ recipients, QuitRecipients s.core fd recipients ∧
      (s.announceQuit fd).wire = s.wire.deliver (toAll recipients (s.quitLine fd)) := by
  unfold announceQuit quitLine
  dsimp only
  rw [client_registered, client_source, client_disconnectReason]
  split
  · next hreg =>
    refine ⟨core_queueAll _ _ _, (s.quitRecipients fd).toList, ⟨nodup_toList _, ?_⟩, ?_⟩
    · intro m
      rw [ExtTreeSet.mem_toList, mem_quitRecipients]
      simp [hreg]
    · apply wire_queueAll
      intro m hm
      rw [ExtTreeSet.mem_toList, mem_quitRecipients] at hm
      exact live_of_peers s fd hlive hm.1
  · next hreg =>
    exact ⟨rfl, [], ⟨List.nodup_nil, fun m => by simp [hreg]⟩, rfl⟩

theorem cleanup_spec (fd : Fd) (hlive : s.core.MembersLive) :
    (s.cleanupClientIrcState fd).core =
      { s.core.disconnect fd with identities := s.core.identities } ∧
    ∃ recipients, QuitRecipients s.core fd recipients ∧
      (s.cleanupClientIrcState fd).wire = s.wire.deliver (toAll recipients (s.quitLine fd)) := by
  obtain ⟨hcore, recipients, hrec, hwire⟩ := announceQuit_spec fd hlive
  have hindex : (s.announceQuit fd).nicknameIndex = s.core.nicknameIndex :=
    congrArg Core.nicknameIndex hcore
  unfold cleanupClientIrcState Core.disconnect
  dsimp only
  rw [client_nickname, hindex, ← hcore]
  refine ⟨?_, recipients, by rw [hcore]; exact hrec, ?_⟩
  · split <;> rfl
  · rw [hcore, ← hwire]
    split <;> rfl

theorem removeClient_spec {index : Nat} {p : PollFd} (hp : s.pollFds[index]? = some p)
    (hlive : s.core.MembersLive) :
    (¬ s.core.Live p.fd ∧ (s.removeClient index).core = s.core ∧
      (s.removeClient index).wire = { s.wire with pollFds := s.pollFds.eraseIdx index }) ∨
    (s.core.Live p.fd ∧ (s.removeClient index).core = s.core.disconnect p.fd ∧
      ∃ recipients, QuitRecipients s.core p.fd recipients ∧
        (s.removeClient index).wire =
          (s.wire.deliver (toAll recipients (s.quitLine p.fd))).disconnect p.fd
            ((s.wire.deliver (toAll recipients (s.quitLine p.fd))).pollFds.eraseIdx index)) := by
  unfold removeClient
  rw [hp]
  dsimp only
  cases hc : s.clients[p.fd]? with
  | none =>
    left
    refine ⟨?_, rfl, rfl⟩
    rw [live_iff, findClient, hc]
    exact Bool.false_ne_true
  | some c =>
    right
    obtain ⟨hcore, recipients, hrec, hwire⟩ := cleanup_spec p.fd hlive
    refine ⟨?_, ?_, recipients, hrec, ?_⟩
    · rw [live_iff, findClient, hc]
      rfl
    · have h := congrArg (fun κ : Core =>
        { κ with identities := fun x => if p.fd = x then none else κ.identities x }) hcore
      refine Eq.trans ?_ h
      unfold core
      dsimp only [record]
      congr 1
      funext x
      simp only [ExtTreeMap.getElem?_erase, Std.compare_eq_iff_eq]
      split <;> rfl
    · rw [← hwire]
      unfold wire Wire.disconnect
      dsimp only [record]
      congr 1
      funext x
      simp only [ExtTreeMap.getElem?_erase, Std.compare_eq_iff_eq]
      split <;> rfl

/-! ## Every step -/

/-- What a step does.  Only three kinds of step touch the core. -/
inductive Move (s : Server) : Event → Server → Prop
  | quiet {e : Event} {s' : Server} : s'.core = s.core → s.wire.Quiet s'.wire → Move s e s'
  | connect {fd : Fd} {s' : Server} : ¬ s.core.Live fd → s'.core = s.core.connect fd →
      s'.wire = s.wire.connect fd → Move s (.accept (.connected fd)) s'
  | command {fd : Fd} {line : Text} {s' : Server} (signals : List Signal) : s.core.Live fd →
      (Command.parse line).valid = true →
      Effect s.core fd (Command.parse line) s'.core signals →
      s'.wire = ((s.wire.record (.completeLine fd line)).record
        (.dispatched fd (Command.parse line))).deliver signals →
      Move s (.line fd line) s'
  | disconnect {index : Nat} {p : PollFd} {s' : Server} (recipients : List Fd)
      (pollFds : List PollFd) : s.pollFds[index]? = some p → s.core.Live p.fd →
      s'.core = s.core.disconnect p.fd → QuitRecipients s.core p.fd recipients →
      s'.wire = (s.wire.deliver (toAll recipients (s.quitLine p.fd))).disconnect p.fd pollFds →
      Move s (.remove index) s'

/-- **Every step is one of the listed moves.** -/
theorem Step.move {e : Event} (h : s.Step e s') (hlive : s.core.MembersLive) : s.Move e s' := by
  unfold Step step at h
  cases e with
  | poll revents =>
    cases h
    exact .quiet rfl (.pollFds _ _)
  | accept result =>
    dsimp only at h
    cases hok : s.acceptClient result with
    | error e => rw [hok] at h; cases h
    | ok s₁ =>
      rw [hok] at h
      cases h
      rcases acceptClient_spec hok with rfl | ⟨fd, rfl, hnot, -, hcore, hwire⟩
      · exact .quiet rfl (.refl _)
      · exact .connect hnot hcore hwire
  | receive fd data =>
    obtain ⟨c, -, rfl⟩ := Option.map_eq_some_iff.1 h
    have hq := quiet_modifyClient s fd (f := (·.appendInput data))
      (g := fun p => { p with inputBuffer := p.inputBuffer ++ data })
      (fun _ => rfl) (fun _ => rfl) (fun _ => rfl)
    exact .quiet hq.1 hq.2
  | pop fd =>
    obtain ⟨⟨line, c'⟩, hpop, rfl⟩ := Option.map_eq_some_iff.1 h
    have hq := quiet_modifyClient s fd
      (f := fun c => { c with inputBuffer := c'.inputBuffer })
      (g := fun p => { p with inputBuffer := c'.inputBuffer })
      (fun _ => rfl) (fun _ => rfl) (fun _ => rfl)
    rw [← modifyClient_popped hpop] at hq
    exact .quiet hq.1 hq.2
  | line fd line =>
    dsimp only at h
    split at h
    · next hfd =>
      cases h
      have hfd := (live_iff s fd).2 hfd.1
      rcases handleCompleteLine_spec hlive hfd line with ⟨-, hcore, hwire⟩ | ⟨hvalid, signals, heffect, hwire⟩
      · refine .quiet hcore ?_
        rw [hwire]
        exact Wire.Quiet.record _ rfl nofun
      · exact .command signals hfd hvalid heffect hwire
    · cases h
  | flush index sent =>
    dsimp only at h
    split at h
    · cases h
      exact .quiet (quiet_flushClientOutput _ _).1 (quiet_flushClientOutput _ _).2
    · cases h
  | remove index =>
    dsimp only at h
    split at h
    · next hindex =>
      cases h
      obtain ⟨p, hp, -⟩ := (Option.any_eq_true _ _).1 hindex
      rcases removeClient_spec hp hlive with ⟨-, hcore, hwire⟩ | ⟨hfd, hcore, recipients, hrec, hwire⟩
      · refine .quiet hcore ?_
        rw [hwire]
        exact .pollFds _ _
      · exact .disconnect recipients _ hp hfd hcore hrec hwire
    · cases h

end Server

end FtIrc
