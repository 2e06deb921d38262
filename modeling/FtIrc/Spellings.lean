import FtIrc.Admission
import FtIrc.Grammar
import FtIrc.Lib.Patchwork

/-!
# The spelling of names

A command that names its channels and clients in another spelling of the same folded names
(`Command.Respelled`) does the same: the cores that two such commands lead to are equal, and
the same lines go to the same clients in the same order, but for the spelling of the names
they echo (`Line.Respelled`).
-/

namespace FtIrc

open Patchwork

/-! ## Commands -/

namespace Command

/-- The parameter at `i` is the nickname of an `o` change of the mode string. -/
def isOperatorArgument (modes : Text) (i : Nat) : Bool :=
  decide (2 ≤ i) && (((signed modes).filter takesArgument)[i - 2]?).any (·.2 == 'o')

/-- The parameter at `i` is the name of a channel or a client. -/
def isName (command : Command) (i : Nat) : Bool :=
  if command.name ∈ ["PRIVMSG".toList, "TOPIC".toList, "JOIN".toList] then i == 0
  else if command.name ∈ ["KICK".toList, "INVITE".toList] then decide (i < 2)
  else if command.name = "MODE".toList then
    i == 0 || isOperatorArgument (command.parameters[1]?.getD []) i
  else false

example : (List.range 5).map (isName ⟨true, "MODE".toList,
    ["#c".toList, "+k-o+l".toList, "key".toList, "al".toList, "7".toList]⟩) =
    [true, false, false, true, false] := by decide

/-- The second command is the first with its names replaced by others of the same folding. -/
structure Respelled (command command' : Command) : Prop where
  valid : command'.valid = command.valid
  name : command'.name = command.name
  fold : command'.parameters.map ircCaseFold = command.parameters.map ircCaseFold
  other : ∀ i, command.isName i = false → command'.parameters[i]? = command.parameters[i]?

/-- A name of the first command, and how the second spells it. -/
def Spelling (command command' : Command) (p p' : Text) : Prop :=
  ∃ i, command.isName i = true ∧ command.parameters[i]? = some p ∧ command'.parameters[i]? = some p'

namespace Respelled

variable {command command' : Command} (h : command.Respelled command')

include h

theorem fold_eq (p p' : Text) (hp : command.Spelling command' p p') : ircCaseFold p' = ircCaseFold p := by
  obtain ⟨i, -, hget, hget'⟩ := hp
  have hfold := congrArg (·[i]?) h.fold
  simpa only [List.getElem?_map, hget, hget', Option.map_some, Option.some.injEq] using hfold

theorem nil (hp : command.parameters = []) : command'.parameters = [] := by
  have hfold := h.fold
  rw [hp] at hfold
  exact List.map_eq_nil_iff.1 hfold

theorem cons {p : Text} {rest : List Text} (hp : command.parameters = p :: rest)
    (hname : command.isName 0 = true) : ∃ p' rest', command'.parameters = p' :: rest' ∧
      command.Spelling command' p p' ∧ rest'.map ircCaseFold = rest.map ircCaseFold := by
  have hfold := h.fold
  rw [hp, List.map_cons] at hfold
  obtain ⟨p', rest', hp', -, hrest⟩ := List.map_eq_cons_iff.1 hfold
  exact ⟨p', rest', hp', ⟨0, hname, by rw [hp]; rfl, by rw [hp']; rfl⟩, hrest⟩

theorem single {p : Text} (hp : command.parameters = [p]) : ∃ p', command'.parameters = [p'] := by
  have hfold := h.fold
  rw [hp] at hfold
  obtain ⟨p', hp', -⟩ := List.map_eq_singleton_iff.1 hfold
  exact ⟨p', hp'⟩

/-- Behind the names the parameters are the same. -/
theorem drop_eq {k : Nat} (hname : ∀ i, k ≤ i → command.isName i = false) :
    command'.parameters.drop k = command.parameters.drop k := by
  apply List.ext_getElem?
  intro i
  rw [List.getElem?_drop, List.getElem?_drop]
  exact h.other _ (hname _ (Nat.le_add_right k i))

/-- PRIVMSG, TOPIC and JOIN: the first parameter is the only name. -/
theorem first (hname : command.name ∈ ["PRIVMSG".toList, "TOPIC".toList, "JOIN".toList]) {p : Text}
    {rest : List Text} (hp : command.parameters = p :: rest) :
    ∃ p', command'.parameters = p' :: rest ∧ command.Spelling command' p p' := by
  obtain ⟨p', rest', hp', hspelling, -⟩ := h.cons hp (by rw [isName, if_pos hname]; rfl)
  have hdrop := h.drop_eq (k := 1) fun i hi => by
    rw [isName, if_pos hname]
    exact beq_eq_false_iff_ne.2 (by omega)
  rw [hp, hp'] at hdrop
  cases (hdrop : rest' = rest)
  exact ⟨p', hp', hspelling⟩

/-- KICK and INVITE: the first two parameters are the names. -/
theorem second (hname : command.name ∈ ["KICK".toList, "INVITE".toList]) {p q : Text}
    {rest : List Text} (hp : command.parameters = p :: q :: rest) :
    ∃ p' q', command'.parameters = p' :: q' :: rest ∧ command.Spelling command' p p' ∧
      command.Spelling command' q q' := by
  have hnone : command.name ∉ ["PRIVMSG".toList, "TOPIC".toList, "JOIN".toList] := by
    rcases List.mem_pair.1 hname with hname | hname <;> rw [hname] <;> decide
  have hisName (i : Nat) : command.isName i = decide (i < 2) := by
    rw [isName, if_neg hnone, if_pos hname]
  obtain ⟨p', rest', hp', hspelling, hrest⟩ := h.cons hp (hisName 0)
  obtain ⟨q', rest'', rfl, -, -⟩ := List.map_eq_cons_iff.1 hrest
  have hdrop := h.drop_eq (k := 2) fun i hi => by
    rw [hisName]
    exact decide_eq_false (by omega)
  rw [hp, hp'] at hdrop
  cases (hdrop : rest'' = rest)
  exact ⟨p', q', hp', hspelling, 1, hisName 1, by rw [hp]; rfl, by rw [hp']; rfl⟩

end Respelled

end Command

/-! ## Lines -/

theorem length_of_fold {p p' : Text} (h : ircCaseFold p' = ircCaseFold p) : p'.length = p.length := by
  have hlength := congrArg List.length h
  rwa [ircCaseFold, ircCaseFold, List.length_map, List.length_map] at hlength

/-- The same event, but for names that `N` respells. -/
inductive Relay.Respelled (N : Text → Text → Prop) : Relay → Relay → Prop where
  | same (event : Relay) : Respelled N event event
  | privmsg {target target' : Text} (text : Text) : N target target' →
      Respelled N (.privmsg target text) (.privmsg target' text)
  | topic {channel channel' : Text} (topic : Text) : N channel channel' →
      Respelled N (.topic channel topic) (.topic channel' topic)
  | kick {channel channel' nickname nickname' : Text} (reason : Text) : N channel channel' →
      N nickname nickname' → Respelled N (.kick channel nickname reason) (.kick channel' nickname' reason)
  | invite {nickname nickname' channel channel' : Text} : N nickname nickname' → N channel channel' →
      Respelled N (.invite nickname channel) (.invite nickname' channel')
  | operator (channel : Text) (adding : Bool) {nickname nickname' : Text} : N nickname nickname' →
      Respelled N (.mode channel ⟨adding, 'o', true, nickname⟩)
        (.mode channel ⟨adding, 'o', true, nickname'⟩)

/-- The same line, but for the names it echoes. -/
inductive Line.Respelled (N : Text → Text → Prop) : Line → Line → Prop where
  | same (line : Line) : Respelled N line line
  | numeric (code replyTarget : Text) {text text' : Text} : Patched N text text' →
      Respelled N (.numeric code replyTarget (.text text)) (.numeric code replyTarget (.text text'))
  | relay (source : Source) {event event' : Relay} : event.Respelled N event' →
      Respelled N (.relay source event) (.relay source event')

inductive Action.Respelled (N : Text → Text → Prop) : Action → Action → Prop where
  | same (action : Action) : Respelled N action action
  | queued (fd : Fd) (accepted : Bool) {line line' : Line} : line.Respelled N line' →
      Respelled N (.queued fd line accepted) (.queued fd line' accepted)

/-- The same mode change, but for the nickname of an `o`. -/
inductive ModeChange.Respelled (N : Text → Text → Prop) : ModeChange → ModeChange → Prop where
  | same (change : ModeChange) : Respelled N change change
  | operator (adding : Bool) {nickname nickname' : Text} : N nickname nickname' →
      Respelled N ⟨adding, 'o', true, nickname⟩ ⟨adding, 'o', true, nickname'⟩

section

variable {N : Text → Text → Prop}

theorem Relay.Respelled.render {event event' : Relay} (h : event.Respelled N event') :
    Patched N event.render event'.render := by
  cases h with
  | same => exact .refl _ _
  | privmsg text hn => exact (((Patched.of hn).prepend _).extend _).extend _
  | topic text hn => exact (((Patched.of hn).prepend _).extend _).extend _
  | kick reason hc hn =>
    exact ((((((Patched.of hc).prepend _).extend _).append (.of hn)).extend _).extend _)
  | invite hn hc => exact (((Patched.of hn).prepend _).extend _).append (.of hc)
  | operator channel adding hn => exact (((Patched.of hn).prepend " ".toList)).prepend _

theorem Line.Respelled.render {line line' : Line} (h : line.Respelled N line')
    (hN : ∀ p p', N p p' → ircCaseFold p' = ircCaseFold p) : Patched N line.render line'.render := by
  cases h with
  | same => exact .refl _ _
  | @numeric code replyTarget text text' htext =>
    show Patched N (_ ++ if text.isEmpty then [] else _) (_ ++ if text'.isEmpty then [] else _)
    have hlength := htext.length_eq fun p p' hp => length_of_fold (hN p p' hp)
    cases text with
    | nil =>
      rw [List.length_eq_zero_iff.1 hlength]
      exact .refl _ _
    | cons c text =>
      cases text' with
      | nil => cases hlength
      | cons c' text' => exact (htext.prepend " ".toList).prepend _
  | relay source hevent => exact hevent.render.prepend _

end

/-! ## Two wires -/

structure Port.Respelled (N : Text → Text → Prop) (p p' : Port) : Prop where
  outputBuffer : Patched N p.outputBuffer p'.outputBuffer
  inputBuffer : p'.inputBuffer = p.inputBuffer
  disconnectRequested : p'.disconnectRequested = p.disconnectRequested
  disconnectReason : p'.disconnectReason = p.disconnectReason

/-- Two wires that have gone the same way since `l` and `l'`, but for the spelling of names. -/
structure Wire.Twin (N : Text → Text → Prop) (l l' : List Action) (w w' : Wire) : Prop where
  ports : ∀ fd, Option.Rel (Port.Respelled N) (w.ports fd) (w'.ports fd)
  pollFds : w'.pollFds = w.pollFds
  log : ∃ as as', w.log = l ++ as ∧ w'.log = l' ++ as' ∧ List.Forall₂ (Action.Respelled N) as as'

section

variable {N : Text → Text → Prop} {l l' : List Action} {w w' : Wire}

theorem Port.Respelled.refl (N : Text → Text → Prop) (p : Port) : p.Respelled N p :=
  ⟨.refl _ _, rfl, rfl, rfl⟩

namespace Wire.Twin

theorem refl (N : Text → Text → Prop) {l l' : List Action} {w w' : Wire} (hports : w'.ports = w.ports)
    (hpollFds : w'.pollFds = w.pollFds) (hl : w.log = l) (hl' : w'.log = l') : Twin N l l' w w' := by
  refine ⟨fun fd => ?_, hpollFds, [], [], by rw [hl, List.append_nil], by rw [hl', List.append_nil], .nil⟩
  rw [hports]
  cases w.ports fd with
  | none => exact .none
  | some p => exact .some (.refl N p)

theorem port (h : Twin N l l' w w') (fd : Fd) : (w.port fd).Respelled N (w'.port fd) := by
  have hport := h.ports fd
  unfold Wire.port
  cases hp : w.ports fd with
  | none =>
    rw [hp] at hport
    cases hp' : w'.ports fd with
    | none => exact .refl _ _
    | some p' => rw [hp'] at hport; cases hport
  | some p =>
    rw [hp] at hport
    cases hp' : w'.ports fd with
    | none => rw [hp'] at hport; cases hport
    | some p' =>
      rw [hp'] at hport
      cases hport with
      | some hport => exact hport

theorem modify (h : Twin N l l' w w') (fd : Fd) {f f' : Port → Port}
    (hf : ∀ p p', p.Respelled N p' → (f p).Respelled N (f' p')) :
    Twin N l l' (w.modify fd f) (w'.modify fd f') := by
  refine ⟨fun x => ?_, h.pollFds, h.log⟩
  have hport := h.ports x
  unfold Wire.modify
  dsimp only
  split
  · generalize w.ports x = o at hport ⊢
    generalize w'.ports x = o' at hport ⊢
    cases hport with
    | none => exact .none
    | some hport => exact .some (hf _ _ hport)
  · exact hport

theorem record (h : Twin N l l' w w') {action action' : Action} (ha : action.Respelled N action') :
    Twin N l l' (w.record action) (w'.record action') := by
  obtain ⟨as, as', hl, hl', has⟩ := h.log
  refine ⟨h.ports, h.pollFds, as ++ [action], as' ++ [action'], ?_, ?_,
    List.rel_append has (.cons ha .nil)⟩
  · rw [← List.append_assoc, ← hl]
    rfl
  · rw [← List.append_assoc, ← hl']
    rfl

theorem requestDisconnect (h : Twin N l l' w w') (fd : Fd) (reason : Text) :
    Twin N l l' (w.requestDisconnect fd reason) (w'.requestDisconnect fd reason) := by
  have hmarked : Twin N l l'
      (w.modify fd fun p => { p with disconnectReason := reason, disconnectRequested := true })
      (w'.modify fd fun p => { p with disconnectReason := reason, disconnectRequested := true }) :=
    h.modify fd fun _ _ hp => ⟨hp.outputBuffer, hp.inputBuffer, rfl, rfl⟩
  exact hmarked.record (.same _)

section

variable (hN : ∀ p p', N p p' → ircCaseFold p' = ircCaseFold p)

include hN

/-- The buffer has room for the one spelling just if it has for the other. -/
theorem queueLine (h : Twin N l l' w w') (fd : Fd)
    {line line' : Line} (hline : line.Respelled N line') :
    Twin N l l' (w.queueLine fd line) (w'.queueLine fd line') := by
  have hbytes : Patched N line.bytes line'.bytes := (hline.render hN).extend _
  have hport := h.port fd
  have hlength (p p' : Text) (hp : N p p') : p'.length = p.length := length_of_fold (hN p p' hp)
  have hfits : (w'.port fd).Fits line'.bytes ↔ (w.port fd).Fits line.bytes := by
    unfold Port.Fits
    rw [hbytes.length_eq hlength, hport.outputBuffer.length_eq hlength]
  unfold Wire.queueLine
  rw [hport.disconnectRequested]
  simp only [hfits, h.pollFds]
  split
  · exact h.record (.queued fd false hline)
  split
  · have hsent : Twin N l l' (w.modify fd fun p => { p with outputBuffer := p.outputBuffer ++ line.bytes })
        (w'.modify fd fun p => { p with outputBuffer := p.outputBuffer ++ line'.bytes }) :=
      h.modify fd fun _ _ hp => ⟨hp.outputBuffer.append hbytes, hp.inputBuffer,
        hp.disconnectRequested, hp.disconnectReason⟩
    have harmed : Twin N l l'
        { w.modify fd fun p => { p with outputBuffer := p.outputBuffer ++ line.bytes } with
          pollFds := Server.armPollout fd w.pollFds }
        { w'.modify fd fun p => { p with outputBuffer := p.outputBuffer ++ line'.bytes } with
          pollFds := Server.armPollout fd w.pollFds } := ⟨hsent.ports, rfl, hsent.log⟩
    exact harmed.record (.queued fd true hline)
  · exact (h.requestDisconnect fd _).record (.queued fd false hline)

theorem deliver_toAll (h : Twin N l l' w w') (fds : List Fd) {line line' : Line}
    (hline : line.Respelled N line') :
    Twin N l l' (w.deliver (toAll fds line)) (w'.deliver (toAll fds line')) := by
  induction fds generalizing w w' with
  | nil => exact h
  | cons fd fds ih => exact ih (h.queueLine hN fd hline)

theorem deliver (h : Twin N l l' w w') (signals : List Signal) :
    Twin N l l' (w.deliver signals) (w'.deliver signals) := by
  induction signals generalizing w w' with
  | nil => exact h
  | cons x signals ih =>
    refine ih ?_
    cases x with
    | line fd line => exact h.queueLine hN fd (.same line)
    | disconnect fd reason => exact h.requestDisconnect fd reason

end

end Wire.Twin

end

/-! ## Two servers -/

namespace Server

/-- Two servers with the same core whose wires have gone the same way. -/
structure Twin (N : Text → Text → Prop) (l l' : List Action) (s s' : Server) : Prop where
  core : s'.core = s.core
  wire : s.wire.Twin N l l' s'.wire

namespace Twin

variable {N : Text → Text → Prop} {l l' : List Action} {s s' : Server}

theorem ite {p : Prop} [Decidable p] {s₁ s₂ s₁' s₂' : Server} (hpos : p → Twin N l l' s₁ s₁')
    (hneg : ¬ p → Twin N l l' s₂ s₂') : Twin N l l' (if p then s₁ else s₂) (if p then s₁' else s₂') := by
  split
  · next h => exact hpos h
  · next h => exact hneg h

theorem setChannel (h : Twin N l l' s s') (key : Text) (c : Channel) :
    Twin N l l' (s.setChannel key c) (s'.setChannel key c) :=
  ⟨by rw [core_setChannel, core_setChannel, h.core], h.wire⟩

theorem removeMember (h : Twin N l l' s s') (key : Text) (c : Channel) (m : Fd) :
    Twin N l l' (s.removeMemberFromChannel key c m) (s'.removeMemberFromChannel key c m) := by
  obtain ⟨hcore, hwire⟩ := s.removeMember_spec key c m
  obtain ⟨hcore', hwire'⟩ := s'.removeMember_spec key c m
  refine ⟨by rw [hcore, hcore', h.core], ?_⟩
  rw [hwire, hwire']
  exact h.wire

/-- What twins have in common. -/
theorem same (h : Twin N l l' s s') :
    s'.core = s.core ∧ s'.pollFds = s.pollFds ∧
    (∃ as as', s.log = l ++ as ∧ s'.log = l' ++ as' ∧ List.Forall₂ (Action.Respelled N) as as') ∧
    ∀ fd, Option.Rel (Port.Respelled N) (s.wire.ports fd) (s'.wire.ports fd) :=
  ⟨h.core, h.wire.pollFds, h.wire.log, h.wire.ports⟩

section

variable (hN : ∀ p p', N p p' → ircCaseFold p' = ircCaseFold p)

include hN

theorem queueLine (h : Twin N l l' s s') (fd : Fd) {line line' : Line} (hline : line.Respelled N line') :
    Twin N l l' (s.queueLine fd line) (s'.queueLine fd line') := by
  refine ⟨by rw [core_queueLine, core_queueLine, h.core], ?_⟩
  rw [wire_queueLine, wire_queueLine]
  exact h.wire.queueLine hN fd hline

theorem sendNumeric (h : Twin N l l' s s') (fd : Fd) (numeric : Text) {text text' : Text}
    (htext : Patched N text text') :
    Twin N l l' (s.sendNumeric fd numeric (.text text)) (s'.sendNumeric fd numeric (.text text')) := by
  refine ⟨by rw [core_sendNumeric, core_sendNumeric, h.core], ?_⟩
  rw [wire_sendNumeric, wire_sendNumeric, h.core]
  exact h.wire.queueLine hN fd (.numeric _ _ htext)

/-- A check that fails with a numeric. -/
theorem refuse (h : Twin N l l' s s') (fd : Fd) {p : Prop} [Decidable p] {numeric text text' : Text}
    (htext : Patched N text text') {t t' : Server} (hpassed : Twin N l l' t t') :
    Twin N l l' (if p then s.sendNumeric fd numeric (.text text) else t)
      (if p then s'.sendNumeric fd numeric (.text text') else t') :=
  .ite (fun _ => h.sendNumeric hN fd numeric htext) fun _ => hpassed

theorem broadcast (h : Twin N l l' s s') {c : Channel} (hlive : ∀ m ∈ c.members, s.core.Live m)
    (excludeFd : Option Fd) {source : Source} {event event' : Relay} (hevent : event.Respelled N event') :
    Twin N l l' (s.broadcastToChannel c (.relay source event) excludeFd)
      (s'.broadcastToChannel c (.relay source event') excludeFd) := by
  refine ⟨by rw [core_broadcastToChannel, core_broadcastToChannel, h.core], ?_⟩
  rw [wire_broadcastToChannel s c _ _ hlive, wire_broadcastToChannel s' c _ _ (h.core ▸ hlive)]
  exact h.wire.deliver_toAll hN _ (.relay source hevent)

theorem announceJoin (h : Twin N l l' s s') (fd : Fd) {c : Channel}
    (hlive : ∀ m ∈ c.members, s.core.Live m) :
    Twin N l l' (s.announceJoin fd c) (s'.announceJoin fd c) := by
  obtain ⟨hcore, hwire⟩ := s.announceJoin_spec fd c hlive
  obtain ⟨hcore', hwire'⟩ := s'.announceJoin_spec fd c (h.core ▸ hlive)
  refine ⟨by rw [hcore, hcore', h.core], ?_⟩
  rw [hwire, hwire', h.core]
  exact h.wire.deliver hN _

end

end Twin

/-! ## Handlers -/

theorem holder_fold {κ : Core} {nickname nickname' : Text}
    (h : ircCaseFold nickname' = ircCaseFold nickname) :
    κ.holder nickname' = κ.holder nickname := by
  unfold Core.holder
  rw [h]

section Handlers

variable {command command' : Command} {l l' : List Action} {s s' : Server}
  (hc : command.Respelled command') (h : Twin (command.Spelling command') l l' s s') (fd : Fd)

include hc h

theorem handlePrivmsg_twin (hlive : s.core.MembersLive) (hname : command.name = "PRIVMSG".toList) :
    Twin (command.Spelling command') l l' (s.handlePrivmsg fd command) (s'.handlePrivmsg fd command') := by
  unfold handlePrivmsg
  simp only [client_registered, client_source, client_nickname, findClientByNickname_eq,
    findChannel_eq, h.core]
  refine h.refuse hc.fold_eq fd (.refl _ _) ?_
  cases hp : command.parameters with
  | nil =>
    rw [hc.nil hp]
    exact h.sendNumeric hc.fold_eq fd _ (.refl _ _)
  | cons target rest =>
    obtain ⟨target', hp', hspelling⟩ := hc.first (by rw [hname]; decide) hp
    have hfold := hc.fold_eq _ _ hspelling
    rw [hp']
    cases rest with
    | nil => exact h.sendNumeric hc.fold_eq fd _ (.refl _ _)
    | cons text rest =>
      dsimp only
      rw [← isChannelTarget_fold target', hfold, isChannelTarget_fold target]
      refine .ite (fun _ => ?_) fun _ => ?_
      · cases hfound : s.core.channels[ircCaseFold target]? with
        | none => exact h.sendNumeric hc.fold_eq fd _ ((Patched.of hspelling).extend _)
        | some c =>
          refine h.refuse hc.fold_eq fd ((Patched.of hspelling).extend _) ?_
          exact h.broadcast hc.fold_eq (hlive _ c hfound) _ (.privmsg text hspelling)
      · rw [holder_fold hfold]
        cases s.core.holder target with
        | none => exact h.sendNumeric hc.fold_eq fd _ ((Patched.of hspelling).extend _)
        | some _ => exact h.queueLine hc.fold_eq _ (.same _)

theorem handleJoin_twin (hlive : s.core.MembersLive) (hfd : s.core.Live fd)
    (hname : command.name = "JOIN".toList)
    (hexists : ∀ channelName ∈ command.parameters.head?, (s.findChannel channelName).isSome) :
    Twin (command.Spelling command') l l' (s.handleJoin fd command) (s'.handleJoin fd command') := by
  unfold handleJoin
  simp only [client_registered, client_nickname, findChannel_eq, h.core]
  refine h.refuse hc.fold_eq fd (.refl _ _) ?_
  cases hp : command.parameters with
  | nil =>
    rw [hc.nil hp]
    exact h.sendNumeric hc.fold_eq fd _ (.refl _ _)
  | cons channelName rest =>
    obtain ⟨channelName', hp', hspelling⟩ := hc.first (by rw [hname]; decide) hp
    have hfold := hc.fold_eq _ _ hspelling
    rw [hp']
    dsimp only
    rw [← isChannelTarget_fold channelName', hfold, isChannelTarget_fold channelName]
    refine h.refuse hc.fold_eq fd ((Patched.of hspelling).extend _) ?_
    rw [hp] at hexists
    cases hfound : s.core.channels[ircCaseFold channelName]? with
    | none =>
      have hsome := hexists channelName rfl
      rw [findChannel_eq, hfound] at hsome
      cases hsome
    | some c =>
      refine .ite (fun _ => h) fun _ => ?_
      refine h.refuse hc.fold_eq fd (.refl _ _) ?_
      refine h.refuse hc.fold_eq fd (.refl _ _) ?_
      refine h.refuse hc.fold_eq fd (.refl _ _) ?_
      refine (h.setChannel _ _).announceJoin hc.fold_eq fd fun m hm => ?_
      rcases mem_addMember hm with rfl | hm
      · exact hfd
      · exact hlive _ c hfound m hm

theorem handleTopic_twin (hlive : s.core.MembersLive) (hname : command.name = "TOPIC".toList) :
    Twin (command.Spelling command') l l' (s.handleTopic fd command) (s'.handleTopic fd command') := by
  unfold handleTopic
  simp only [client_registered, client_source, findChannel_eq, h.core]
  refine h.refuse hc.fold_eq fd (.refl _ _) ?_
  cases hp : command.parameters with
  | nil =>
    rw [hc.nil hp]
    exact h.sendNumeric hc.fold_eq fd _ (.refl _ _)
  | cons channelName rest =>
    obtain ⟨channelName', hp', hspelling⟩ := hc.first (by rw [hname]; decide) hp
    rw [hp']
    dsimp only
    rw [hc.fold_eq _ _ hspelling]
    have hreply (text : Text) :
        Patched (command.Spelling command') (channelName ++ text) (channelName' ++ text) :=
      (Patched.of hspelling).extend text
    cases hfound : s.core.channels[ircCaseFold channelName]? with
    | none => exact h.sendNumeric hc.fold_eq fd _ (hreply _)
    | some c =>
      refine h.refuse hc.fold_eq fd (hreply _) ?_
      cases rest with
      | nil =>
        refine .ite (fun _ => ?_) fun _ => ?_
        · exact h.sendNumeric hc.fold_eq fd _ ((hreply _).extend _)
        · exact h.sendNumeric hc.fold_eq fd _ (hreply _)
      | cons newTopic rest =>
        refine h.refuse hc.fold_eq fd (hreply _) ?_
        exact (h.setChannel _ _).broadcast hc.fold_eq (c := c.setTopic newTopic) (hlive _ c hfound) _
          (.topic newTopic hspelling)

theorem handleKick_twin (hlive : s.core.MembersLive) (hname : command.name = "KICK".toList) :
    Twin (command.Spelling command') l l' (s.handleKick fd command) (s'.handleKick fd command') := by
  unfold handleKick
  simp only [client_registered, client_source, client_nickname, findClientByNickname_eq,
    findChannel_eq, h.core]
  refine h.refuse hc.fold_eq fd (.refl _ _) ?_
  match hp : command.parameters with
  | [] =>
    rw [hc.nil hp]
    exact h.sendNumeric hc.fold_eq fd _ (.refl _ _)
  | [p] =>
    obtain ⟨p', hp'⟩ := hc.single hp
    rw [hp']
    exact h.sendNumeric hc.fold_eq fd _ (.refl _ _)
  | channelName :: targetNick :: rest =>
    obtain ⟨channelName', targetNick', hp', hchannel, htarget⟩ := hc.second (by rw [hname]; decide) hp
    rw [hp']
    dsimp only
    rw [hc.fold_eq _ _ hchannel, holder_fold (hc.fold_eq _ _ htarget)]
    have hreply (text : Text) :
        Patched (command.Spelling command') (channelName ++ text) (channelName' ++ text) :=
      (Patched.of hchannel).extend text
    cases hfound : s.core.channels[ircCaseFold channelName]? with
    | none => exact h.sendNumeric hc.fold_eq fd _ (hreply _)
    | some c =>
      refine h.refuse hc.fold_eq fd (hreply _) ?_
      refine h.refuse hc.fold_eq fd (hreply _) ?_
      cases (s.core.holder targetNick).filter c.hasMember with
      | none =>
        refine h.sendNumeric hc.fold_eq fd _ ?_
        exact (((Patched.of htarget).extend _).append (.of hchannel)).extend _
      | some target =>
        exact (h.broadcast hc.fold_eq (hlive _ c hfound) _ (.kick _ hchannel htarget)).removeMember
          _ c target

theorem handleInvite_twin (hname : command.name = "INVITE".toList) :
    Twin (command.Spelling command') l l' (s.handleInvite fd command) (s'.handleInvite fd command') := by
  unfold handleInvite
  simp only [client_registered, client_source, findClientByNickname_eq, findChannel_eq, h.core]
  refine h.refuse hc.fold_eq fd (.refl _ _) ?_
  match hp : command.parameters with
  | [] =>
    rw [hc.nil hp]
    exact h.sendNumeric hc.fold_eq fd _ (.refl _ _)
  | [p] =>
    obtain ⟨p', hp'⟩ := hc.single hp
    rw [hp']
    exact h.sendNumeric hc.fold_eq fd _ (.refl _ _)
  | targetNick :: channelName :: rest =>
    obtain ⟨targetNick', channelName', hp', htarget, hchannel⟩ := hc.second (by rw [hname]; decide) hp
    rw [hp']
    dsimp only
    rw [hc.fold_eq _ _ hchannel, holder_fold (hc.fold_eq _ _ htarget)]
    have hboth : Patched (command.Spelling command') (targetNick ++ " ".toList ++ channelName)
        (targetNick' ++ " ".toList ++ channelName') :=
      ((Patched.of htarget).extend _).append (.of hchannel)
    have hreply (text : Text) :
        Patched (command.Spelling command') (channelName ++ text) (channelName' ++ text) :=
      (Patched.of hchannel).extend text
    cases s.core.holder targetNick with
    | none => exact h.sendNumeric hc.fold_eq fd _ ((Patched.of htarget).extend _)
    | some target =>
      dsimp only
      cases s.core.channels[ircCaseFold channelName]? with
      | none => exact h.sendNumeric hc.fold_eq fd _ (hreply _)
      | some c =>
        refine h.refuse hc.fold_eq fd (hreply _) ?_
        refine h.refuse hc.fold_eq fd (hreply _) ?_
        refine h.refuse hc.fold_eq fd (hboth.extend _) ?_
        have hinvite : c.addInvite targetNick' = c.addInvite targetNick := by
          unfold Channel.addInvite
          rw [hc.fold_eq _ _ htarget]
        rw [hinvite]
        exact ((h.setChannel _ _).sendNumeric hc.fold_eq fd _ hboth).queueLine hc.fold_eq target
          (.relay _ (.invite htarget hchannel))

end Handlers

/-! ## MODE -/

section Mode

variable {N : Text → Text → Prop} {l l' : List Action} {s s' : Server} {change change' : ModeChange}
  {key : Text} {c c' : Channel} (hN : ∀ p p', N p p' → ircCaseFold p' = ircCaseFold p)
  (h : Twin N l l' s s') (fd : Fd)

include hN h

theorem broadcastModeChange_twin (hchange : change.Respelled N change')
    (hlive : ∀ m ∈ c.members, s.core.Live m) (hmembers : ∀ m ∈ c'.members, m ∈ c.members) :
    Twin N l l' ((s.setChannel key c').broadcastModeChange fd c' change)
      ((s'.setChannel key c').broadcastModeChange fd c' change') := by
  unfold broadcastModeChange
  simp only [client_source, core_setChannel, h.core]
  refine (h.setChannel key c').broadcast hN (fun m hm => hlive m (hmembers m hm)) _ ?_
  cases hchange with
  | same => exact .same _
  | operator adding hnick => exact .operator _ adding hnick

/-- A change that is made and announced unless it is in effect. -/
theorem changeUnless_twin {p : Prop} [Decidable p] (hchange : change.Respelled N change')
    (hlive : ∀ m ∈ c.members, s.core.Live m) (hmembers : ∀ m ∈ c'.members, m ∈ c.members) :
    Twin N l l' (if p then s else (s.setChannel key c').broadcastModeChange fd c' change)
      (if p then s' else (s'.setChannel key c').broadcastModeChange fd c' change') :=
  .ite (fun _ => h) fun _ => broadcastModeChange_twin hN h fd hchange hlive hmembers

theorem applyInviteOnlyMode_twin (hlive : ∀ m ∈ c.members, s.core.Live m) :
    Twin N l l' (s.applyInviteOnlyMode fd key c change) (s'.applyInviteOnlyMode fd key c change) := by
  unfold applyInviteOnlyMode
  exact changeUnless_twin hN h fd (.same _) hlive fun _ => id

theorem applyTopicRestrictedMode_twin (hlive : ∀ m ∈ c.members, s.core.Live m) :
    Twin N l l' (s.applyTopicRestrictedMode fd key c change)
      (s'.applyTopicRestrictedMode fd key c change) := by
  unfold applyTopicRestrictedMode
  exact changeUnless_twin hN h fd (.same _) hlive fun _ => id

theorem applyKeyMode_twin (hlive : ∀ m ∈ c.members, s.core.Live m) :
    Twin N l l' (s.applyKeyMode fd key c change) (s'.applyKeyMode fd key c change) := by
  unfold applyKeyMode
  refine .ite (fun _ => ?_) fun _ => ?_
  · refine h.refuse hN fd (.refl _ _) ?_
    exact changeUnless_twin hN h fd (.same _) hlive fun _ => id
  · exact changeUnless_twin hN h fd (.same _) hlive fun _ => id

theorem applyUserLimitMode_twin (hlive : ∀ m ∈ c.members, s.core.Live m) :
    Twin N l l' (s.applyUserLimitMode fd key c change) (s'.applyUserLimitMode fd key c change) := by
  unfold applyUserLimitMode
  refine .ite (fun _ => ?_) fun _ => ?_
  · cases parsePositiveUserLimit change.argument with
    | none => exact h.sendNumeric hN fd _ (.refl _ _)
    | some limit =>
      exact changeUnless_twin hN h fd (.same _) hlive fun _ => id
  · exact changeUnless_twin hN h fd (.same _) hlive fun _ => id

/-- The one mode that looks a name up. -/
theorem applyOperatorMode_twin (hchange : change.Respelled N change')
    (hlive : ∀ m ∈ c.members, s.core.Live m) :
    Twin N l l' (s.applyOperatorMode fd key c change) (s'.applyOperatorMode fd key c change') := by
  have hargument : Patched N change.argument change'.argument := by
    cases hchange with
    | same => exact .refl _ _
    | operator adding hnick => exact .of hnick
  have hadding : change'.adding = change.adding := by cases hchange <;> rfl
  unfold applyOperatorMode
  simp only [findClientByNickname_eq, h.core]
  rw [holder_fold (hargument.map_eq hN), hadding]
  cases s.core.holder change.argument with
  | none => exact h.sendNumeric hN fd _ (hargument.extend _)
  | some target =>
    refine h.refuse hN fd ((hargument.extend _).extend _ |>.extend _) ?_
    exact changeUnless_twin hN h fd hchange hlive fun m => mem_setMemberOperator.1

theorem applyChannelModeChange_twin (hchange : change.Respelled N change') (hlive : s.core.MembersLive) :
    Twin N l l' (s.applyChannelModeChange fd key change) (s'.applyChannelModeChange fd key change') := by
  have hchannels : s'.channels = s.channels := congrArg Core.channels h.core
  unfold applyChannelModeChange
  rw [hchannels]
  cases hfound : s.channels[key]? with
  | none => exact h
  | some c =>
    have hmembers := hlive key c hfound
    cases hchange with
    | same =>
      refine .ite (fun _ => applyInviteOnlyMode_twin hN h fd hmembers) fun _ => ?_
      refine .ite (fun _ => applyTopicRestrictedMode_twin hN h fd hmembers) fun _ => ?_
      refine .ite (fun _ => applyKeyMode_twin hN h fd hmembers) fun _ => ?_
      refine .ite (fun _ => applyOperatorMode_twin hN h fd (.same _) hmembers) fun _ => ?_
      refine .ite (fun _ => applyUserLimitMode_twin hN h fd hmembers) fun _ => ?_
      exact h.sendNumeric hN fd _ (.refl _ _)
    | operator adding hnick => exact applyOperatorMode_twin hN h fd (.operator adding hnick) hmembers

theorem applyChanges_twin {changes changes' : List ModeChange} (hlive : s.core.MembersLive)
    (hchanges : List.Forall₂ (ModeChange.Respelled N) changes changes') :
    Twin N l l' (changes.foldl (fun s change => s.applyChannelModeChange fd key change) s)
      (changes'.foldl (fun s change => s.applyChannelModeChange fd key change) s') := by
  induction hchanges generalizing s s' with
  | nil => exact h
  | cons hchange _ ih =>
    exact ih (applyChannelModeChange_twin hN h fd hchange hlive)
      (s.applyChannelModeChange_step fd key _ hlive).1

end Mode

end Server

/-- The changes of a mode string whose arguments are respelled where `o` takes them. -/
theorem assign_respelled {N : Text → Text → Prop} {ps : List (Option Char × Char)}
    {arguments arguments' : List Text} (hlength : arguments'.length = arguments.length)
    (hname : ∀ (j : Nat) (a a' : Text), ((ps.filter takesArgument)[j]?).any (·.2 == 'o') = true →
      arguments[j]? = some a → arguments'[j]? = some a' → N a a')
    (hother : ∀ j : Nat, ((ps.filter takesArgument)[j]?).any (·.2 == 'o') = false →
      arguments'[j]? = arguments[j]?) :
    List.Forall₂ (ModeChange.Respelled N) (assign ps arguments) (assign ps arguments') := by
  induction ps generalizing arguments arguments' with
  | nil => exact .nil
  | cons p ps ih =>
    obtain ⟨sign, mode⟩ := p
    unfold assign
    cases ht : takesArgument (sign, mode) with
    | false =>
      rw [List.filter_cons_of_neg (by rw [ht]; decide)] at hname hother
      exact .cons (.same _) (ih hlength hname hother)
    | true =>
      rw [List.filter_cons_of_pos ht] at hname hother
      refine .cons ?_ (ih ?_ ?_ ?_)
      · cases arguments with
        | nil =>
          rw [List.length_eq_zero_iff.1 hlength]
          exact .same _
        | cons a arguments =>
          cases arguments' with
          | nil => cases hlength
          | cons a' arguments' =>
            by_cases ho : mode = 'o'
            · subst ho
              exact .operator _ (hname 0 a a' rfl rfl rfl)
            · have hsame := hother 0 (beq_eq_false_iff_ne.2 ho)
              cases hsame
              exact .same _
      · rw [List.length_tail, List.length_tail, hlength]
      · intro j a a' hj ha ha'
        rw [List.getElem?_tail] at ha ha'
        exact hname (j + 1) a a' hj ha ha'
      · intro j hj
        rw [List.getElem?_tail, List.getElem?_tail]
        exact hother (j + 1) hj

namespace Server

section Handlers

variable {command command' : Command} {l l' : List Action} {s s' : Server}
  (hc : command.Respelled command') (h : Twin (command.Spelling command') l l' s s') (fd : Fd)

include hc

/-- A mode string is accepted in both spellings or in none, and gives the same changes. -/
theorem parseChannelModeChanges_respelled (hname : command.name = "MODE".toList) :
    Option.Rel (List.Forall₂ (ModeChange.Respelled (command.Spelling command')))
      (parseChannelModeChanges command.parameters) (parseChannelModeChanges command'.parameters) := by
  have hisName (i : Nat) : command.isName i =
      (i == 0 || Command.isOperatorArgument (command.parameters[1]?.getD []) i) := by
    rw [Command.isName, hname]
    rfl
  match hp : command.parameters with
  | [] =>
    rw [hc.nil hp]
    exact .none
  | [p] =>
    obtain ⟨p', hp'⟩ := hc.single hp
    rw [hp']
    exact .none
  | target :: modes :: arguments =>
    rw [hp] at hisName
    obtain ⟨target', rest', hp', -, hrest⟩ := hc.cons hp (hisName 0)
    obtain ⟨modes', arguments', rfl, -, harguments⟩ := List.map_eq_cons_iff.1 hrest
    have hmodes := hc.other 1 (hisName 1)
    rw [hp, hp'] at hmodes
    cases (hmodes : some modes' = some modes)
    have hlength : arguments'.length = arguments.length := by
      simpa only [List.length_map] using congrArg List.length harguments
    rw [hp', parseChannelModeChanges_eq, parseChannelModeChanges_eq]
    have hfulfilled : Fulfilled (target' :: modes :: arguments') 2 (signed modes) ↔
        Fulfilled (target :: modes :: arguments) 2 (signed modes) := by
      unfold Fulfilled
      simp only [List.length_cons, hlength]
    simp only [hfulfilled]
    split
    swap
    · exact .none
    have hargument (j : Nat) : command.isName (2 + j) =
        (((signed modes).filter takesArgument)[j]?).any (·.2 == 'o') := by
      rw [hisName, Command.isOperatorArgument, Nat.add_sub_cancel_left]
      simp
    refine .some (assign_respelled hlength (fun j a a' hj ha ha' => ?_) fun j hj => ?_)
    · refine ⟨2 + j, (hargument j).trans hj, ?_, ?_⟩
      · rw [hp, Nat.add_comm]
        exact ha
      · rw [hp', Nat.add_comm]
        exact ha'
    · have hother := hc.other (2 + j) ((hargument j).trans hj)
      rwa [hp, hp', Nat.add_comm] at hother

include h

theorem handleMode_twin (hlive : s.core.MembersLive) (hname : command.name = "MODE".toList) :
    Twin (command.Spelling command') l l' (s.handleMode fd command) (s'.handleMode fd command') := by
  have hchanges := parseChannelModeChanges_respelled hc hname
  unfold handleMode
  simp only [client_registered, findChannel_eq, h.core]
  refine h.refuse hc.fold_eq fd (.refl _ _) ?_
  cases hp : command.parameters with
  | nil =>
    rw [hc.nil hp]
    exact h.sendNumeric hc.fold_eq fd _ (.refl _ _)
  | cons target rest =>
    obtain ⟨target', rest', hp', hspelling, hrest⟩ := hc.cons hp (by rw [Command.isName, hname]; rfl)
    have hfold := hc.fold_eq _ _ hspelling
    have hempty : rest'.isEmpty = rest.isEmpty := by
      rw [← List.isEmpty_map (f := ircCaseFold), hrest, List.isEmpty_map]
    rw [hp, hp'] at hchanges
    rw [hp']
    dsimp only
    rw [← isChannelTarget_fold target', hfold, isChannelTarget_fold target, hempty]
    refine .ite (fun _ => h) fun _ => ?_
    cases s.core.channels[ircCaseFold target]? with
    | none => exact h.sendNumeric hc.fold_eq fd _ ((Patched.of hspelling).extend _)
    | some c =>
      refine .ite (fun _ => h) fun _ => ?_
      refine h.refuse hc.fold_eq fd ((Patched.of hspelling).extend _) ?_
      generalize parseChannelModeChanges (target :: rest) = o at hchanges ⊢
      generalize parseChannelModeChanges (target' :: rest') = o' at hchanges ⊢
      cases hchanges with
      | none => exact h
      | some hchanges => exact applyChanges_twin hc.fold_eq h fd hlive hchanges

theorem dispatchCommand_twin (hlive : s.core.MembersLive) (hfd : s.core.Live fd)
    (hname : command.name ∈ ["PRIVMSG".toList, "TOPIC".toList, "KICK".toList, "INVITE".toList,
      "MODE".toList, "JOIN".toList])
    (hjoin : command.name = "JOIN".toList →
      ∀ channelName ∈ command.parameters.head?, (s.findChannel channelName).isSome) :
    Twin (command.Spelling command') l l' (s.dispatchCommand fd command)
      (s'.dispatchCommand fd command') := by
  have hother {name : Text} (heq : command.name = name) (hnot : name ∉ ["PRIVMSG".toList, "TOPIC".toList,
      "KICK".toList, "INVITE".toList, "MODE".toList, "JOIN".toList]) : False := hnot (heq ▸ hname)
  unfold dispatchCommand
  rw [hc.name]
  refine .ite (fun hping => (hother hping (by decide)).elim) fun _ => ?_
  refine .ite (fun hquit => (hother hquit (by decide)).elim) fun _ => ?_
  refine .ite (fun hcap => (hother hcap (by decide)).elim) fun _ => ?_
  refine .ite (fun hpass => (hother hpass (by decide)).elim) fun _ => ?_
  refine .ite (fun huser => (hother huser (by decide)).elim) fun _ => ?_
  refine .ite (fun hnick => (hother hnick (by decide)).elim) fun _ => ?_
  refine .ite (fun hprivmsg => handlePrivmsg_twin hc h fd hlive hprivmsg) fun hprivmsg => ?_
  refine .ite (fun heq => handleJoin_twin hc h fd hlive hfd heq (hjoin heq)) fun hjoin => ?_
  refine .ite (fun htopic => handleTopic_twin hc h fd hlive htopic) fun htopic => ?_
  refine .ite (fun hkick => handleKick_twin hc h fd hlive hkick) fun hkick => ?_
  refine .ite (fun hinvite => handleInvite_twin hc h fd hinvite) fun hinvite => ?_
  refine .ite (fun hmode => handleMode_twin hc h fd hlive hmode) fun hmode => ?_
  simp only [List.mem_cons, List.not_mem_nil, or_false, hprivmsg, hjoin, htopic, hkick, hinvite,
    hmode] at hname

end Handlers

/-! ## Lines -/

/-- What the history tells of a line before its handler runs. -/
def entered (fd : Fd) (line : Text) : List Action :=
  .completeLine fd line ::
    if (Command.parse line).valid then [.dispatched fd (Command.parse line)] else []

/-- **A command does not depend on the spelling of its names.** -/
theorem handleCompleteLine_respelled {s : Server} (hr : Reachable s) {fd : Fd}
    (hfd : (s.findClient fd).isSome) {line line' : Text}
    (hname : (Command.parse line).name ∈ ["PRIVMSG".toList, "TOPIC".toList, "KICK".toList, "INVITE".toList,
      "MODE".toList, "JOIN".toList])
    (hrespelled : (Command.parse line).Respelled (Command.parse line'))
    (hjoin : (Command.parse line).name = "JOIN".toList →
      ∀ channelName ∈ (Command.parse line).parameters.head?, (s.findChannel channelName).isSome) :
    (s.handleCompleteLine fd line').core = (s.handleCompleteLine fd line).core ∧
    (s.handleCompleteLine fd line').pollFds = (s.handleCompleteLine fd line).pollFds ∧
    (∃ as as', (s.handleCompleteLine fd line).log = s.log ++ entered fd line ++ as ∧
      (s.handleCompleteLine fd line').log = s.log ++ entered fd line' ++ as' ∧
      List.Forall₂ (Action.Respelled ((Command.parse line).Spelling (Command.parse line'))) as as') ∧
    ∀ x, Option.Rel (Port.Respelled ((Command.parse line).Spelling (Command.parse line')))
      ((s.handleCompleteLine fd line).wire.ports x) ((s.handleCompleteLine fd line').wire.ports x) := by
  suffices htwin : Twin ((Command.parse line).Spelling (Command.parse line')) (s.log ++ entered fd line)
      (s.log ++ entered fd line') (s.handleCompleteLine fd line) (s.handleCompleteLine fd line') from
    htwin.same
  unfold handleCompleteLine entered
  generalize Command.parse line = command at hname hrespelled hjoin ⊢
  generalize Command.parse line' = command' at hrespelled ⊢
  dsimp only
  rw [hrespelled.valid]
  cases command.valid with
  | false => exact .ite (fun _ => ⟨rfl, .refl _ rfl rfl rfl rfl⟩) fun hvalid => absurd rfl hvalid
  | true =>
    have hstart : Twin (command.Spelling command')
        (s.log ++ [.completeLine fd line, .dispatched fd command])
        (s.log ++ [.completeLine fd line', .dispatched fd command'])
        ((s.record (.completeLine fd line)).record (.dispatched fd command))
        ((s.record (.completeLine fd line')).record (.dispatched fd command')) :=
      ⟨rfl, .refl _ rfl rfl (List.append_assoc _ [_] [_]) (List.append_assoc _ [_] [_])⟩
    refine .ite (fun hinvalid => absurd hinvalid (by decide)) fun _ => ?_
    exact dispatchCommand_twin hrespelled hstart fd hr.ok.membersLive ((live_iff s fd).2 hfd) hname hjoin

/-- `bob` gives his operator flag away under another spelling of his name and the channel's. -/
theorem handleCompleteLine_respelled_session :
    ∃ s, Reachable s ∧
      (s.handleCompleteLine 4 "MODE #C -o BOB".toList).core =
        (s.handleCompleteLine 4 "MODE #c -o bob".toList).core ∧
      (s.findChannel "#c".toList).map (·.isMemberOperator 4) = some true ∧
      ((s.handleCompleteLine 4 "MODE #C -o BOB".toList).findChannel "#c".toList).map
        (·.isMemberOperator 4) = some false := by
  obtain ⟨s, hr, hfd, hbefore, hafter⟩ : ∃ s, Reachable s ∧ (s.findClient 4).isSome = true ∧
      (s.findChannel "#c".toList).map (·.isMemberOperator 4) = some true ∧
      ((s.handleCompleteLine 4 "MODE #C -o BOB".toList).findChannel "#c".toList).map
        (·.isMemberOperator 4) = some false :=
    ⟨session, session_reachable, by decide +kernel⟩
  refine ⟨s, hr, ?_, hbefore, hafter⟩
  refine (handleCompleteLine_respelled hr hfd (by decide) ?_
    fun hjoin => absurd hjoin (by decide)).1
  refine ⟨by decide, by decide, by decide, fun i hi => ?_⟩
  have hparse : (Command.parse "MODE #c -o bob".toList).parameters =
      ["#c".toList, "-o".toList, "bob".toList] := by decide
  have hparse' : (Command.parse "MODE #C -o BOB".toList).parameters =
      ["#C".toList, "-o".toList, "BOB".toList] := by decide
  rw [hparse, hparse']
  match i with
  | 0 => exact absurd hi (by decide)
  | 1 => rfl
  | 2 => exact absurd hi (by decide)
  | _ + 3 => rfl

end Server

end FtIrc
