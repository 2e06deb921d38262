import FtIrc.Core

/-!
# Sending leaves the core alone

Every function that queues output, seen from the core (unchanged) and from the wire
(`Wire.deliver` of the lines it queues).  The loops over members find every client when
all members are connected (`Core.MembersLive`).
-/

namespace FtIrc

open Std

namespace Server

variable (s : Server) (fd : Fd)

/-! ## Reading a client -/

theorem identity_client : (s.client fd).identity = s.core.who fd := by
  unfold client Core.who core
  dsimp only
  cases s.clients[fd]? <;> rfl

theorem port_client : (s.client fd).port = s.wire.port fd := by
  unfold client Wire.port wire
  dsimp only
  cases s.clients[fd]? <;> rfl

@[simp] theorem client_nickname : (s.client fd).nickname = (s.core.who fd).nickname :=
  congrArg Identity.nickname (s.identity_client fd)

@[simp] theorem client_username : (s.client fd).username = (s.core.who fd).username :=
  congrArg Identity.username (s.identity_client fd)

@[simp] theorem client_registered : (s.client fd).registered = (s.core.who fd).registered :=
  congrArg Identity.registered (s.identity_client fd)

@[simp] theorem client_source : (s.client fd).source = (s.core.who fd).source :=
  congrArg Identity.source (s.identity_client fd)

theorem client_getPrefix : (s.client fd).getPrefix = (s.core.who fd).source.render := by
  rw [← client_source]; rfl

theorem client_isRegistrationReady :
    (s.client fd).isRegistrationReady = ((s.core.who fd).passwordAccepted &&
      !(s.core.who fd).nickname.isEmpty && (s.core.who fd).hasUser) := by
  rw [← s.identity_client fd]; rfl

@[simp] theorem client_disconnectRequested :
    (s.client fd).disconnectRequested = (s.wire.port fd).disconnectRequested :=
  congrArg Port.disconnectRequested (s.port_client fd)

@[simp] theorem client_outputBuffer :
    (s.client fd).outputBuffer = (s.wire.port fd).outputBuffer :=
  congrArg Port.outputBuffer (s.port_client fd)

@[simp] theorem client_disconnectReason :
    (s.client fd).disconnectReason = (s.wire.port fd).disconnectReason :=
  congrArg Port.disconnectReason (s.port_client fd)

theorem live_iff : s.core.Live fd ↔ (s.findClient fd).isSome := by
  unfold Core.Live core findClient
  rw [Option.isSome_map]

theorem isSome_ports : (s.wire.ports fd).isSome ↔ s.core.Live fd := by
  unfold Core.Live core wire
  rw [Option.isSome_map, Option.isSome_map]

theorem client_of_found {s : Server} {fd : Fd} {c : Client} (hc : s.clients[fd]? = some c) : s.client fd = c := by
  unfold client
  rw [hc]
  rfl

theorem findClient_of_live {s : Server} {fd : Fd} (hfd : s.core.Live fd) : s.findClient fd = some (s.client fd) := by
  obtain ⟨c, hc⟩ := Option.isSome_iff_exists.1 ((live_iff s fd).1 hfd)
  rw [client_of_found hc]
  exact hc

@[simp] theorem findClientByNickname_eq (nickname : Text) :
    s.findClientByNickname nickname = s.core.holder nickname := by
  unfold findClientByNickname Core.holder core findClient
  cases s.nicknameIndex[ircCaseFold nickname]? with
  | none => rfl
  | some fd => simp [Function.comp_def]

@[simp] theorem findChannel_eq (name : Text) :
    s.findChannel name = s.core.channels[ircCaseFold name]? := rfl

/-! ## Records and channels -/

@[simp] theorem core_record (a : Action) : (s.record a).core = s.core := rfl

@[simp] theorem wire_record (a : Action) : (s.record a).wire = s.wire.record a := rfl

@[simp] theorem core_setChannel (key : Text) (c : Channel) :
    (s.setChannel key c).core = s.core.setChannel key c := rfl

@[simp] theorem wire_setChannel (key : Text) (c : Channel) :
    (s.setChannel key c).wire = s.wire := rfl

theorem core_modifyClient_port {f : Client → Client} (h : ∀ c, (f c).identity = c.identity) :
    (s.modifyClient fd f).core = s.core := by
  rw [core_modifyClient (g := id) s fd h, Core.modify_id]

theorem wire_modifyClient_identity {f : Client → Client} (h : ∀ c, (f c).port = c.port) :
    (s.modifyClient fd f).wire = s.wire := by
  rw [wire_modifyClient (g := id) s fd h, Wire.modify_id]

@[simp] theorem core_requestDisconnect (reason : Text) :
    (s.requestDisconnect fd reason).core = s.core := by
  unfold requestDisconnect
  rw [core_record]
  exact core_modifyClient_port s fd fun _ => rfl

@[simp] theorem wire_requestDisconnect (reason : Text) :
    (s.requestDisconnect fd reason).wire = s.wire.requestDisconnect fd reason := by
  unfold requestDisconnect Wire.requestDisconnect
  rw [wire_record]
  exact congrArg (Wire.record · _) (wire_modifyClient s fd fun _ => rfl)

/-! ## One line -/

@[simp] theorem core_queueLine (line : Line) : (s.queueLine fd line).core = s.core := by
  unfold queueLine queueRaw
  simp only [core_record]
  split
  · rfl
  split
  · rfl
  split
  · exact core_requestDisconnect _ _ _
  · exact core_modifyClient_port s fd fun _ => rfl

theorem bytes_length_pos (line : Line) : line.bytes.length ≠ 0 := by
  simp [Line.bytes]

@[simp] theorem wire_queueLine (line : Line) :
    (s.queueLine fd line).wire = s.wire.queueLine fd line := by
  have hne : (line.render ++ "\r\n".toList).length ≠ 0 := bytes_length_pos line
  unfold queueLine queueRaw Wire.queueLine
  simp only [wire_record, client_disconnectRequested, if_neg hne]
  split
  · rfl
  · by_cases hfit : (s.wire.port fd).Fits line.bytes
    · have hsize : ¬ ((line.render ++ "\r\n".toList).length > maxPendingOutput ∨
          (s.client fd).getOutputSize > maxPendingOutput - (line.render ++ "\r\n".toList).length) := by
        obtain ⟨h1, h2⟩ := hfit
        rw [← client_outputBuffer] at h2
        exact not_or.2 ⟨Nat.not_lt.2 h1, Nat.not_lt.2 h2⟩
      rw [if_neg hsize, if_pos hfit]
      have hw := wire_modifyClient s fd (f := (·.appendOutput (line.render ++ "\r\n".toList)))
        (g := fun p => { p with outputBuffer := p.outputBuffer ++ line.bytes }) fun _ => rfl
      exact congrArg (fun w : Wire => Wire.record { w with pollFds := armPollout fd s.pollFds }
        (.queued fd line true)) hw
    · have hsize : (line.render ++ "\r\n".toList).length > maxPendingOutput ∨
          (s.client fd).getOutputSize > maxPendingOutput - (line.render ++ "\r\n".toList).length := by
        unfold Client.getOutputSize
        rw [client_outputBuffer]
        by_contra hn
        obtain ⟨h1, h2⟩ := not_or.1 hn
        exact hfit ⟨Nat.not_lt.1 h1, Nat.not_lt.1 h2⟩
      rw [if_pos hsize, if_neg hfit]
      simp only [wire_requestDisconnect]

@[simp] theorem core_sendNumeric (numeric : Text) (arguments : Arguments) :
    (s.sendNumeric fd numeric arguments).core = s.core := core_queueLine _ _ _

@[simp] theorem wire_sendNumeric (numeric : Text) (arguments : Arguments) :
    (s.sendNumeric fd numeric arguments).wire =
      s.wire.queueLine fd (.numeric numeric (s.core.replyTarget fd) arguments) := by
  unfold sendNumeric Core.replyTarget
  rw [wire_queueLine]
  simp only [Client.hasNickname, client_nickname]
  cases (s.core.who fd).nickname.isEmpty <;> rfl

/-! ## Loops over recipients -/

@[simp] theorem core_queueIfFound (line : Line) : (s.queueIfFound fd line).core = s.core := by
  unfold queueIfFound
  split
  · rfl
  · exact core_queueLine _ _ _

theorem wire_queueIfFound (line : Line) (h : s.core.Live fd) :
    (s.queueIfFound fd line).wire = s.wire.queueLine fd line := by
  rw [live_iff] at h
  unfold queueIfFound
  split
  · next hn => rw [hn] at h; cases h
  · exact wire_queueLine _ _ _

theorem core_queueAll (fds : List Fd) (line : Line) :
    (fds.foldl (fun s fd => s.queueIfFound fd line) s).core = s.core := by
  induction fds generalizing s with
  | nil => rfl
  | cons fd fds ih => rw [List.foldl_cons, ih, core_queueIfFound]

theorem wire_queueAll (fds : List Fd) (line : Line) (h : ∀ m ∈ fds, s.core.Live m) :
    (fds.foldl (fun s fd => s.queueIfFound fd line) s).wire = s.wire.deliver (toAll fds line) := by
  induction fds generalizing s with
  | nil => rfl
  | cons fd fds ih =>
    have hfd := h fd List.mem_cons_self
    rw [List.foldl_cons, ih, wire_queueIfFound s fd line hfd]
    · rfl
    · intro m hm
      rw [core_queueIfFound]
      exact h m (List.mem_cons_of_mem _ hm)

theorem broadcastToChannel_eq (channel : Channel) (line : Line) (excludeFd : Option Fd) :
    s.broadcastToChannel channel line excludeFd =
      (channel.members.keys.filter (some · ≠ excludeFd)).foldl
        (fun s fd => s.queueIfFound fd line) s := by
  unfold broadcastToChannel
  rw [List.foldl_filter]
  simp

@[simp] theorem core_broadcastToChannel (channel : Channel) (line : Line)
    (excludeFd : Option Fd) : (s.broadcastToChannel channel line excludeFd).core = s.core := by
  rw [broadcastToChannel_eq, core_queueAll]

theorem wire_broadcastToChannel (channel : Channel) (line : Line) (excludeFd : Option Fd)
    (h : ∀ m ∈ channel.members, s.core.Live m) :
    (s.broadcastToChannel channel line excludeFd).wire =
      s.wire.deliver (toAll (channel.members.keys.filter (some · ≠ excludeFd)) line) := by
  rw [broadcastToChannel_eq, wire_queueAll]
  intro m hm
  exact h m (ExtTreeMap.mem_keys.1 (List.mem_of_mem_filter hm))

end Server

/-- What `sendChannelNames` lists: each member's operator flag and nickname. -/
def Core.namesOf (κ : Core) (channel : Channel) : List (Bool × Text) :=
  channel.members.toList.map fun m => (m.2, (κ.who m.1).nickname)

namespace Server

variable (s : Server) (fd : Fd)

theorem collectNames (members : List (Fd × Bool)) (found : List (Bool × Text))
    (h : ∀ m ∈ members, s.core.Live m.1) :
    members.foldl collectName (s, found) =
      (s, found ++ members.map fun m => (m.2, (s.core.who m.1).nickname)) := by
  induction members generalizing found with
  | nil => simp
  | cons m members ih =>
    have hm := (s.live_iff m.1).1 (h m List.mem_cons_self)
    obtain ⟨c, hc⟩ := Option.isSome_iff_exists.1 hm
    have hstep : collectName (s, found) m = (s, found ++ [(m.2, (s.core.who m.1).nickname)]) := by
      unfold collectName
      rw [hc]
      rw [← client_nickname, client_of_found hc]
    rw [List.foldl_cons, hstep, ih _ fun m' hm' => h m' (List.mem_cons_of_mem _ hm')]
    simp

theorem sendChannelNames_eq (channel : Channel) (h : ∀ m ∈ channel.members, s.core.Live m) :
    s.sendChannelNames fd channel =
      (s.sendNumeric fd "353".toList (.names channel.name (s.core.namesOf channel))).sendNumeric fd
        "366".toList (.text (channel.name ++ " :End of /NAMES list".toList)) := by
  unfold sendChannelNames
  rw [collectNames]
  · rfl
  · intro m hm
    have hget := ExtTreeMap.mem_toList_iff_getElem?_eq_some.1 hm
    exact h m.1 (ExtTreeMap.mem_iff_isSome_getElem?.2 (by rw [hget]; rfl))

end Server

end FtIrc
