import FtIrc.Isolation
import FtIrc.Invitations
import FtIrc.Traffic

/-!
# What a removal takes with it

`removeClient` purges four stores that are keyed by descriptor, by folded nickname and by
index.  `Removed` lists what it leaves: nothing of the client, and of everything else all but
the `QUIT` lines in the queues of those who shared a channel with it, whose entries then watch
for `POLLOUT`.
-/

namespace FtIrc

open Std

theorem linesFor_toAll_iff {m : Fd} {fds : List Fd} (hnodup : fds.Nodup) (line : Line) :
    linesFor m (toAll fds line) = if m ∈ fds then [line] else [] := by
  split
  · next h => exact linesFor_toAll hnodup h line
  · next h => exact linesFor_toAll_of_notMem h line

/-! ## Who is armed -/

/-- The line goes into the queue. -/
def Port.Accepts (p : Port) (line : Line) : Prop :=
  p.disconnectRequested = false ∧ p.Fits line.bytes

instance (p : Port) (line : Line) : Decidable (p.Accepts line) := by unfold Port.Accepts; infer_instance

/-- The entry watches for `POLLOUT` from now on. -/
def PollFd.arm (p : PollFd) : PollFd := { p with events := { p.events with pollout := true } }

namespace Wire

variable {w : Wire}

theorem pollFds_queueLine (hnodup : (w.pollFds.map PollFd.fd).Nodup) (fd : Fd) (line : Line) :
    (w.queueLine fd line).pollFds = w.pollFds.map fun p =>
      if p.fd = fd ∧ (w.port fd).Accepts line then p.arm else p := by
  have hsame (hnot : ¬ (w.port fd).Accepts line) : w.pollFds = w.pollFds.map fun p =>
      if p.fd = fd ∧ (w.port fd).Accepts line then p.arm else p := by
    conv_lhs => rw [← List.map_id w.pollFds]
    refine List.map_congr_left fun p _ => ?_
    rw [if_neg fun h => hnot h.2]
    rfl
  unfold queueLine
  split
  · next hflag => exact hsame fun h => Bool.false_ne_true (h.1.symm.trans hflag)
  next hflag =>
  split
  · next hfits =>
    refine (armPollout_eq_map hnodup fd).trans (List.map_congr_left fun p _ => ?_)
    refine if_congr ?_ rfl rfl
    exact (and_iff_left ⟨Bool.eq_false_iff.2 hflag, hfits⟩).symm
  · next hfits => exact hsame fun h => hfits h.2

/-- One line to each of several clients arms the entries of those who have room for it. -/
theorem pollFds_toAll {fds : List Fd} (hfds : fds.Nodup) (hnodup : (w.pollFds.map PollFd.fd).Nodup)
    (line : Line) : (w.deliver (toAll fds line)).pollFds = w.pollFds.map fun p =>
      if p.fd ∈ fds ∧ (w.port p.fd).Accepts line then p.arm else p := by
  induction fds generalizing w with
  | nil => simp [toAll, deliver]
  | cons fd fds ih =>
    obtain ⟨hnot, hfds⟩ := List.nodup_cons.1 hfds
    have hfirst := pollFds_queueLine hnodup fd line
    have hnodup' : ((w.queueLine fd line).pollFds.map PollFd.fd).Nodup := by
      rw [← signal_line, map_pollFds_signal (f := PollFd.fd) fun _ => rfl]
      exact hnodup
    rw [toAll_cons, deliver_cons, signal_line, ih hfds hnodup', hfirst, List.map_map]
    refine List.map_congr_left fun p _ => ?_
    rw [Function.comp_apply]
    by_cases hp : p.fd = fd
    · -- the client of this line is none of the others
      have hothers : p.fd ∉ fds := hp ▸ hnot
      have harmed : (if p.fd = fd ∧ (w.port fd).Accepts line then p.arm else p).fd = p.fd := by
        split <;> rfl
      rw [if_neg (by rw [harmed]; exact fun h => hothers h.1)]
      refine if_congr ?_ rfl rfl
      rw [hp]
      simp
    · have hport : (w.queueLine fd line).port p.fd = w.port p.fd :=
        port_signal_of_ne w (x := .line fd line) (Ne.symm hp)
      rw [if_neg (show ¬ (p.fd = fd ∧ (w.port fd).Accepts line) from fun h => hp h.1), hport]
      refine if_congr ?_ rfl rfl
      rw [List.mem_cons, or_iff_right hp]

end Wire

namespace Server

variable {s s' : Server} {fd : Fd} {index : Nat}

/-! ## Invitations are for somebody -/

theorem Reachable.exists_invitedBy (h : Reachable s) : ∃ R, s.core.InvitedBy R := by
  refine h.invariant (I := fun s => ∃ R, s.core.InvitedBy R) ?_ ?_
  · intro listenerFd password
    exact ⟨_, (ghost_ok_start listenerFd password).invited⟩
  · rintro s e s' hr ⟨R, hR⟩ hs
    exact ⟨_, hr.invitedBy hs hR⟩

/-- Nobody without a nickname is invited. -/
theorem Reachable.not_invited (h : Reachable s) {key : Text} {c : Channel}
    (hc : s.channels[key]? = some c) : c.isInvited [] = false := by
  obtain ⟨R, hR⟩ := h.exists_invitedBy
  rw [← Bool.not_eq_true]
  intro hinv
  obtain ⟨x, -, hlabel⟩ := (hR.exact key c hc _).1 (ExtTreeSet.mem_iff_contains.2 hinv)
  obtain ⟨hne, hfold⟩ := Core.label_eq_some.1 hlabel
  exact hne (ircCaseFold_eq_nil.1 hfold)

/-! ## The queues -/

/-- The line that announces the removal of the client on `fd`. -/
def farewell (s : Server) (fd : Fd) : Line :=
  .relay (s.client fd).source (.quit (if (s.client fd).disconnectReason.isEmpty
    then "Connection closed".toList else (s.client fd).disconnectReason))

theorem quitLine_eq (s : Server) (fd : Fd) : s.quitLine fd = s.farewell fd := by
  unfold quitLine farewell Wire.quitReason
  rw [client_source, client_disconnectReason]

/-- Everyone else who shares a channel with a registered client is queued its `QUIT`. -/
structure Announced (s s' : Server) (fd : Fd) : Prop where
  peer : (s.client fd).registered = true → ∀ m, m ≠ fd → s.core.Peers fd m →
    s.Queued s' m [s.farewell fd]
  stranger : ∀ m, m ≠ fd → ¬ ((s.client fd).registered = true ∧ s.core.Peers fd m) →
    s.Queued s' m []

theorem announced (hok : s.core.Ok) {recipients : List Fd} (hrec : QuitRecipients s.core fd recipients)
    {pollFds : List PollFd}
    (hwire : s'.wire = (s.wire.deliver (toAll recipients (s.quitLine fd))).disconnect fd pollFds) :
    s.Announced s' fd := by
  rw [quitLine_eq] at hwire
  have hlive : ∀ x ∈ toAll recipients (s.farewell fd), s.core.Live x.fd := fun x hx =>
    live_of_peers s fd hok.membersLive ((hrec.2 _).1 (fd_toAll hx)).2.1
  have hqueued {m : Fd} (hm : m ≠ fd) :
      s.Queued s' m (if m ∈ recipients then [s.farewell fd] else []) := by
    rw [← linesFor_toAll_iff hrec.1]
    obtain ⟨actions, hlog, hq⟩ := s.wire.log_deliver_queued (toAll recipients (s.farewell fd))
    refine ⟨⟨_, log_removed hwire hlog, ?_⟩, ?_⟩
    · rw [queuedTo_append, hq]
      exact List.append_nil _
    · have hport : s'.wire.port m = (s.wire.deliver (toAll recipients (s.farewell fd))).port m := by
        rw [hwire, Wire.port_disconnect_of_ne _ (Ne.symm hm)]
      rw [port_client, port_client, hport]
      by_cases hml : s.core.Live m
      · exact Wire.port_deliver _ ((isSome_ports s m).2 hml) fun _ => disconnect_notMem_toAll
      · have hne : ∀ x ∈ toAll recipients (s.farewell fd), x.fd ≠ m := by
          rintro x hx rfl
          exact hml (hlive x hx)
        rw [linesFor_of_ne hne, Wire.port_deliver_of_ne _ hne]
        rfl
  refine ⟨fun hreg m hm hpeer => ?_, fun m hm hnot => ?_⟩
  · have h := hqueued hm
    rw [client_registered] at hreg
    rwa [if_pos ((hrec.2 m).2 ⟨hreg, hpeer, hm⟩)] at h
  · have h := hqueued hm
    rw [client_registered] at hnot
    rwa [if_neg fun hmem => hnot ⟨((hrec.2 m).1 hmem).1, ((hrec.2 m).1 hmem).2.1⟩] at h

/-- The `QUIT` of the client on `fd` goes into the queue of the client on `m`. -/
def QuitQueued (s : Server) (fd m : Fd) : Prop :=
  m ≠ fd ∧ (s.client fd).registered = true ∧ s.core.Peers fd m ∧ (s.client m).port.Accepts (s.farewell fd)

/-- What becomes of the entry `p` when the client on `fd` is removed. -/
structure Rewatched (s : Server) (fd : Fd) (p p' : PollFd) : Prop where
  same : p' = { p with events := { p.events with pollout := p'.events.pollout } }
  pollout : p'.events.pollout = true ↔ p.events.pollout = true ∨ s.QuitQueued fd p.fd

theorem rewatched (hnodup : s.fds.Nodup) {recipients : List Fd}
    (hrec : QuitRecipients s.core fd recipients) :
    List.Forall₂ (s.Rewatched fd) (s.pollFds.eraseIdx index)
      ((s.wire.deliver (toAll recipients (s.quitLine fd))).pollFds.eraseIdx index) := by
  have hpollFds := Wire.pollFds_toAll hrec.1 (w := s.wire) hnodup (s.quitLine fd)
  rw [hpollFds, List.eraseIdx_map, List.forall₂_map_right_iff]
  refine List.forall₂_same.2 fun p _ => ?_
  have hqueued : p.fd ∈ recipients ∧ (s.wire.port p.fd).Accepts (s.quitLine fd) ↔ s.QuitQueued fd p.fd := by
    unfold QuitQueued
    rw [hrec.2, quitLine_eq, port_client, client_registered]
    constructor
    · rintro ⟨⟨hreg, hpeer, hne⟩, haccepts⟩
      exact ⟨hne, hreg, hpeer, haccepts⟩
    · rintro ⟨hne, hreg, hpeer, haccepts⟩
      exact ⟨⟨hreg, hpeer, hne⟩, haccepts⟩
  split
  · next h => exact ⟨rfl, iff_of_true rfl (Or.inr (hqueued.1 h))⟩
  · next h => exact ⟨rfl, (or_iff_left fun hnot => h (hqueued.2 hnot)).symm⟩

/-! ## The stores -/

/-- Nothing refers to the descriptor. -/
structure Absent (s : Server) (fd : Fd) : Prop where
  client : fd ∉ s.clients
  polled : ∀ p ∈ s.pollFds, p.fd ≠ fd
  index : ∀ key : Text, s.nicknameIndex[key]? ≠ some fd
  member : ∀ (key : Text) (c : Channel), s.channels[key]? = some c → fd ∉ c.members

theorem absent_of_not_live (h : Reachable s) (hlive : ¬ s.core.Live fd) (hne : fd ≠ s.listenerFd) :
    s.Absent fd := by
  refine ⟨fun hm => hlive (live_iff_mem.2 hm), ?_, ?_, ?_⟩
  · rintro p hp rfl
    exact hlive ((h.polled.live p.fd).2 ⟨List.mem_map_of_mem hp, hne⟩)
  · intro key hk
    exact hlive (Core.live_of_label ((h.ok.index key fd).1 hk))
  · intro key c hc hm
    exact hlive (h.ok.membersLive key c hc fd hm)

/-- What is left when the client on `fd`, at `index`, is removed. -/
structure Removed (s s' : Server) (fd : Fd) (index : Nat) : Prop where
  absent : s'.Absent fd
  uninvited : ∀ (key : Text) (c : Channel), s'.channels[key]? = some c →
    c.isInvited (s.client fd).nickname = false
  deleted : ∀ (key : Text) (c : Channel), s.channels[key]? = some c →
    (s'.channels[key]? = none ↔ ∀ m, m ∈ c.members ↔ m = fd)
  created : ∀ key : Text, s.channels[key]? = none → s'.channels[key]? = none
  channel : ∀ (key : Text) (c c' : Channel), s.channels[key]? = some c →
    s'.channels[key]? = some c' →
      c' = { c with members := c'.members, invitedUsers := c'.invitedUsers } ∧
      (∀ m, m ≠ fd → c'.members[m]? = c.members[m]?) ∧
      ∀ name, (s.client fd).nickname = [] ∨ name ≠ ircCaseFold (s.client fd).nickname →
        (name ∈ c'.invitedUsers ↔ name ∈ c.invitedUsers)
  entry : ∀ (key : Text) (m : Fd), m ≠ fd →
    (s'.nicknameIndex[key]? = some m ↔ s.nicknameIndex[key]? = some m)
  others : ∀ m, m ≠ fd → (m ∈ s'.clients ↔ m ∈ s.clients) ∧
    (s'.client m).identity = (s.client m).identity
  announced : s.Announced s' fd
  pollFds : List.Forall₂ (s.Rewatched fd) (s.pollFds.eraseIdx index) s'.pollFds
  settings : s'.listenerFd = s.listenerFd ∧ s'.password = s.password

theorem mem_purged {nickname name : Text} {c : Channel} :
    name ∈ (Core.purged fd nickname c).invitedUsers ↔
      name ∈ c.invitedUsers ∧ (nickname = [] ∨ name ≠ ircCaseFold nickname) := by
  unfold Core.purged
  dsimp only
  split
  · next hn => simp [hn]
  · next hn =>
    rw [ExtTreeSet.mem_erase, ne_eq, Std.compare_eq_iff_eq]
    simp only [hn, false_or, ne_eq, eq_comm (a := name)]
    exact and_comm

/-- A channel goes with its last member. -/
theorem purgeChannel_eq_none {nickname : Text} {c : Channel} (hinh : ∃ m, m ∈ c.members) :
    purgeChannel fd nickname c = none ↔ ∀ m, m ∈ c.members ↔ m = fd := by
  have hmem (x : Fd) : x ∈ (Core.purged fd nickname c).members ↔ x ≠ fd ∧ x ∈ c.members := by
    unfold Core.purged
    rw [ExtTreeMap.mem_erase, ne_eq, Std.compare_eq_iff_eq, eq_comm]
  rw [Core.purgeChannel_eq]
  split
  · next he =>
    refine iff_of_true rfl fun m => ⟨fun hm => ?_, ?_⟩
    · by_contra hne
      rw [Core.not_empty_iff.2 ⟨m, (hmem m).2 ⟨hne, hm⟩⟩] at he
      cases he
    · rintro rfl
      obtain ⟨x, hx⟩ := hinh
      by_cases hxm : x = m
      · exact hxm ▸ hx
      · rw [Core.not_empty_iff.2 ⟨x, (hmem x).2 ⟨hxm, hx⟩⟩] at he
        cases he
  · next he =>
    refine iff_of_false (Option.some_ne_none _) fun hall => ?_
    rw [Bool.not_eq_true] at he
    obtain ⟨x, hx⟩ := Core.not_empty_iff.1 he
    exact ((hmem x).1 hx).1 ((hall x).1 ((hmem x).1 hx).2)

theorem Reachable.removed (h : Reachable s) (hi : s.isClientIndex index = true) {p : PollFd}
    (hp : s.pollFds[index]? = some p) : s.Removed (s.removeClient index) p.fd index := by
  have hok := h.ok
  obtain ⟨q, recipients, hq, hlive, hfds, hcore, hrec, hwire⟩ :=
    h.polled.removeClient hok.membersLive hi
  rw [hp] at hq
  cases hq
  have hne : p.fd ≠ s.listenerFd := ((h.polled.live p.fd).1 hlive).2
  have hr' : Reachable (s.removeClient index) :=
    h.step (e := .remove index) (by unfold Step Server.step; dsimp only; rw [if_pos hi])
  generalize s.removeClient index = s' at *
  have hchannels (key : Text) : s'.channels[key]? =
      (s.channels[key]?).bind (purgeChannel p.fd (s.core.who p.fd).nickname) := by
    rw [show s'.channels = s'.core.channels from rfl, hcore]
    exact Core.getElem?_disconnect s.core p.fd key
  have hkept {key : Text} {c c' : Channel} (hc : s.channels[key]? = some c)
      (hc' : s'.channels[key]? = some c') : c' = Core.purged p.fd (s.core.who p.fd).nickname c := by
    rw [hchannels, hc] at hc'
    exact (Core.purgeChannel_eq_some.1 hc').1
  constructor
  case absent =>
    refine absent_of_not_live hr' ?_ ?_
    · rw [hcore, Core.live_disconnect]
      exact fun hl => hl.1 rfl
    · rw [show s'.listenerFd = s'.core.listenerFd from rfl, hcore]
      exact hne
  case uninvited =>
    intro key c' hc'
    rw [← Bool.not_eq_true, client_nickname]
    intro hinv
    by_cases hnick : (s.core.who p.fd).nickname = []
    · rw [hnick, hr'.not_invited hc'] at hinv
      cases hinv
    · have hc := hc'
      rw [hchannels] at hc
      obtain ⟨c, hc, -⟩ := Option.bind_eq_some_iff.1 hc
      rw [hkept hc hc'] at hinv
      exact (mem_purged.1 (ExtTreeSet.mem_iff_contains.2 hinv)).2.elim hnick fun hf => hf rfl
  case deleted =>
    intro key c hc
    rw [hchannels, hc]
    exact purgeChannel_eq_none (hok.channel key c hc).inhabited
  case created =>
    intro key hn
    rw [hchannels, hn]
    rfl
  case channel =>
    intro key c c' hc hc'
    rw [hkept hc hc', client_nickname]
    refine ⟨rfl, fun m hm => ?_, fun name hname => ?_⟩
    · unfold Core.purged
      rw [ExtTreeMap.getElem?_erase, if_neg (by rw [Std.compare_eq_iff_eq]; exact Ne.symm hm)]
    · rw [mem_purged]
      exact and_iff_left hname
  case entry =>
    intro key m hm
    rw [show s'.nicknameIndex = s'.core.nicknameIndex from rfl, hcore, hok.index_disconnect]
    split
    · next hlabel =>
      refine iff_of_false (by simp) fun hk => hm ?_
      exact Option.some.inj (hk.symm.trans ((hok.index key p.fd).2 hlabel))
    · exact Iff.rfl
  case others =>
    intro m hm
    rw [← live_iff_mem, ← live_iff_mem, identity_client, identity_client, hcore,
      Core.live_disconnect, Core.who_disconnect, if_neg (Ne.symm hm)]
    exact ⟨and_iff_right (Ne.symm hm), rfl⟩
  case announced => exact announced hok hrec hwire
  case pollFds =>
    rw [show s'.pollFds = s'.wire.pollFds from rfl, hwire]
    exact rewatched h.polled.nodup hrec
  case settings =>
    rw [show s'.listenerFd = s'.core.listenerFd from rfl,
      show s'.password = s'.core.password from rfl, hcore]
    exact ⟨rfl, rfl⟩

/-! ## A descriptor used again -/

/-- A connection that has just been accepted stands nowhere. -/
theorem fresh_connection (h : Reachable s) (hs : s.Step (.accept (.connected fd)) s') :
    s'.client fd = {} ∧ (∀ key : Text, s'.nicknameIndex[key]? ≠ some fd) ∧
    ∀ (key : Text) (c : Channel), s'.channels[key]? = some c →
      fd ∉ c.members ∧ c.isMemberOperator fd = false ∧
        c.isInvited (s'.client fd).nickname = false := by
  have hr' := h.step hs
  have hnew : ¬ s.core.Live fd ∧ s'.core = s.core.connect fd ∧ s'.wire = s.wire.connect fd := by
    unfold Step step at hs
    dsimp only at hs
    cases hok : s.acceptClient (.connected fd) with
    | error e => rw [hok] at hs; cases hs
    | ok s₁ =>
      rw [hok] at hs
      cases hs
      rcases acceptClient_spec hok with rfl | ⟨_, he, hnot, -, hcore, hwire⟩
      · simp only [acceptClient] at hok
        split at hok
        · cases hok
        · next hnot =>
          unfold addPollFd at hok
          split at hok
          · cases hok
          · have hlog := congrArg (fun r : Except String Server => r.toOption.map log) hok
            simp [record, Except.toOption] at hlog
      · cases he
        exact ⟨hnot, hcore, hwire⟩
  obtain ⟨hnot, hcore, hwire⟩ := hnew
  have hclient : s'.client fd = {} := by
    refine Client.ext_identity_port ?_ ?_
    · rw [identity_client, hcore]
      unfold Core.who Core.connect
      simp
      rfl
    · rw [port_client, hwire]
      unfold Wire.port Wire.connect
      simp
      rfl
  refine ⟨hclient, ?_, ?_⟩
  · intro key hk
    rw [show s'.nicknameIndex = s.nicknameIndex from congrArg Core.nicknameIndex hcore] at hk
    exact hnot (Core.live_of_label ((h.ok.index key fd).1 hk))
  · intro key c hc
    have hinv := hr'.not_invited hc
    rw [show s'.channels = s.channels from congrArg Core.channels hcore] at hc
    have hm : fd ∉ c.members := fun hm => hnot (h.ok.membersLive key c hc fd hm)
    refine ⟨hm, ?_, by rw [hclient]; exact hinv⟩
    rw [← Bool.not_eq_true]
    exact fun hop => hm ((hasMember_iff c fd).1 (isMemberOperator_hasMember hop))

/-- **A removal is complete**, and a later connection on the descriptor starts with nothing. -/
theorem removal_complete (h : Reachable s) (hi : s.isClientIndex index = true) :
    ∃ p, s.pollFds[index]? = some p ∧ s.Removed (s.removeClient index) p.fd index ∧
      ∀ s₁ s₂, Transition.Reachable Step (s.removeClient index) s₁ →
        s₁.Step (.accept (.connected p.fd)) s₂ →
        s₂.client p.fd = {} ∧ (∀ key : Text, s₂.nicknameIndex[key]? ≠ some p.fd) ∧
        ∀ (key : Text) (c : Channel), s₂.channels[key]? = some c →
          p.fd ∉ c.members ∧ c.isMemberOperator p.fd = false ∧
            c.isInvited (s₂.client p.fd).nickname = false := by
  obtain ⟨p, hp, -⟩ := (Option.any_eq_true _ _).1 hi
  refine ⟨p, hp, h.removed hi hp, fun s₁ s₂ hrun hs => fresh_connection ?_ hs⟩
  have hstep : s.Step (.remove index) (s.removeClient index) := by
    unfold Step step
    dsimp only
    rw [if_pos hi]
  obtain ⟨listenerFd, password, hr⟩ := h.step hstep
  exact ⟨listenerFd, password, hr.trans hrun⟩

/-- `al` on 5 joins `bob` on 4 in `#c`, and is sent all he is owed. -/
def company : Server :=
  (session.steps [.line 5 "JOIN #c".toList, .flush 2 (some 10000)]).getD session

theorem company_reachable : Reachable company := by
  have h : (session.steps [.line 5 "JOIN #c".toList, .flush 2 (some 10000)]).isSome = true := by
    decide +kernel
  obtain ⟨s, hs⟩ := Option.isSome_iff_exists.1 h
  rw [company, hs, Option.getD_some]
  exact session_reachable.steps hs

theorem company_peers : company.core.Peers 4 5 := by
  have hmembers : (company.channels["#c".toList]?).map (fun c => c.members.toList.map Prod.fst) =
      some [4, 5] := by decide +kernel
  generalize company = s at *
  obtain ⟨c, hc, hkeys⟩ := Option.map_eq_some_iff.1 hmembers
  have hmem {m : Fd} (hm : m ∈ [4, 5]) : m ∈ c.members := by
    rw [← ExtTreeMap.mem_keys, ← ExtTreeMap.map_fst_toList_eq_keys, hkeys]
    exact hm
  exact ⟨_, c, hc, hmem (by decide), hmem (by decide)⟩

/-- The QUIT of `bob` is queued to `al`, whose entry is armed. -/
theorem removal_complete_session :
    ∃ p, company.pollFds[1]? = some p ∧ p.fd = 4 ∧ company.Removed (company.removeClient 1) p.fd 1 ∧
      company.Queued (company.removeClient 1) 5 [company.farewell p.fd] ∧
      company.pollFds[2]? = some { fd := 5, events := { pollin := true } } ∧
      (company.removeClient 1).pollFds[1]? =
        some { fd := 5, events := { pollin := true, pollout := true } } := by
  have hview : (company.isClientIndex 1 = true ∧ (company.client 4).registered = true ∧
        company.fds[1]? = some 4) ∧
      company.pollFds[2]? = some { fd := 5, events := { pollin := true } } ∧
      (company.removeClient 1).pollFds[1]? =
        some { fd := 5, events := { pollin := true, pollout := true } } := by decide +kernel
  have hr := company_reachable
  have hpeers := company_peers
  generalize company = s at *
  obtain ⟨⟨hi, hreg, hfd⟩, hbefore, hafter⟩ := hview
  obtain ⟨p, hp, hremoved, -⟩ := removal_complete hr hi
  have hfd : p.fd = 4 := Option.some.inj ((getElem?_fds hp).symm.trans hfd)
  refine ⟨p, hp, hfd, hremoved, ?_, hbefore, hafter⟩
  exact hremoved.announced.peer (by rw [hfd]; exact hreg) 5 (by rw [hfd]; decide)
    (by rw [hfd]; exact hpeers)

end Server

end FtIrc
