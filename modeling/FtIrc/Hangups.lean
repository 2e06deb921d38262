import FtIrc.Chunks

/-!
# The last bytes before a hangup

When `poll` reports `POLLIN` and `POLLHUP` together, the visit receives once, handles what is
complete and removes the client.  What the one `recv` leaves in the queue is never read
(`Loop.hangup_iff`).
-/

namespace FtIrc

open Std

namespace Server

variable {s s' : Server} {e : Event} {fd : Fd} {i : Nat} {k : Kernel} {i' : Nat}

/-! ## No complete line is left -/

theorem port_of_not_live (h : ¬ s.core.Live fd) : s.wire.port fd = {} := by
  rw [← isSome_ports, Bool.not_eq_true, Option.isSome_eq_false_iff, Option.isNone_iff_eq_none] at h
  unfold Wire.port
  rw [h]
  rfl

theorem spent_of_empty {w : Wire} (h : w.port fd = {}) : w.Spent fd := by
  intro _
  rw [h]
  exact List.not_mem_nil

theorem Step.spent (hs : s.Step e s') (hmute : e.input? = none) (hr : Reachable s)
    (hspent : ∀ fd, s.wire.Spent fd) (fd : Fd) : s'.wire.Spent fd := by
  by_cases hlive' : s'.core.Live fd
  swap
  · exact spent_of_empty (port_of_not_live hlive')
  by_cases hlive : s.core.Live fd
  · refine (hs.hears hr hlive ⟨by rw [hmute]; exact nofun, ?_⟩).2.spent (hspent fd)
    rintro index rfl hindex
    have hclient := isClientIndex_iff.2 ⟨fd, hindex, ((hr.polled.live fd).1 hlive).2⟩
    cases (step_remove hclient).symm.trans hs
    exact (removed_index hr hlive hindex).1 hlive'
  · cases hs.move hr.ok.membersLive with
    | quiet hcore =>
      rw [hcore] at hlive'
      exact absurd hlive' hlive
    | @connect x _ _ hcore hwire =>
      rw [hcore, Core.live_connect] at hlive'
      obtain rfl : x = fd := hlive'.resolve_right hlive
      refine spent_of_empty ?_
      rw [hwire]
      unfold Wire.port Wire.connect
      dsimp only
      rw [if_pos rfl]
      rfl
    | command => cases hmute
    | disconnect _ _ _ _ hcore =>
      rw [hcore, Core.live_disconnect] at hlive'
      exact absurd hlive'.2 hlive

theorem MuteRun.spent (h : MuteRun s s') (hr : Reachable s) (hspent : ∀ fd, s.wire.Spent fd) :
    Reachable s' ∧ ∀ fd, s'.wire.Spent fd := by
  refine h.invariant (I := fun s' => Reachable s' ∧ ∀ fd, s'.wire.Spent fd) ⟨hr, hspent⟩ ?_
  rintro s₁ e s₂ - ⟨hr₁, hspent₁⟩ ⟨hs, hmute⟩
  exact ⟨hr₁.step hs, hs.spent hmute hr₁ hspent₁⟩

theorem Reads.spent {p : PollFd} {data : Text} (h : s.Reads i k p data) (hr : Reachable s)
    (hspent : ∀ fd, s.wire.Spent fd) (fd : Fd) : (s.afterLines p data).wire.Spent fd := by
  by_cases hfd : p.fd = fd
  · subst hfd
    exact (takes_handleLines (hr.step h.receive) (((same_appended p data).live p.fd).2 h.live) _).2 le_rfl
  by_cases hlive : s.core.Live fd
  · exact (hears_run hr hlive ((h.input hr).away hfd)).2.spent (hspent fd)
  · refine spent_of_empty (port_of_not_live fun hlive' => hlive ?_)
    exact ((h.lines hr).1.live fd).1 hlive'

end Server

namespace Loop

variable {l l' : Loop} {k : Kernel} {i : Nat} {p : PollFd} {queue data : Text}

/-- **Between turns no complete line is left**, but of a client that is to be disconnected. -/
theorem Reachable.spent (h : l.Reachable) (fd : Fd) : l.server.wire.Spent fd := by
  have hstate : l.server.Reachable ∧ ∀ fd, l.server.wire.Spent fd := by
    obtain ⟨listenerFd, password, hr⟩ := h
    refine hr.invariant (I := fun l => l.server.Reachable ∧ ∀ fd, l.server.wire.Spent fd) ?_ ?_
    · exact ⟨.start listenerFd password, fun fd => Server.spent_of_empty rfl⟩
    · rintro l k l' - ⟨hr, hspent⟩ ht
      rcases Turn.cases ht hr with ⟨p, data, ⟨i, -, -, hreads⟩, hrest⟩ | ⟨-, hrun⟩
      · exact hrest.spent (hr.run (hreads.steps hr)) (hreads.spent hr hspent)
      · exact hrun.spent hr hspent
  exact hstate.2 fd

end Loop

/-! ## A hangup -/

namespace Server

variable {s s' : Server} {fd : Fd} {i i' : Nat} {k : Kernel} {p : PollFd}

/-- The server when the visit to `p` has received, if it does. -/
def afterReceive (s : Server) (i : Nat) (p : PollFd) (k : Kernel) : Server :=
  if p.revents.pollerr || p.revents.pollnval then s else (s.receiveFromClient i k.received).1

/-- Where nothing is received the visit removes the client. -/
theorem visit_unread (hp : s.pollFds[i]? = some p) (hclient : p.fd ≠ s.listenerFd)
    (hin : p.revents.pollin = true)
    (h : (p.revents.pollerr || p.revents.pollnval) = true ∨ s.receiveFromClient i k.received = (s, false)) :
    s.visitDescriptor i k = .ok (s.removeClient i, i) := by
  cases herr : p.revents.pollerr || p.revents.pollnval with
  | true => exact visitDescriptor_failed hp hclient herr
  | false =>
    have hevents : p.revents ≠ {} := by
      intro he
      rw [he] at hin
      cases hin
    have hread : s.visitRead i k p.revents = (s, false) := by
      unfold visitRead
      rw [if_pos hin]
      exact h.resolve_left (by rw [herr]; exact Bool.false_ne_true)
    rw [visitDescriptor_client hp hevents hclient herr, hread]
    rfl

theorem visitRest_pollhup (hr : Reachable s) (hfd : s.core.Live fd) (hi : s.fds[i]? = some fd)
    {events : PollEvents} (hhup : events.pollhup = true) {ok : Bool}
    (h : s.visitRest i k events ok = .ok (s', i')) :
    ∃ s₁, Reachable s₁ ∧ s₁.core.Live fd ∧ s₁.fds[i]? = some fd ∧ s.wire.Hears s₁.wire fd [] ∧
      s' = s₁.removeClient i := by
  have hindex := isClientIndex_iff.2 ⟨fd, hi, ((hr.polled.live fd).1 hfd).2⟩
  have hstay : Reachable s ∧ s.core.Live fd ∧ s.fds[i]? = some fd ∧ s.wire.Hears s.wire fd [] :=
    ⟨hr, hfd, hi, .refl s.wire fd⟩
  have hflushed : Reachable (if events.pollout then s.flushClientOutput i k.sent else (s, true)).1 ∧
      (if events.pollout then s.flushClientOutput i k.sent else (s, true)).1.core.Live fd ∧
      (if events.pollout then s.flushClientOutput i k.sent else (s, true)).1.fds[i]? = some fd ∧
      s.wire.Hears (if events.pollout then s.flushClientOutput i k.sent else (s, true)).1.wire fd [] := by
    split
    · have hstep : s.Step (.flush i k.sent) (s.flushClientOutput i k.sent).1 := if_pos hindex
      refine ⟨hr.step hstep, ?_, ?_, hears_flushClientOutput i k.sent fd⟩
      · rw [(quiet_flushClientOutput i k.sent).1]
        exact hfd
      · rw [fds_flushClientOutput]
        exact hi
    · exact hstay
  unfold visitRest at h
  dsimp only at h
  generalize (if events.pollout then s.flushClientOutput i k.sent else (s, true)) = flushed
    at h hflushed
  obtain ⟨hr₁, hfd₁, hi₁, hheard⟩ := hflushed
  split at h
  · cases h
    exact ⟨s, hr, hfd, hi, .refl s.wire fd, rfl⟩
  split at h
  · cases h
    exact ⟨flushed.1, hr₁, hfd₁, hi₁, hheard, rfl⟩
  · cases h
    exact ⟨flushed.1, hr₁, hfd₁, hi₁, hheard, rfl⟩

end Server

namespace Loop

/-- The visit at `i` is to a client with `POLLIN` and `POLLHUP`, whose queue in the kernel is
`queue`; `recv`, if it is called, returns `data` of it.  No disconnect is requested by then. -/
structure HangsUp (l : Loop) (k : Kernel) (i : Nat) (p : PollFd) (queue data : Text) : Prop where
  pc : l.pc = .visit i
  running : k.stopRequested = false
  entry : l.server.pollFds[i]? = some p
  client : p.fd ≠ l.server.listenerFd
  pollin : p.revents.pollin = true
  pollhup : p.revents.pollhup = true
  received : k.received = some data
  queued : data <+: queue
  buffer : data.length ≤ Server.receiveBuffer
  progress : queue ≠ [] → data ≠ []
  calm : ((l.server.afterReceive i p k).client p.fd).disconnectRequested = false

/-- What the visit leaves in the queue. -/
def unread (p : PollFd) (queue data : Text) : Text :=
  if p.revents.pollerr || p.revents.pollnval then queue else queue.drop data.length

/-- Every complete line there is when the queue is read to its end is handled before the client
is removed. -/
def HandlesAll (l l' : Loop) (fd : Fd) (queue : Text) : Prop :=
  ∃ actions, l'.server.log = l.server.log ++ (actions ++ [.removed fd]) ∧
    handedTo fd actions = (Framing.frames '\n' ((l.server.client fd).inputBuffer ++ queue)).1.map Client.stripReturn

variable {l l' : Loop} {k : Kernel} {i : Nat} {p : PollFd} {queue data : Text}

/-- The visit handles the frames of what it reads, and removes the client. -/
theorem HangsUp.visit (h : l.HangsUp k i p queue data) (hl : l.Reachable) (ht : l.Turn k l') :
    ∃ (s₁ : Server) (frames : List Text) (read : Text), read ++ unread p queue data = queue ∧
      l.server.wire.Takes s₁.wire p.fd read frames ∧ '\n' ∉ (s₁.wire.port p.fd).inputBuffer ∧
      s₁.Reachable ∧ s₁.core.Live p.fd ∧ s₁.fds[i]? = some p.fd ∧
      l'.server = s₁.removeClient i := by
  have hr := reachable_server hl
  have hspent := hl.spent
  obtain ⟨hpc, hstop, hp, hclient, hin, hhup, hdata, hqueued, -, -, hcalm⟩ := h
  obtain ⟨s, pc⟩ := l
  obtain rfl : pc = .visit i := hpc
  dsimp only at hr hp hclient hcalm hspent
  have hi := Server.getElem?_fds hp
  have hfd := (hr.polled.live p.fd).2 ⟨List.mem_of_getElem? hi, hclient⟩
  obtain ⟨next, i', -, hvisit, -⟩ := (ht.visit rfl hstop).resolve_left fun hend => by
    have := (List.getElem?_eq_some_iff.1 hp).1
    have := hend.1
    dsimp only at this
    omega
  -- nothing is received
  have hnone {left : Text} (hleft : [] ++ left = queue) (hcalm : (s.client p.fd).disconnectRequested = false)
      (hunread : (p.revents.pollerr || p.revents.pollnval) = true ∨
        s.receiveFromClient i k.received = (s, false)) :
      ∃ (s₁ : Server) (frames : List Text) (read : Text), read ++ left = queue ∧
        s.wire.Takes s₁.wire p.fd read frames ∧ '\n' ∉ (s₁.wire.port p.fd).inputBuffer ∧
        s₁.Reachable ∧ s₁.core.Live p.fd ∧ s₁.fds[i]? = some p.fd ∧ l'.server = s₁.removeClient i := by
    rw [Server.visit_unread hp hclient hin hunread] at hvisit
    have hserver : s.removeClient i = l'.server := congrArg Prod.fst (Except.ok.inj hvisit)
    rw [Server.client_disconnectRequested] at hcalm
    exact ⟨s, [], [], hleft, (Wire.Hears.refl s.wire p.fd).takes, hspent p.fd hcalm, hr, hfd, hi,
      hserver.symm⟩
  unfold Server.afterReceive at hcalm
  unfold unread
  by_cases herr : (p.revents.pollerr || p.revents.pollnval) = true
  · rw [if_pos herr] at hcalm ⊢
    exact hnone rfl hcalm (Or.inl herr)
  rw [if_neg herr] at hcalm ⊢
  have hread : data ++ queue.drop data.length = queue := by
    obtain ⟨rest, rfl⟩ := hqueued
    rw [List.drop_left]
  cases data with
  | nil =>
    have hreceive : s.receiveFromClient i k.received = (s, false) := by
      unfold Server.receiveFromClient
      rw [hp, hdata]
      dsimp only
      split <;> rfl
    rw [hreceive] at hcalm
    exact hnone hread hcalm (Or.inr hreceive)
  | cons x xs =>
    simp only [Bool.or_eq_true, not_or, Bool.not_eq_true] at herr
    have hreads : s.Reads i k p (x :: xs) := ⟨hp, hclient, (Server.live_iff s p.fd).1 hfd, hin, herr.1, herr.2, hdata, nofun⟩
    have hreceive := Server.receiveFromClient_eq hp hreads.found hreads.nonempty
    rw [← hdata] at hreceive
    obtain ⟨⟨hr₁, hfd₁⟩, ⟨frames, htakes⟩, hspent₁, -⟩ :=
      Server.takes_receive hr hfd hi hreads.nonempty (hdata ▸ hreceive)
    have hi₁ : (s.afterLines p (x :: xs)).fds[i]? = some p.fd := by
      rw [(hreads.lines hr).1.fds]
      exact hi
    rw [hreads.visit] at hvisit
    obtain ⟨s₂, hr₂, hfd₂, hi₂, hheard, hremoved⟩ := Server.visitRest_pollhup hr₁ hfd₁ hi₁ hhup hvisit
    rw [hreceive, Server.client_disconnectRequested] at hcalm
    refine ⟨s₂, frames, x :: xs, hread, ?_, ?_, hr₂, hfd₂, hi₂, hremoved⟩
    · simpa using htakes.trans hheard.takes
    · rw [hheard.input]
      exact hspent₁ hcalm

theorem HangsUp.handlesAll_iff (h : l.HangsUp k i p queue data) (hl : l.Reachable) (ht : l.Turn k l') :
    l'.server.clients[p.fd]? = none ∧ (l.HandlesAll l' p.fd queue ↔ '\n' ∉ unread p queue data) := by
  obtain ⟨s₁, frames, read, hqueue, htakes, hrest, hr₁, hfd₁, hi₁, hserver⟩ := h.visit hl ht
  obtain ⟨hgone, removal, hremoved, hnone⟩ := Server.removed_index hr₁ hfd₁ hi₁
  obtain ⟨actions, hlog, hframes⟩ := htakes.log
  have hgone' : l'.server.clients[p.fd]? = none := by
    rw [hserver]
    rw [Server.live_iff, Bool.not_eq_true, Option.isSome_eq_false_iff, Option.isNone_iff_eq_none] at hgone
    exact hgone
  have hlog' : l'.server.log = l.server.log ++ (actions ++ removal ++ [.removed p.fd]) := by
    rw [hserver, hremoved, show s₁.log = _ from hlog, List.append_assoc, List.append_assoc]
    rfl
  have hhanded : handedTo p.fd (actions ++ removal) = frames.map Client.stripReturn := by
    rw [handedTo_append, hframes, hnone, List.append_nil]
  have hall : (Framing.frames '\n' ((l.server.client p.fd).inputBuffer ++ queue)).1 =
      frames ++ (Framing.frames '\n' ((s₁.wire.port p.fd).inputBuffer ++ unread p queue data)).1 := by
    have hinput : (l.server.client p.fd).inputBuffer ++ queue =
        frames.flatMap (· ++ ['\n']) ++ ((s₁.wire.port p.fd).inputBuffer ++ unread p queue data) := by
      rw [← List.append_assoc, ← htakes.input, List.append_assoc, hqueue, Server.client_inputBuffer]
    rw [hinput, Framing.frames_flatMap_append htakes.noFeed]
  refine ⟨hgone', ?_⟩
  have hiff : l.HandlesAll l' p.fd queue ↔
      (Framing.frames '\n' ((s₁.wire.port p.fd).inputBuffer ++ unread p queue data)).1 = [] := by
    unfold HandlesAll
    rw [hall, List.map_append]
    constructor
    · rintro ⟨actions', hlog'', hhanded'⟩
      have hsame := List.append_cancel_right (List.append_cancel_left (hlog'.symm.trans hlog''))
      rw [← hsame, hhanded, List.self_eq_append_right] at hhanded'
      exact List.map_eq_nil_iff.1 hhanded'
    · intro hnil
      rw [hnil]
      exact ⟨actions ++ removal, hlog', hhanded.trans (List.append_nil _).symm⟩
  rw [hiff, Framing.frames_eq_nil, List.mem_append, not_or, and_iff_right hrest]

/-- **A hangup loses the lines that the one receive leaves in the queue**, and only them. -/
theorem hangup_iff (hl : l.Reachable) (ht : l.Turn k l') (h : l.HangsUp k i p queue data) :
    l'.server.clients[p.fd]? = none ∧ (l.HandlesAll l' p.fd queue ↔ '\n' ∉ unread p queue data) :=
  h.handlesAll_iff hl ht

/-! ## Who hangs up -/

/-- The client at index `i` hangs up, and nobody else is ready. -/
def hup (i : Nat) : Nat → PollEvents :=
  fun j => if j = i then { pollin := true, pollhup := true } else {}

theorem exists_hangsUp {s : Server} {fd : Fd} (hl : Reachable ⟨s, .poll⟩) (hi : s.fds[i]? = some fd)
    (hclient : fd ≠ s.listenerFd) (hqueued : data <+: queue) (hbuffer : data.length ≤ Server.receiveBuffer)
    (hdata : data ≠ [])
    (hcalm : (((s.setRevents (hup i)).receiveFromClient i (some data)).1.client fd).disconnectRequested = false) :
    Reachable ⟨s.setRevents (hup i), .visit i⟩ ∧ ∃ p l', p.fd = fd ∧
      unread p queue data = queue.drop data.length ∧
      Turn ⟨s.setRevents (hup i), .visit i⟩ { received := some data } l' ∧
      HangsUp ⟨s.setRevents (hup i), .visit i⟩ { received := some data } i p queue data := by
  have hlt := (List.getElem?_eq_some_iff.1 hi).1
  have hrevents {j : Nat} (hj : j < s.fds.length) := Server.getElem?_revents (s := s) hj (hup i)
  have hpoll := hl.turn (turn_poll (hup i) hlt (by simp [hup]))
  have hvisit : Reachable ⟨s.setRevents (hup i), .visit i⟩ := by
    refine hpoll.turns (visits_idle (Nat.zero_le i) fun j _ hj => ?_)
    rw [hrevents (by omega), hup, if_neg (by omega)]
  obtain ⟨p, rfl, hevents, hreads⟩ := reads_of_revents (reachable_server hvisit)
    (by rw [Server.fds_setRevents]; exact hi) hclient (by rw [hrevents hlt, hup, if_pos rfl]) rfl rfl rfl data hdata
  have herr : (p.revents.pollerr || p.revents.pollnval) = false := by rw [hevents]; rfl
  obtain ⟨l', ht⟩ := exists_turn_reads hreads rfl
  refine ⟨hvisit, p, l', rfl, ?_, ht, rfl, rfl, hreads.entry, hreads.client, hreads.pollin, ?_, rfl,
    hqueued, hbuffer, fun _ => hdata, ?_⟩
  · rw [unread, herr]
    rfl
  · rw [hevents]
  · rw [Server.afterReceive, herr]
    exact hcalm

/-- `al` sends a line and hangs up. -/
theorem hangup_iff_session :
    ∃ l l', Reachable l ∧ Turn l { received := some "PING b\n".toList } l' ∧
      l.HandlesAll l' 4 "PING b\n".toList := by
  obtain ⟨s, hl, hfds, hcore, hcalm⟩ : ∃ s, Reachable ⟨s, .poll⟩ ∧ s.fds = [3, 4, 5, 6] ∧
      SessionCore s.core ∧ (((s.setRevents (hup 1)).receiveFromClient 1
        (some "PING b\n".toList)).1.client 4).disconnectRequested = false :=
    ⟨session.server, eq_of_pc session_facts.1 ▸ session_reachable, session_facts.2.1,
      session_facts.2.2.1, by decide +kernel⟩
  obtain ⟨hvisit, p, l', hp, hunread, ht, hhup⟩ := exists_hangsUp (i := 1) hl (by rw [hfds]; rfl)
    (by rw [show s.listenerFd = 3 from hcore.listenerFd]; decide) (List.prefix_refl _) (by decide)
    (by decide) hcalm
  refine ⟨_, l', hvisit, ht, ?_⟩
  rw [← hp]
  exact (hangup_iff hvisit ht hhup).2.2 (by rw [hunread]; decide)

/-- A read that completes nothing requests nothing. -/
theorem calm_of_noFeed {s : Server} {fd : Fd} (hr : s.Reachable) (hi : s.fds[i]? = some fd)
    (hclient : fd ≠ s.listenerFd) (hinput : (s.client fd).inputBuffer = [])
    (hflag : (s.client fd).disconnectRequested = false) (hdata : data ≠ []) (hfeed : '\n' ∉ data) :
    ((s.receiveFromClient i (some data)).1.client fd).disconnectRequested = false := by
  have hfd := (hr.polled.live fd).2 ⟨List.mem_of_getElem? hi, hclient⟩
  obtain ⟨p, hp, rfl⟩ : ∃ p, s.pollFds[i]? = some p ∧ p.fd = fd := by simpa [Server.fds] using hi
  have happended : (s.appended p data).client p.fd = (s.client p.fd).appendInput data :=
    Server.client_modifyClient hfd _
  have hpop : ((s.appended p data).client p.fd).popLine = none := by
    rw [happended, Client.popLine_eq_none]
    unfold Client.appendInput
    rw [hinput]
    exact hfeed
  rw [Server.receiveFromClient_eq hp ((Server.live_iff s p.fd).1 hfd) hdata]
  unfold Server.afterLines
  rw [Server.handleLines_none hpop, happended]
  exact hflag

/-- One buffer full of a line, which goes on behind it. -/
def longWord : Text := List.replicate Server.receiveBuffer 'a'

/-- `al` sends more than the buffer takes and hangs up: its last two lines are not handled. -/
theorem hangup_long : ¬ ∀ (l l' : Loop) (k : Kernel) (i : Nat) (p : PollFd) (queue data : Text),
    l.Reachable → l.Turn k l' → l.HangsUp k i p queue data →
    Framing.Within '\n' maxPendingInput ((l.server.client p.fd).inputBuffer ++ queue) →
    l.HandlesAll l' p.fd queue := by
  intro hall
  obtain ⟨s, hl, hfds, hcore, hrest⟩ := exists_session
  have hr := reachable_server hl
  have hi : s.fds[1]? = some 4 := by rw [hfds]; rfl
  have hclient : 4 ≠ s.listenerFd := by rw [show s.listenerFd = 3 from hcore.listenerFd]; decide
  have hfeed : '\n' ∉ longWord := by
    intro hmem
    exact absurd (List.eq_of_mem_replicate hmem) (by decide)
  have hlength : longWord.length = Server.receiveBuffer := List.length_replicate
  have hword : longWord ≠ [] := by
    rw [← List.length_pos_iff, hlength]
    decide
  have hcalm := calm_of_noFeed (s := s.setRevents (hup 1)) (hr.step (e := .poll (hup 1)) rfl)
    (by rw [Server.fds_setRevents]; exact hi) hclient (hrest.1 4)
    (Server.noneMarked_iff_flag.1 hrest.2 4) hword hfeed
  have hqueued : longWord <+: longWord ++ '\n' :: "PING b\n".toList := List.prefix_append _ _
  obtain ⟨hvisit, p, l', hp, hunread, ht, hhup⟩ := exists_hangsUp hl hi hclient hqueued hlength.le hword hcalm
  have hhandles := hall _ _ _ _ _ _ _ hvisit ht hhup (by
    rw [show ((s.setRevents (hup 1)).client p.fd).inputBuffer = [] from hrest.1 p.fd, List.nil_append]
    unfold Framing.Within
    rw [Framing.frames_append hfeed]
    refine ⟨?_, by decide⟩
    rw [List.forall_mem_cons, hlength]
    exact ⟨by decide, by decide⟩)
  rw [(hhup.handlesAll_iff hvisit ht).2, hunread, List.drop_left] at hhandles
  exact hhandles List.mem_cons_self

end Loop

end FtIrc
