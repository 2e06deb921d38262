import FtIrc.Hangups
import FtIrc.Traffic

/-!
# What the buffers hold, and how they empty

Whatever the clients and the system do, between two turns of the loop a client's buffers are
within their limits (`Loop.buffers_within`).  While a client stays connected what has been sent
to it only grows, and every turn in which `send` takes something brings it at least a byte
closer to all that was queued (`Loop.pending_drained`).
-/

namespace FtIrc

open Std

/-! ## What the history adds -/

/-- A fold that only adds at the end. -/
theorem prefix_foldl {α β : Type*} {f : List β → α → List β} {as : List α}
    (h : ∀ a ∈ as, ∀ bs, bs <+: f bs a) (bs : List β) : bs <+: as.foldl f bs := by
  induction as generalizing bs with
  | nil => exact List.prefix_rfl
  | cons a as ih =>
    exact (h a List.mem_cons_self bs).trans (ih (fun b hb => h b (List.mem_cons_of_mem _ hb)) (f bs a))

theorem sentTo_prefix {fd : Fd} {actions : List Action} (h : .accepted fd ∉ actions) (log : List Action) :
    sentTo log fd <+: sentTo (log ++ actions) fd := by
  unfold sentTo
  rw [List.foldl_append]
  refine prefix_foldl (fun a ha bytes => ?_) _
  cases a with
  | accepted x =>
    have hx : x ≠ fd := fun hx => h (hx ▸ ha)
    show bytes <+: if x = fd then [] else bytes
    rw [if_neg hx]
  | sent x more =>
    show bytes <+: if x = fd then bytes ++ more else bytes
    split
    · exact List.prefix_append bytes more
    · exact List.prefix_rfl
  | _ => exact List.prefix_rfl

theorem stream_prefix {fd : Fd} {actions : List Action} (h : .accepted fd ∉ actions) (log : List Action) :
    stream log fd <+: stream (log ++ actions) fd := by
  rw [stream_append]
  refine prefix_foldl (fun a ha lines => ?_) _
  cases a with
  | accepted x =>
    have hx : x ≠ fd := fun hx => h (hx ▸ ha)
    show lines <+: if x = fd then [] else lines
    rw [if_neg hx]
  | queued x line accepted =>
    cases accepted with
    | false => exact List.prefix_rfl
    | true =>
      show lines <+: if x = fd then lines ++ [line] else lines
      split
      · exact List.prefix_append lines [line]
      · exact List.prefix_rfl
  | _ => exact List.prefix_rfl

/-- The bytes of the lines queued to the present connection. -/
def owed (log : List Action) (fd : Fd) : Text := (stream log fd).flatMap Line.bytes

theorem owed_prefix {fd : Fd} {actions : List Action} (h : .accepted fd ∉ actions) (log : List Action) :
    owed log fd <+: owed (log ++ actions) fd := by
  obtain ⟨lines, hlines⟩ := stream_prefix h log
  unfold owed
  rw [← hlines, List.flatMap_append]
  exact List.prefix_append _ _

namespace Server

variable {s s' : Server} {e : Event} {fd m : Fd} {i i' : Nat} {k : Kernel} {p : PollFd} {data : Text}

/-! ## A client that stays -/

/-- What a step adds to the history, seen by a client: unless it is removed it stays, and it is
not accepted again. -/
theorem Reachable.stays_step (hr : Reachable s) (hs : s.Step e s') (fd : Fd) :
    ∃ actions, s'.log = s.log ++ actions ∧
      (s.core.Live fd → .removed fd ∉ actions → s'.core.Live fd ∧ .accepted fd ∉ actions) := by
  cases hs.move hr.ok.membersLive with
  | quiet hcore hquiet =>
    obtain ⟨actions, hlog, hq⟩ := hquiet.log
    exact ⟨actions, hlog, fun hfd _ => ⟨hcore ▸ hfd, fun hmem => by cases hq _ hmem⟩⟩
  | @connect x _ hnot hcore hwire =>
    refine ⟨[.accepted x], congrArg Wire.log hwire, fun hfd _ => ⟨?_, fun hmem => ?_⟩⟩
    · rw [hcore, Core.live_connect]
      exact Or.inr hfd
    · cases List.mem_singleton.1 hmem
      exact hnot hfd
  | command signals _ _ heffect hwire =>
    obtain ⟨delivered, hlog, hdelivery⟩ := Wire.log_deliver _ signals
    refine ⟨_, log_handled hwire hlog, fun hfd _ => ⟨(heffect.live fd).2 hfd, fun hmem => ?_⟩⟩
    rcases List.mem_append.1 hmem with hmem | hmem
    · simp at hmem
    · cases hdelivery _ hmem
  | @disconnect _ q _ recipients _ _ _ hcore _ hwire =>
    obtain ⟨delivered, hlog, hdelivery⟩ := s.wire.log_deliver (toAll recipients (s.quitLine q.fd))
    refine ⟨_, log_removed hwire hlog, fun hfd hstays => ⟨?_, fun hmem => ?_⟩⟩
    · rw [hcore, Core.live_disconnect]
      refine ⟨?_, hfd⟩
      rintro rfl
      exact hstays (List.mem_append_right _ List.mem_cons_self)
    · rcases List.mem_append.1 hmem with hmem | hmem
      · cases hdelivery _ hmem
      · cases List.mem_singleton.1 hmem

/-- The client on `fd` is not removed from `s` to `s'`. -/
def Stays (s s' : Server) (fd : Fd) : Prop :=
  ∃ actions, s'.log = s.log ++ actions ∧ .removed fd ∉ actions

/-- The connection on `fd` is the same in `s'` as in `s`. -/
structure StillOpen (s s' : Server) (fd : Fd) : Prop where
  live : s'.core.Live fd
  log : ∃ actions, s'.log = s.log ++ actions ∧ .accepted fd ∉ actions

theorem StillOpen.sent (h : s.StillOpen s' fd) : sentTo s.log fd <+: sentTo s'.log fd := by
  obtain ⟨actions, hlog, hacc⟩ := h.log
  rw [hlog]
  exact sentTo_prefix hacc s.log

theorem StillOpen.owed (h : s.StillOpen s' fd) : owed s.log fd <+: FtIrc.owed s'.log fd := by
  obtain ⟨actions, hlog, hacc⟩ := h.log
  rw [hlog]
  exact owed_prefix hacc s.log

theorem Reachable.log_run (hr : Reachable s) (hrun : Transition.Reachable Step s s') :
    ∃ actions, s'.log = s.log ++ actions := by
  refine (hrun.invariant (I := fun s' => Reachable s' ∧ ∃ actions, s'.log = s.log ++ actions)
    ⟨hr, [], (List.append_nil _).symm⟩ ?_).2
  rintro s₁ e s₂ - ⟨hr₁, as, has⟩ hs
  obtain ⟨bs, hbs, -⟩ := (hr₁.move hs).log
  exact ⟨hr₁.step hs, as ++ bs, by rw [hbs, has, List.append_assoc]⟩

/-- Who stays over a run stays over both parts of it. -/
theorem Stays.split {s₁ : Server} (h : s.Stays s' fd) (hr : Reachable s)
    (hrun : Transition.Reachable Step s s₁) (hrun' : Transition.Reachable Step s₁ s') :
    s.Stays s₁ fd ∧ s₁.Stays s' fd := by
  obtain ⟨actions, hlog, hnot⟩ := h
  obtain ⟨as, has⟩ := hr.log_run hrun
  obtain ⟨bs, hbs⟩ := (hr.run hrun).log_run hrun'
  rw [hbs, has, List.append_assoc] at hlog
  rw [← List.append_cancel_left hlog, List.mem_append, not_or] at hnot
  exact ⟨⟨as, has, hnot.1⟩, bs, hbs, hnot.2⟩

/-- **Who stays keeps its connection.** -/
theorem Stays.stillOpen (h : s.Stays s' fd) (hr : Reachable s) (hfd : s.core.Live fd)
    (hrun : Transition.Reachable Step s s') : s.StillOpen s' fd := by
  suffices Reachable s' ∧ Transition.Reachable Step s s' ∧ (s.Stays s' fd → s.StillOpen s' fd) from
    this.2.2 h
  refine hrun.invariant (I := fun s' => Reachable s' ∧ Transition.Reachable Step s s' ∧
    (s.Stays s' fd → s.StillOpen s' fd)) ?_ ?_
  · exact ⟨hr, .refl, fun _ => ⟨hfd, [], (List.append_nil _).symm, List.not_mem_nil⟩⟩
  · rintro s₁ e s₂ - ⟨hr₁, hrun₁, hopen⟩ hs
    refine ⟨hr₁.step hs, hrun₁.step hs, fun hstays => ?_⟩
    obtain ⟨hbefore, actions, hlog, hnot⟩ := hstays.split hr hrun₁ (Transition.Reachable.refl.step hs)
    obtain ⟨hfd₁, as, has, hacc⟩ := hopen hbefore
    obtain ⟨bs, hbs, hstep⟩ := hr₁.stays_step hs fd
    rw [List.append_cancel_left (hlog.symm.trans hbs)] at hnot
    obtain ⟨hfd₂, hacc'⟩ := hstep hfd₁ hnot
    refine ⟨hfd₂, as ++ bs, by rw [hbs, has, List.append_assoc], ?_⟩
    rw [List.mem_append, not_or]
    exact ⟨hacc, hacc'⟩

/-! ## A flush -/

theorem Reachable.conserved (hr : Reachable s) (hfd : s.core.Live fd) :
    sentTo s.log fd ++ (s.wire.port fd).outputBuffer = owed s.log fd := (hr.outbox hfd).conserved

/-- **A flush in which `send` takes something** sends a byte at least, when there is any. -/
theorem flush_sends (hfd : s.core.Live fd) (hi : s.fds[i]? = some fd) (n : Nat) :
    (s.wire.port fd).outputBuffer = [] ∨
      (sentTo s.log fd).length < (sentTo (s.flushClientOutput i (some (n + 1))).1.log fd).length := by
  obtain ⟨p, hp, rfl⟩ : ∃ p, s.pollFds[i]? = some p ∧ p.fd = fd := by simpa [fds] using hi
  obtain ⟨client, hc⟩ := Option.isSome_iff_exists.1 ((live_iff s p.fd).1 hfd)
  have hport : (s.wire.port p.fd).outputBuffer = client.outputBuffer := by
    rw [← client_outputBuffer, Server.client, show s.clients[p.fd]? = some client from hc]
    rfl
  rw [hport]
  by_cases hempty : client.outputBuffer = []
  · exact Or.inl hempty
  right
  have hlog : (s.flushClientOutput i (some (n + 1))).1.log =
      s.log ++ [.sent p.fd (client.outputBuffer.take (n + 1))] := by
    have houtput : (!client.hasOutput) = false := by simpa [Client.hasOutput] using hempty
    unfold flushClientOutput
    rw [hp]
    dsimp only
    rw [hc]
    dsimp only
    rw [houtput, if_neg Bool.false_ne_true]
    show (if (Server.client _ p.fd).hasOutput = true then (_, true)
      else (Server.disarmPollout _ i, true) : Server × Bool).1.log = _
    split <;> rfl
  have hpos : 0 < client.outputBuffer.length := List.length_pos_iff.2 hempty
  rw [hlog, sentTo_snoc]
  show _ < (if p.fd = p.fd then sentTo s.log p.fd ++ client.outputBuffer.take (n + 1)
    else sentTo s.log p.fd).length
  rw [if_pos rfl, List.length_append, List.length_take]
  omega

/-! ## Stored input -/

/-- Without input nothing is stored. -/
theorem Step.input_mute (hs : s.Step e s') (hmute : e.input? = none) (hr : Reachable s) (fd : Fd) :
    (s'.wire.port fd).inputBuffer = [] ∨
      (s'.wire.port fd).inputBuffer = (s.wire.port fd).inputBuffer := by
  by_cases hlive' : s'.core.Live fd
  swap
  · rw [port_of_not_live hlive']
    exact Or.inl rfl
  by_cases hlive : s.core.Live fd
  · right
    refine (hs.hears hr hlive ⟨by rw [hmute]; exact nofun, ?_⟩).2.input
    rintro index rfl hindex
    have hclient := isClientIndex_iff.2 ⟨fd, hindex, ((hr.polled.live fd).1 hlive).2⟩
    cases (step_remove hclient).symm.trans hs
    exact (removed_index hr hlive hindex).1 hlive'
  · left
    cases hs.move hr.ok.membersLive with
    | quiet hcore =>
      rw [hcore] at hlive'
      exact absurd hlive' hlive
    | @connect x _ _ hcore hwire =>
      rw [hcore, Core.live_connect] at hlive'
      obtain rfl : x = fd := hlive'.resolve_right hlive
      rw [hwire]
      unfold Wire.port Wire.connect
      dsimp only
      rw [if_pos rfl]
      rfl
    | command => cases hmute
    | disconnect _ _ _ _ hcore =>
      rw [hcore, Core.live_disconnect] at hlive'
      exact absurd hlive'.2 hlive

/-- No client has more input stored than the limit. -/
def Within (s : Server) : Prop := ∀ fd, (s.wire.port fd).inputBuffer.length ≤ maxPendingInput

theorem Within.step (h : s.Within) (hs : s.Step e s') (hmute : e.input? = none) (hr : Reachable s) :
    s'.Within := by
  intro fd
  rcases hs.input_mute hmute hr fd with hempty | hsame
  · rw [hempty]
    exact Nat.zero_le _
  · rw [hsame]
    exact h fd

theorem Within.mute (h : s.Within) (hrun : MuteRun s s') (hr : Reachable s) : s'.Within := by
  refine (hrun.invariant (I := fun s' => Reachable s' ∧ s'.Within) ⟨hr, h⟩ ?_).2
  rintro s₁ e s₂ - ⟨hr₁, h₁⟩ ⟨hs, hmute⟩
  exact ⟨hr₁.step hs, h₁.step hs hmute hr₁⟩

theorem Reads.input_of_ne (h : s.Reads i k p data) (hr : Reachable s) (hne : p.fd ≠ fd) :
    (((s.afterLines p data).wire.port fd).inputBuffer = [] ∨
      ((s.afterLines p data).wire.port fd).inputBuffer = (s.wire.port fd).inputBuffer) := by
  by_cases hlive : s.core.Live fd
  · exact Or.inr (hears_run hr hlive ((h.input hr).away hne)).2.input
  · rw [port_of_not_live fun hlive' => hlive (((h.lines hr).1.live fd).1 hlive')]
    exact Or.inl rfl

/-- **The limit is kept**: a read that exceeds it ends with the removal of the client. -/
theorem Reads.within (h : s.Reads i k p data) (hr : Reachable s) (hwithin : s.Within)
    (hvisit : s.visitDescriptor i k = .ok (s', i')) (hrest : MuteRun (s.afterLines p data) s') :
    s'.Within := by
  have hr₁ := hr.run (h.steps hr)
  have hothers (fd : Fd) (hne : p.fd ≠ fd) :
      ((s.afterLines p data).wire.port fd).inputBuffer.length ≤ maxPendingInput := by
    rcases h.input_of_ne hr hne with hempty | hsame
    · rw [hempty]
      exact Nat.zero_le _
    · rw [hsame]
      exact hwithin fd
  by_cases hsize : ((s.afterLines p data).wire.port p.fd).inputBuffer.length ≤ maxPendingInput
  · refine Within.mute (fun fd => ?_) hrest hr₁
    by_cases hfd : p.fd = fd
    · exact hfd ▸ hsize
    · exact hothers fd hfd
  · have hexceeds : ((s.afterLines p data).client p.fd).getInputSize > maxPendingInput := by
      show ((s.afterLines p data).client p.fd).inputBuffer.length > _
      rw [client_inputBuffer]
      omega
    have hlive : (s.afterLines p data).core.Live p.fd := ((h.lines hr).1.live p.fd).2 h.live
    have hi : (s.afterLines p data).fds[i]? = some p.fd := (h.lines hr).1.fds ▸ getElem?_fds h.entry
    rw [h.visit, decide_eq_true hexceeds] at hvisit
    cases hvisit
    intro fd
    by_cases hfd : p.fd = fd
    · subst hfd
      rw [port_of_not_live (removed_index hr₁ hlive hi).1]
      exact Nat.zero_le _
    · have hstep := step_remove (isClientIndex_iff.2 ⟨p.fd, hi, ((hr₁.polled.live p.fd).1 hlive).2⟩)
      rcases hstep.input_mute rfl hr₁ fd with hempty | hsame
      · rw [hempty]
        exact Nat.zero_le _
      · rw [hsame]
        exact hothers fd hfd

/-! ## The last flush of a visit -/

/-- What a visit that does not remove the client does last. -/
theorem visitRest_flushes (hr : Reachable s) (hfd : s.core.Live fd) (hi : s.fds[i]? = some fd)
    {events : PollEvents} (hpollout : events.pollout = true) {ok : Bool}
    (h : s.visitRest i k events ok = .ok (s', i')) (hfd' : s'.core.Live fd) :
    s' = (s.flushClientOutput i k.sent).1 := by
  have hindex := isClientIndex_iff.2 ⟨fd, hi, ((hr.polled.live fd).1 hfd).2⟩
  have hstep : s.Step (.flush i k.sent) (s.flushClientOutput i k.sent).1 := if_pos hindex
  have hgone : ¬ ((s.flushClientOutput i k.sent).1.removeClient i).core.Live fd := by
    refine (removed_index (hr.step hstep) ?_ ?_).1
    · rw [(quiet_flushClientOutput i k.sent).1]
      exact hfd
    · rw [fds_flushClientOutput]
      exact hi
  unfold visitRest at h
  rw [if_pos hpollout] at h
  split at h
  · cases h
    exact absurd hfd' (removed_index hr hfd hi).1
  dsimp only at h
  split at h
  · cases h
    exact absurd hfd' hgone
  split at h
  · cases h
    exact absurd hfd' hgone
  · cases h
    rfl

end Server

namespace Loop

variable {l l' : Loop} {k : Kernel} {ks : List Kernel} {fd : Fd}

theorem Turn.within (h : l.Turn k l') (hr : l.server.Reachable) (hwithin : l.server.Within) :
    l'.server.Within := by
  rcases h.cases hr with ⟨p, data, ⟨i, hpc, hstop, hreads⟩, hrest⟩ | ⟨-, hrun⟩
  · rcases h.visit hpc hstop with ⟨hlength, -⟩ | ⟨q, i', -, hvisit, -⟩
    · have hentry := hreads.entry
      rw [List.getElem?_eq_none hlength] at hentry
      cases hentry
    · exact hreads.within hr hwithin hvisit hrest
  · exact hwithin.mute hrun hr

/-- **Memory is bounded.**  In every state of the loop a client's buffers are within the limits,
and no complete line is stored, but of a client that is to be disconnected. -/
theorem buffers_within (hl : l.Reachable) (fd : Fd) :
    (l.server.client fd).inputBuffer.length ≤ maxPendingInput ∧
      (l.server.client fd).outputBuffer.length ≤ maxPendingOutput ∧
      ((l.server.client fd).disconnectRequested = false → '\n' ∉ (l.server.client fd).inputBuffer) := by
  have hr := reachable_server hl
  rw [Server.client_inputBuffer, Server.client_outputBuffer, Server.client_disconnectRequested]
  refine ⟨?_, ?_, hl.spent fd⟩
  · obtain ⟨listenerFd, password, hrun⟩ := hl
    have hstart : (start listenerFd password).server.Within := fun _ => Nat.zero_le _
    refine (hrun.invariant (I := fun l => l.server.Reachable ∧ l.server.Within)
      ⟨.start listenerFd password, hstart⟩ ?_).2 fd
    rintro l k l' - ⟨hr, hwithin⟩ ht
    exact ⟨hr.run (ht.steps hr), ht.within hr hwithin⟩
  · by_cases hlive : l.server.core.Live fd
    · exact (hr.outbox hlive).bounded
    · rw [Server.port_of_not_live hlive]
      exact Nat.zero_le _

theorem buffers_within_session :
    (session.server.client 4).inputBuffer.length ≤ maxPendingInput ∧
      (session.server.client 4).outputBuffer.length ≤ maxPendingOutput :=
  ⟨(buffers_within session_reachable 4).1, (buffers_within session_reachable 4).2.1⟩

/-- In this turn `POLLOUT` is reported for `fd`, and `send` takes something. -/
def flushes (l : Loop) (k : Kernel) (fd : Fd) : Bool :=
  match l.pc with
  | .visit i =>
    !k.stopRequested && (l.server.pollFds[i]?).any (fun p => p.fd == fd && p.revents.pollout) &&
      decide (0 < k.sent.getD 0)
  | _ => false

/-- How many turns flush `fd`. -/
def flushCount (fd : Fd) (l : Loop) : List Kernel → Nat
  | [] => 0
  | k :: ks =>
    match l.turn k with
    | .error _ => 0
    | .ok l' => (if l.flushes k fd then 1 else 0) + flushCount fd l' ks

theorem flushes_iff : l.flushes k fd = true ↔ ∃ i p n, l.pc = .visit i ∧ k.stopRequested = false ∧
    l.server.pollFds[i]? = some p ∧ p.fd = fd ∧ p.revents.pollout = true ∧ k.sent = some (n + 1) := by
  unfold flushes
  cases l.pc with
  | visit i =>
    simp only [Bool.and_eq_true, Bool.not_eq_true', Option.any_eq_true, beq_iff_eq, decide_eq_true_eq]
    constructor
    · rintro ⟨⟨hstop, p, hp, hfd, hout⟩, hsent⟩
      cases hk : k.sent with
      | none => rw [hk] at hsent; simp at hsent
      | some n =>
        cases n with
        | zero => rw [hk] at hsent; simp at hsent
        | succ n => exact ⟨i, p, n, rfl, hstop, hp, hfd, hout, rfl⟩
    · rintro ⟨_, p, n, ⟨⟩, hstop, hp, hfd, hout, hsent⟩
      refine ⟨⟨hstop, p, hp, hfd, hout⟩, ?_⟩
      rw [hsent]
      exact Nat.succ_pos n
  | _ => simp

/-- A turn that flushes a client that stays ends with the flush. -/
theorem Turn.flushed (h : l.Turn k l') (hr : l.server.Reachable) (hfd : l.server.core.Live fd)
    (hfd' : l'.server.core.Live fd) (hflushes : l.flushes k fd = true) :
    ∃ s i n, Transition.Reachable Server.Step l.server s ∧ s.core.Live fd ∧ s.fds[i]? = some fd ∧
      l'.server = (s.flushClientOutput i (some (n + 1))).1 := by
  obtain ⟨i, p, n, hpc, hstop, hp, rfl, hout, hsent⟩ := flushes_iff.1 hflushes
  have hi := Server.getElem?_fds hp
  have hclient := ((hr.polled.live p.fd).1 hfd).2
  rcases h.visit hpc hstop with ⟨hlength, -⟩ | ⟨q, i', hq, hvisit, -⟩
  · rw [List.getElem?_eq_none hlength] at hp
    cases hp
  obtain rfl : p = q := Option.some.inj (hp.symm.trans hq)
  generalize l'.server = s' at *
  cases Server.visit_cases hp hvisit with
  | idle hevents =>
    rw [hevents] at hout
    cases hout
  | quiet hlistener => exact absurd hlistener hclient
  | accept hlistener => exact absurd hlistener hclient
  | failed => exact absurd hfd' (Server.removed_index hr hfd hi).1
  | client _ herr hrest =>
    have hindex := Server.isClientIndex_iff.2 ⟨p.fd, hi, hclient⟩
    have hread : Transition.Reachable Server.Step l.server (l.server.visitRead i k p.revents).1 ∧
        (l.server.visitRead i k p.revents).1.core.Live p.fd ∧
        (l.server.visitRead i k p.revents).1.fds[i]? = some p.fd := by
      have hstay : Transition.Reachable Server.Step l.server l.server ∧ l.server.core.Live p.fd ∧
          l.server.fds[i]? = some p.fd := ⟨.refl, hfd, hi⟩
      unfold Server.visitRead
      split
      · rcases Server.receiveFromClient_cases l.server i k.received with hnone | ⟨q, data, hq, hfound, hdata, hne⟩
        · rw [hnone]
          exact hstay
        · obtain rfl : p = q := Option.some.inj (hp.symm.trans hq)
          rw [hdata, Server.receiveFromClient_eq hp hfound hne]
          have hsteps := (Server.afterLines_input hr hfd data).steps
          have hr₁ := hr.step (Server.step_appended hfd data)
          have hsame := (Server.same_appended (s := l.server) p data).trans
            (Server.same_handleLines hr₁ (((Server.same_appended p data).live p.fd).2 hfd)
              ((l.server.appended p data).client p.fd).getInputSize)
          exact ⟨hsteps, (hsame.live p.fd).2 hfd, hsame.fds ▸ hi⟩
      · exact hstay
    obtain ⟨hsteps, hfd₁, hi₁⟩ := hread
    refine ⟨_, i, n, hsteps, hfd₁, hi₁, ?_⟩
    rw [Server.visitRest_flushes (hr.run hsteps) hfd₁ hi₁ hout hrest hfd', hsent]

/-- **What a turn sends** to a client that stays. -/
theorem Turn.sends (h : l.Turn k l') (hr : l.server.Reachable) (hfd : l.server.core.Live fd)
    (hstays : l.server.Stays l'.server fd) (hflushes : l.flushes k fd = true) :
    (owed l.server.log fd).length ≤ (sentTo l'.server.log fd).length ∨
      (sentTo l.server.log fd).length < (sentTo l'.server.log fd).length := by
  have hfd' := (hstays.stillOpen hr hfd (h.steps hr)).live
  obtain ⟨s, i, n, hsteps, hfd₁, hi, hserver⟩ := h.flushed hr hfd hfd' hflushes
  have hr₁ := hr.run hsteps
  have hflush : Transition.Reachable Server.Step s l'.server := by
    refine Transition.Reachable.refl.step (e := .flush i (some (n + 1))) ?_
    rw [hserver]
    exact if_pos (Server.isClientIndex_iff.2 ⟨fd, hi, ((hr₁.polled.live fd).1 hfd₁).2⟩)
  obtain ⟨hbefore, hafter⟩ := hstays.split hr hsteps hflush
  have hbefore := hbefore.stillOpen hr hfd hsteps
  have hafter := hafter.stillOpen hr₁ hfd₁ hflush
  rcases Server.flush_sends hfd₁ hi n with hempty | hless
  · left
    have hall := hr₁.conserved hfd₁
    rw [hempty, List.append_nil] at hall
    exact (hbefore.owed.length_le.trans_eq (congrArg _ hall.symm)).trans hafter.sent.length_le
  · right
    rw [← hserver] at hless
    exact hbefore.sent.length_le.trans_lt hless

theorem run_steps (hr : l.server.Reachable) (hrun : l.run ks = .ok l') :
    Transition.Reachable Server.Step l.server l'.server := by
  refine ((run_turns hrun).reachable.invariant (I := fun l' => l'.server.Reachable ∧
    Transition.Reachable Server.Step l.server l'.server) ⟨hr, .refl⟩ ?_).2
  rintro l₁ k l₂ - ⟨hr₁, hsteps⟩ ht
  exact ⟨hr₁.run (ht.steps hr₁), hsteps.trans (ht.steps hr₁)⟩

theorem run_cons {l₁ : Loop} (hturn : l.turn k = .ok l₁) : l.run (k :: ks) = l₁.run ks := by
  unfold run
  rw [List.foldlM_cons, hturn]
  rfl

/-- The first turn of a run. -/
theorem exists_turn_of_run (hrun : l.run (k :: ks) = .ok l') :
    ∃ l₁, l.Turn k l₁ ∧ l₁.run ks = .ok l' := by
  cases hturn : l.turn k with
  | error what =>
    unfold run at hrun
    rw [List.foldlM_cons, hturn] at hrun
    cases hrun
  | ok l₁ => exact ⟨l₁, hturn, (run_cons hturn).symm.trans hrun⟩

theorem flushCount_cons {l₁ : Loop} (hturn : l.Turn k l₁) :
    l.flushCount fd (k :: ks) = (if l.flushes k fd then 1 else 0) + l₁.flushCount fd ks := by
  show (match l.turn k with
    | .error _ => 0
    | .ok l₁ => (if l.flushes k fd then 1 else 0) + l₁.flushCount fd ks) = _
  rw [show l.turn k = .ok l₁ from hturn]

/-- **Sending makes progress.** -/
theorem flushCount_le (hr : l.server.Reachable) (hfd : l.server.core.Live fd)
    (hrun : l.run ks = .ok l') (hstays : l.server.Stays l'.server fd) :
    min (owed l.server.log fd).length ((sentTo l.server.log fd).length + l.flushCount fd ks) ≤
      (sentTo l'.server.log fd).length := by
  induction ks generalizing l with
  | nil =>
    cases hrun
    exact Nat.min_le_right _ _
  | cons k ks ih =>
    obtain ⟨l₁, hturn, hrun⟩ := exists_turn_of_run hrun
    have hsteps := hturn.steps hr
    have hr₁ := hr.run hsteps
    obtain ⟨hfirst, hrest⟩ := hstays.split hr hsteps (run_steps hr₁ hrun)
    have hopen := hfirst.stillOpen hr hfd hsteps
    have hlater := ih hr₁ hopen.live hrun hrest
    have hsent := hopen.sent.length_le
    have howed := hopen.owed.length_le
    rw [flushCount_cons hturn]
    split
    · next hflushes =>
      have := hturn.sends hr hfd hfirst hflushes
      omega
    · omega

/-- **What is pending gets sent.**  A client that is not removed in a run is sent what was pending
for it before anything else, a byte at least in every turn in which `send` takes something. -/
theorem pending_drained (hl : l.Reachable) (hfd : l.server.core.Live fd) (hrun : l.run ks = .ok l')
    (hstays : l.server.Stays l'.server fd) :
    ∃ bytes, sentTo l'.server.log fd = sentTo l.server.log fd ++ bytes ∧
      (bytes <+: (l.server.client fd).outputBuffer ∨ (l.server.client fd).outputBuffer <+: bytes) ∧
      min (l.server.client fd).outputBuffer.length (l.flushCount fd ks) ≤ bytes.length ∧
      ((l.server.client fd).outputBuffer.length ≤ l.flushCount fd ks →
        (l.server.client fd).outputBuffer <+: bytes) := by
  have hr := reachable_server hl
  have hopen := hstays.stillOpen hr hfd (run_steps hr hrun)
  obtain ⟨bytes, hbytes⟩ := hopen.sent
  have hprogress := flushCount_le hr hfd hrun hstays
  have hpending := hr.conserved hfd
  rw [← Server.client_outputBuffer] at hpending
  rw [← hpending, ← hbytes, List.length_append, List.length_append] at hprogress
  have hprogress : min (l.server.client fd).outputBuffer.length (l.flushCount fd ks) ≤ bytes.length := by
    omega
  -- what has been sent and what was owed are beginnings of the same stream
  have hsent : sentTo l.server.log fd ++ bytes <+: owed l'.server.log fd := by
    rw [hbytes, ← (hr.run (run_steps hr hrun)).conserved hopen.live]
    exact List.prefix_append _ _
  have howed : sentTo l.server.log fd ++ (l.server.client fd).outputBuffer <+: owed l'.server.log fd := by
    rw [hpending]
    exact hopen.owed
  have horder : bytes <+: (l.server.client fd).outputBuffer ∨ (l.server.client fd).outputBuffer <+: bytes := by
    rcases List.prefix_or_prefix_of_prefix hsent howed with h | h
    · exact Or.inl ((List.prefix_append_right_inj _).1 h)
    · exact Or.inr ((List.prefix_append_right_inj _).1 h)
  refine ⟨bytes, hbytes.symm, horder, hprogress, fun hcount => ?_⟩
  rw [Nat.min_eq_left hcount] at hprogress
  rcases horder with h | h
  · rw [h.eq_of_length_le hprogress]
  · exact h

/-- A run that ends well, and in which a client is not removed. -/
theorem exists_stays (hl : l.Reachable) (hok : (l.run ks).toOption.isSome = true)
    (hnot : ∀ l' ∈ (l.run ks).toOption, .removed fd ∉ l'.server.log.drop l.server.log.length) :
    ∃ l', l' ∈ (l.run ks).toOption ∧ l.run ks = .ok l' ∧ l.server.Stays l'.server fd := by
  obtain ⟨l', hl'⟩ := Option.isSome_iff_exists.1 hok
  have hrun := run_of_mem hl'
  obtain ⟨actions, hlog⟩ := (reachable_server hl).log_run (run_steps (reachable_server hl) hrun)
  have hkept := hnot l' hl'
  rw [hlog, List.drop_left] at hkept
  exact ⟨l', hl', hrun, actions, hlog, hkept⟩

/-- All but two bytes of what is pending for `al` on 4 are sent. -/
def flushTurns : List Kernel :=
  [{ poll := .ready fun i => { pollout := i == 1 } }, ({} : Kernel), { sent := some 112 }] ++
    List.replicate 8 ({} : Kernel)

/-- He asks for more, and `send` takes one byte, and then five. -/
def drainTurns : List Kernel :=
  [{ poll := .ready fun i => { pollin := i == 1, pollout := i == 1 } }, ({} : Kernel),
    { received := some "CAP LS\n".toList, sent := some 1 }] ++ List.replicate 8 ({} : Kernel) ++
  [{ poll := .ready fun i => { pollout := i == 1 } }, ({} : Kernel), { sent := some 5 }]

theorem pending_drained_session :
    ∃ l l' bytes, session.run flushTurns = .ok l ∧ (l.server.client 4).outputBuffer = "\r\n".toList ∧
      l.run drainTurns = .ok l' ∧ sentTo l'.server.log 4 = sentTo l.server.log 4 ++ bytes ∧
      "\r\n".toList <+: bytes := by
  have hfacts : ∃ l ∈ (session.run flushTurns).toOption, (l.server.findClient 4).isSome = true ∧
      (l.server.client 4).outputBuffer = "\r\n".toList ∧ 2 ≤ l.flushCount 4 drainTurns ∧
      (l.run drainTurns).toOption.isSome = true ∧
      ∀ l' ∈ (l.run drainTurns).toOption, .removed 4 ∉ l'.server.log.drop l.server.log.length := by
    decide +kernel
  obtain ⟨l, hl, hfound, hpending, hcount, hok, hnot⟩ := hfacts
  have hrun := run_of_mem hl
  have hreach := session_reachable.turns (run_turns hrun).reachable
  obtain ⟨l', -, hrun', hstays⟩ := exists_stays hreach hok hnot
  obtain ⟨bytes, hbytes, -, -, hdrained⟩ :=
    pending_drained hreach ((Server.live_iff _ _).2 hfound) hrun' hstays
  rw [hpending] at hdrained
  exact ⟨l, l', bytes, hrun, hpending, hrun', hbytes, hdrained hcount⟩

end Loop

end FtIrc
