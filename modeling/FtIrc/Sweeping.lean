import FtIrc.Passes

/-!
# No marked client at `poll`

`removeDisconnectedClients` looks at every index once, upwards.  Each removal relays a QUIT
line, and the relay marks a client whose output buffer has no room for it.  A client marked
so at an index already passed is still there when the loop calls `poll`
(`Loop.no_marked_at_poll`).
-/

namespace FtIrc

open Std

namespace Wire

variable {w : Wire} {m : Fd}

/-- One line to each of several clients marks those who have no room for it. -/
theorem flag_toAll {fds : List Fd} (hnodup : fds.Nodup) (hlive : (w.ports m).isSome) (line : Line) :
    ((w.deliver (toAll fds line)).port m).disconnectRequested = true ↔
      (w.port m).disconnectRequested = true ∨ m ∈ fds ∧ ¬ (w.port m).Fits line.bytes := by
  induction fds generalizing w with
  | nil => simp
  | cons fd fds ih =>
    obtain ⟨hnot, hnodup⟩ := List.nodup_cons.1 hnodup
    rw [toAll_cons, deliver_cons, signal_line]
    by_cases hfd : fd = m
    · subst hfd
      have hrest (x : Signal) (hx : x ∈ toAll fds line) : x.fd ≠ fd := by
        rintro rfl
        exact hnot (fd_toAll hx)
      rw [port_deliver_of_ne _ hrest, flag_queueLine w hlive]
      simp
    · have hport : (w.queueLine fd line).port m = w.port m :=
        port_signal_of_ne w (x := .line fd line) hfd
      rw [ih hnodup (by rw [← signal_line, isSome_signal]; exact hlive), hport]
      simp [Ne.symm hfd]

end Wire

namespace Server

variable {s : Server} {m : Fd} {i : Nat}

/-- The client on `m` is told of the removal of the client on `fd`, and has no room for it. -/
def Overrun (s : Server) (fd m : Fd) : Prop :=
  (s.client fd).registered = true ∧ m ∈ s.quitRecipients fd ∧
    ¬ (s.client m).port.Fits (s.quitLine fd).bytes

/-- A removal marks the clients it overruns and no others. -/
theorem Polled.flag_removeClient (h : s.Polled) (hlive : s.core.MembersLive) {p : PollFd}
    (hp : s.pollFds[i]? = some p) (hclient : p.fd ≠ s.listenerFd) (hm : p.fd ≠ m) :
    ((s.removeClient i).client m).disconnectRequested = true ↔
      (s.client m).disconnectRequested = true ∨ s.Overrun p.fd m := by
  obtain ⟨q, recipients, hq, -, -, hcore, ⟨hnodup, hrec⟩, hwire⟩ :=
    h.removeClient hlive (isClientIndex_iff.2 ⟨p.fd, getElem?_fds hp, hclient⟩)
  obtain rfl : p = q := Option.some.inj (hp.symm.trans hq)
  have hmem : m ∈ recipients ↔ (s.client p.fd).registered = true ∧ m ∈ s.quitRecipients p.fd := by
    rw [hrec, mem_quitRecipients, client_registered]
  by_cases hm' : s.core.Live m
  · have hport : (s.removeClient i).wire.port m =
        (s.wire.deliver (toAll recipients (s.quitLine p.fd))).port m := by
      rw [hwire, Wire.port_disconnect_of_ne _ hm]
    rw [client_disconnectRequested, hport, Wire.flag_toAll hnodup ((isSome_ports s m).2 hm'), hmem,
      client_disconnectRequested, and_assoc, ← port_client]
    rfl
  · refine iff_of_false ?_ ?_
    · intro hflag
      have := live_of_flag hflag
      rw [hcore, Core.live_disconnect] at this
      exact hm' this.2
    · rintro (hflag | ⟨-, hpeer, -⟩)
      · exact hm' (live_of_flag hflag)
      · exact hm' (live_of_peers s p.fd hlive ((mem_quitRecipients _ _ _).1 hpeer).1)

/-! ## By index -/

/-- The removal at index `i` overruns the client at `index`. -/
def OverrunAt (s : Server) (i index : Nat) : Prop :=
  ∃ p fd, s.pollFds[i]? = some p ∧ s.fds[index]? = some fd ∧ s.Overrun p.fd fd

/-- Removing the client at `i` moves nobody below `i`, and marks whom it overruns. -/
theorem markedAt_removeClient (hr : Reachable s) {p : PollFd}
    (hp : s.pollFds[i]? = some p) (hclient : p.fd ≠ s.listenerFd) {index : Nat} (hlt : index < i) :
    (s.removeClient i).MarkedAt index ↔ s.MarkedAt index ∨ s.OverrunAt i index := by
  have hi := isClientIndex_iff.2 ⟨p.fd, getElem?_fds hp, hclient⟩
  obtain ⟨-, -, -, -, hfds, -⟩ := hr.polled.removeClient hr.ok.membersLive hi
  have hbelow : (s.removeClient i).fds[index]? = s.fds[index]? := by
    rw [hfds, List.getElem?_eraseIdx_of_lt hlt]
  have hother {fd : Fd} (hfd : s.fds[index]? = some fd) : p.fd ≠ fd := by
    rintro rfl
    exact absurd (index_unique hr.polled.nodup (getElem?_fds hp) hfd) (by omega)
  have hflag {fd : Fd} (hfd : s.fds[index]? = some fd) :=
    hr.polled.flag_removeClient hr.ok.membersLive hp hclient (hother hfd)
  unfold MarkedAt OverrunAt
  rw [hbelow]
  constructor
  · rintro ⟨fd, hfd, hmarked⟩
    rcases (hflag hfd).1 hmarked with hmarked | hover
    · exact Or.inl ⟨fd, hfd, hmarked⟩
    · exact Or.inr ⟨p, fd, hp, hfd, hover⟩
  · rintro (⟨fd, hfd, hmarked⟩ | ⟨q, fd, hq, hfd, hover⟩)
    · exact ⟨fd, hfd, (hflag hfd).2 (Or.inl hmarked)⟩
    · obtain rfl : p = q := Option.some.inj (hp.symm.trans hq)
      exact ⟨fd, hfd, (hflag hfd).2 (Or.inr hover)⟩

end Server

namespace Loop

variable {l l' : Loop} {k : Kernel} {i : Nat}

/-! ## The passed part of a sweep -/

/-- A client at an index the sweep has passed is to be disconnected. -/
def Passed (l : Loop) : Prop := ∃ i index, l.pc = .sweep i ∧ index < i ∧ l.server.MarkedAt index

/-- The sweep removes the client at its index, and the QUIT line overruns a client at an
index already passed. -/
def Overruns (l : Loop) : Prop :=
  ∃ i p index, l.pc = .sweep i ∧ l.server.pollFds[i]? = some p ∧
    (l.server.client p.fd).disconnectRequested = true ∧ index < i ∧ l.server.OverrunAt i index

theorem passed_iff (hpc : l.pc = .sweep i) : l.Passed ↔ ∃ index < i, l.server.MarkedAt index := by
  constructor
  · rintro ⟨i', index, hpc', hlt, hmarked⟩
    obtain rfl : i = i' := by simpa [hpc] using hpc'
    exact ⟨index, hlt, hmarked⟩
  · rintro ⟨index, hlt, hmarked⟩
    exact ⟨i, index, hpc, hlt, hmarked⟩

theorem not_passed (hpc : ∀ i, l.pc ≠ .sweep i) : ¬ l.Passed := by
  rintro ⟨i, _, h, -⟩
  exact hpc i h

theorem overruns_iff (hpc : l.pc = .sweep i) :
    l.Overruns ↔ ∃ p, l.server.pollFds[i]? = some p ∧
      (l.server.client p.fd).disconnectRequested = true ∧
      ∃ index < i, l.server.OverrunAt i index := by
  constructor
  · rintro ⟨i', p, index, hpc', hp, hflag, hlt, hover⟩
    obtain rfl : i = i' := by simpa [hpc] using hpc'
    exact ⟨p, hp, hflag, index, hlt, hover⟩
  · rintro ⟨p, hp, hflag, index, hlt, hover⟩
    exact ⟨i, p, index, hpc, hp, hflag, hlt, hover⟩

/-- A sweep passes a marked client only by overrunning it, and then ends with it. -/
theorem Turn.passed (h : l.Turn k l') (hr : l.server.Reachable) (hpc : l.pc = .sweep i) :
    (l'.Passed ∨ l'.pc = .poll ∧ ¬ l'.server.NoneMarked) ↔ l.Passed ∨ l.Overruns := by
  rw [passed_iff hpc, overruns_iff hpc]
  rcases h.sweep hpc hr with ⟨hpoll, heq, hend⟩ | ⟨hpc', heq, fd, hfd, hflag⟩ |
    ⟨p, hp, hclient, hflag, hpc', heq⟩
  · have hout : l.server.pollFds[i]? = none := by
      rw [List.getElem?_eq_none_iff]
      simpa [Server.fds] using hend
    rw [heq, Server.noneMarked_iff hr, hout]
    simp only [not_passed (l := l') (by simp [hpoll]), hpoll, true_and, false_or, reduceCtorEq,
      false_and, exists_false, or_false, not_forall, not_not]
    constructor
    · rintro ⟨index, fd, hfd, hflag⟩
      exact ⟨index, by have := (List.getElem?_eq_some_iff.1 hfd).1; omega, fd, hfd, hflag⟩
    · rintro ⟨index, -, hmarked⟩
      exact ⟨index, hmarked⟩
  · have hunmarked : ¬ l.server.MarkedAt i := by
      rintro ⟨fd', hfd', hflag'⟩
      obtain rfl : fd = fd' := Option.some.inj (hfd.symm.trans hfd')
      rw [hflag] at hflag'
      cases hflag'
    rw [passed_iff hpc', heq]
    constructor
    · rintro (⟨index, hlt, hmarked⟩ | ⟨hpoll, -⟩)
      · refine Or.inl ⟨index, ?_, hmarked⟩
        rcases Nat.lt_succ_iff_lt_or_eq.1 hlt with hlt | rfl
        · exact hlt
        · exact absurd hmarked hunmarked
      · rw [hpc'] at hpoll
        cases hpoll
    · rintro (⟨index, hlt, hmarked⟩ | ⟨p, hp, hflag', -⟩)
      · exact Or.inl ⟨index, by omega, hmarked⟩
      · exact absurd ⟨p.fd, Server.getElem?_fds hp, hflag'⟩ hunmarked
  · rw [passed_iff hpc', heq]
    have hbelow {index : Nat} (hlt : index < i) :=
      Server.markedAt_removeClient hr hp hclient hlt
    constructor
    · rintro (⟨index, hlt, hmarked⟩ | ⟨hpoll, -⟩)
      · rcases (hbelow hlt).1 hmarked with hmarked | hover
        · exact Or.inl ⟨index, hlt, hmarked⟩
        · exact Or.inr ⟨p, hp, hflag, index, hlt, hover⟩
      · rw [hpc'] at hpoll
        cases hpoll
    · rintro (⟨index, hlt, hmarked⟩ | ⟨-, -, -, index, hlt, hover⟩)
      · exact Or.inl ⟨index, hlt, (hbelow hlt).2 (Or.inl hmarked)⟩
      · exact Or.inl ⟨index, hlt, (hbelow hlt).2 (Or.inr hover)⟩

/-! ## Whole runs -/

/-- A turn that leaves no marked client to `poll`. -/
def Settles (l : Loop) (k : Kernel) (l' : Loop) : Prop :=
  l.Turn k l' ∧ (l'.pc = .poll → l'.server.NoneMarked)

/-- A turn whose removal, if it removes a client, overruns nobody at an index passed. -/
def Spares (l : Loop) (k : Kernel) (l' : Loop) : Prop := l.Turn k l' ∧ ¬ l.Overruns

/-- Outside a sweep the loop only starts one, or calls `poll` again at once. -/
theorem Turn.outside (h : l.Turn k l') (hpc : ∀ i, l.pc ≠ .sweep i) :
    (∀ i, l'.pc = .sweep i → i = 0) ∧
      (l'.pc = .poll → l.pc = .poll ∧ l'.server.clients = l.server.clients) := by
  obtain ⟨s, pc⟩ := l
  unfold Turn turn at h
  cases pc with
  | stopped =>
    cases h
    exact ⟨nofun, nofun⟩
  | poll =>
    dsimp only at h
    split at h
    · cases h
      exact ⟨nofun, nofun⟩
    split at h
    · cases h
      exact ⟨nofun, nofun⟩
    · cases h
    · split at h
      · cases h
        exact ⟨nofun, fun _ => ⟨rfl, rfl⟩⟩
      · cases h
        exact ⟨nofun, nofun⟩
  | sweep i => exact absurd rfl (hpc i)
  | visit i =>
    dsimp only at h
    split at h
    · cases hv : s.visitDescriptor i k with
      | error e => rw [hv] at h; cases h
      | ok next =>
        rw [hv] at h
        cases h
        exact ⟨nofun, nofun⟩
    · cases h
      refine ⟨?_, nofun⟩
      rintro i ⟨⟩
      rfl

/-- No marked client is passed, and none is left to `poll`. -/
def Clear (l : Loop) : Prop := ¬ l.Passed ∧ (l.pc = .poll → l.server.NoneMarked)

theorem Clear.turn (hclear : l.Clear) (hr : l.server.Reachable) (h : l.Turn k l') :
    l'.Clear ↔ ¬ l.Overruns := by
  by_cases hpc : ∃ i, l.pc = .sweep i
  · obtain ⟨i, hpc⟩ := hpc
    have hpassed := h.passed hr hpc
    rw [or_iff_right hclear.1] at hpassed
    rw [← hpassed, not_or, not_and, not_not]
    exact Iff.rfl
  · push Not at hpc
    obtain ⟨hstart, hpoll⟩ := h.outside hpc
    refine iff_of_true ⟨?_, ?_⟩ ?_
    · rintro ⟨i, index, hsweep, hlt, -⟩
      rw [hstart i hsweep] at hlt
      omega
    · intro hpoll'
      obtain ⟨hpc', hclients⟩ := hpoll hpoll'
      unfold Server.NoneMarked
      rw [hclients]
      exact hclear.2 hpc'
    · rintro ⟨i, -, -, hsweep, -⟩
      exact hpc i hsweep

theorem clear_start (listenerFd : Fd) (password : Text) : (start listenerFd password).Clear := by
  refine ⟨not_passed nofun, ?_⟩
  intro _ fd c hc
  simp [start, Server.start] at hc

/-- Once the sweep has passed a marked client, no run settles until it is over. -/
theorem Settles.passed (h : l.Settles k l') (hr : l.server.Reachable) (hpassed : l.Passed) :
    l'.Passed := by
  have ⟨i, _, hpc, _⟩ := hpassed
  rcases (h.1.passed hr hpc).2 (Or.inl hpassed) with hpassed | ⟨hpoll, hmarked⟩
  · exact hpassed
  · exact absurd (h.2 hpoll) hmarked

/-- A sweep that has passed a marked client, or is about to, ends with one. -/
theorem ends_marked (hr : l.server.Reachable) (hpc : l.pc = .sweep i)
    (hbad : l.Passed ∨ l.Overruns) :
    ∃ l', Transition.Reachable Turn l l' ∧ l'.pc = .poll ∧ ¬ l'.server.NoneMarked := by
  induction hleft : l.server.fds.length - i using Nat.strong_induction_on generalizing l i with
  | _ left ih =>
    obtain ⟨s, pc⟩ := l
    obtain rfl : pc = .sweep i := hpc
    obtain ⟨l', ht⟩ := exists_turn_sweep s i
    rcases (ht.passed hr rfl).2 hbad with hpassed | hend
    · have hr' := reachable_of_turns hr (Transition.Reachable.refl.step ht)
      have hnext : ∃ i', l'.pc = .sweep i' ∧ l'.server.fds.length - i' < left := by
        rcases ht.sweep rfl hr with ⟨hpoll, -, -⟩ | ⟨hpc', heq, fd, hfd, -⟩ |
          ⟨p, hp, hclient, -, hpc', heq⟩
        · exact absurd hpassed (not_passed (by simp [hpoll]))
        · have hlt := (List.getElem?_eq_some_iff.1 hfd).1
          refine ⟨i + 1, hpc', ?_⟩
          rw [heq]
          dsimp only at hleft hlt ⊢
          omega
        · have hfd := Server.getElem?_fds hp
          have hlt := (List.getElem?_eq_some_iff.1 hfd).1
          obtain ⟨-, -, -, -, hfds, -⟩ := hr.polled.removeClient hr.ok.membersLive
            (Server.isClientIndex_iff.2 ⟨p.fd, hfd, hclient⟩)
          refine ⟨i, hpc', ?_⟩
          rw [heq, hfds, List.length_eraseIdx_of_lt hlt]
          dsimp only at hleft hlt ⊢
          omega
      obtain ⟨i', hpc', hless⟩ := hnext
      obtain ⟨l'', hrun, hend⟩ := ih _ hless hr' hpc' (Or.inl hpassed) rfl
      exact ⟨l'', (Transition.Reachable.refl.step ht).trans hrun, hend⟩
    · exact ⟨l', Transition.Reachable.refl.step ht, hend⟩

section Runs

variable {listenerFd : Fd} {password : Text} {ks : List Kernel}

theorem settles_of_spares (h : Transition.Run Spares (start listenerFd password) ks l) :
    Transition.Run Settles (start listenerFd password) ks l ∧ l.Clear := by
  induction h with
  | nil => exact ⟨.nil, clear_start listenerFd password⟩
  | @snoc ks l k l' hrun ht ih =>
    have hr := reachable_of_run (fun _ _ _ ht => ht.1) hrun
    have hclear := (ih.2.turn hr ht.1).2 ht.2
    exact ⟨ih.1.snoc ⟨ht.1, hclear.2⟩, hclear⟩

theorem spares_of_settles (h : Transition.Run Settles (start listenerFd password) ks l) :
    Transition.Run Spares (start listenerFd password) ks l ∧ l.Clear ∨ l.Passed := by
  induction h with
  | nil => exact Or.inl ⟨.nil, clear_start listenerFd password⟩
  | @snoc ks l k l' hrun ht ih =>
    have hr := reachable_of_run (fun _ _ _ ht => ht.1) hrun
    rcases ih with ⟨hspares, hclear⟩ | hpassed
    · have hturn := hclear.turn hr ht.1
      by_cases hover : l.Overruns
      · right
        by_contra hnot
        exact hturn.1 ⟨hnot, ht.2⟩ hover
      · exact Or.inl ⟨hspares.snoc ⟨ht.1, hover⟩, hturn.2 hover⟩
    · exact Or.inr (ht.passed hr hpassed)

/-- **When `poll` is called with nobody left to disconnect.**  A run of turns up to a `poll`
never leaves a marked client to a `poll` exactly when no removal in a sweep overruns a
client at an index the sweep has passed. -/
theorem no_marked_at_poll (hpc : l.pc = .poll) :
    (Transition.Run Spares (start listenerFd password) ks l → l.server.NoneMarked) ∧
      (Transition.Run Settles (start listenerFd password) ks l ↔
        Transition.Run Spares (start listenerFd password) ks l) := by
  refine ⟨fun h => (settles_of_spares h).2.2 hpc, ?_, fun h => (settles_of_spares h).1⟩
  intro h
  rcases spares_of_settles h with ⟨hspares, -⟩ | hpassed
  · exact hspares
  · exact absurd hpassed (not_passed (by simp [hpc]))

end Runs

/-- A turn that settles, decided. -/
def settlingTurn (l : Loop) (k : Kernel) : Option Loop :=
  (l.turn k).toOption.filter fun l' =>
    l'.pc != .poll || l'.server.clients.toList.all (!·.2.disconnectRequested)

theorem settles_of_settlingTurn (h : l.settlingTurn k = some l') : l.Settles k l' := by
  unfold settlingTurn at h
  obtain ⟨hturn, hsettled⟩ := Option.filter_eq_some_iff.1 h
  have hturn : l.turn k = .ok l' := by
    cases hl : l.turn k with
    | error e => rw [hl] at hturn; cases hturn
    | ok l₁ => rw [hl] at hturn; cases hturn; rfl
  refine ⟨hturn, fun hpoll fd c hc => ?_⟩
  rw [hpoll] at hsettled
  have hall : l'.server.clients.toList.all (!·.2.disconnectRequested) = true := by simpa using hsettled
  have := List.all_eq_true.1 hall (fd, c) (ExtTreeMap.mem_toList_iff_getElem?_eq_some.2 hc)
  simpa using this

/-- `eve` quits. -/
def quitTurns : List Kernel :=
  [{ poll := .ready (only 3) }, ({} : Kernel), ({} : Kernel), ({} : Kernel),
    { received := some ("QUIT :bye".toList ++ "\n".toList) }] ++ List.replicate 6 ({} : Kernel)

theorem no_marked_at_poll_session :
    ∃ l, Transition.Run Spares (start 3 "pw".toList) (sessionTurns ++ quitTurns) l ∧
      l.server.fds = [3, 4, 5] ∧ l.server.NoneMarked := by
  have h : ((sessionTurns ++ quitTurns).foldlM settlingTurn (start 3 "pw".toList)).any
      (fun l => l.pc == .poll && l.server.fds == [3, 4, 5]) = true := by decide +kernel
  obtain ⟨l, hl, hend⟩ := (Option.any_eq_true _ _).1 h
  rw [Bool.and_eq_true, beq_iff_eq, beq_iff_eq] at hend
  have hsettles : Transition.Run Settles (start 3 "pw".toList) (sessionTurns ++ quitTurns) l :=
    (Transition.Run.of_foldlM hl).mono fun _ _ _ => settles_of_settlingTurn
  have hspares := (no_marked_at_poll hend.1).2.1 hsettles
  exact ⟨l, hspares, hend.2, (no_marked_at_poll hend.1).1 hspares⟩

/-- Nothing fits for `bob` any more when `eve`, who is in `#c` too, is removed. -/
theorem quit_overruns {s : Server} (hcore : SessionCore s.core)
    (hreason : (s.wire.port 6).disconnectReason = "bye".toList)
    (hfull : ¬ (s.wire.port 5).Fits pong.bytes) : s.Overrun 6 5 := by
  refine ⟨by rw [Server.client_registered]; exact hcore.eve.2, ?_, ?_⟩
  · rw [Server.mem_quitRecipients]
    exact ⟨hcore.peers, by decide⟩
  · rw [Server.port_client]
    refine not_fits_of_length hfull ?_
    unfold Server.quitLine Wire.quitReason
    rw [hcore.eve.1, hreason]
    decide

/-- `bob`'s output buffer is full.  `eve` quits, and the QUIT line marks `bob`, whom the sweep
has already passed. -/
theorem no_marked_at_poll_overrun :
    ¬ ∀ l : Loop, l.Reachable → l.pc = .poll → l.server.NoneMarked := by
  intro hall
  obtain ⟨s, hreach, hfds, hcore, hrest, hfull⟩ := session_flooded
  have hr := reachable_server hreach
  have heve : s.fds[3]? = some 6 := by rw [hfds]; rfl
  have hclient : 6 ≠ s.listenerFd := by rw [show s.listenerFd = 3 from hcore.listenerFd]; decide
  have hlive : s.core.Live 6 := (hr.polled.live 6).2 ⟨List.mem_of_getElem? heve, hclient⟩
  -- the pass that handles the QUIT of `eve`
  have hpass := pass_line hr heve hclient (hrest.1 6) "QUIT :bye".toList (by decide) (by decide)
  have hr₁ : (s.setRevents (only 3)).Reachable := hr.step (e := .poll (only 3)) rfl
  obtain ⟨hcore₂, hports⟩ := handleCompleteLine_quit (s := s.setRevents (only 3)) (A := 6)
    (show Command.parse "QUIT :bye".toList = ⟨true, "QUIT".toList, ["bye".toList]⟩ by decide)
  have hfds₂ := (Server.same_handleCompleteLine hr₁.ok.membersLive hlive "QUIT :bye".toList).fds.trans
    ((Server.fds_setRevents (only 3)).trans hfds)
  have hreach₂ := hreach.turns hpass
  generalize (s.setRevents (only 3)).handleCompleteLine 6 "QUIT :bye".toList = s₂ at *
  have hr₂ := reachable_server hreach₂
  have hport (x : Fd) : s₂.wire.port x = (s.wire.requestDisconnect 6 "bye".toList).port x :=
    congrArg (fun ports => (ports x).getD {}) hports
  have heve₂ : s₂.wire.port 6 =
      { s.wire.port 6 with disconnectReason := "bye".toList, disconnectRequested := true } :=
    (hport 6).trans (Wire.port_modify_self (w := s.wire) ((Server.isSome_ports s 6).2 hlive))
  have hother {x : Fd} (hx : 6 ≠ x) : s₂.wire.port x = s.wire.port x :=
    (hport x).trans (Wire.port_modify_of_ne (w := s.wire) hx)
  -- the sweep up to `eve`
  have heveAt : s₂.fds[3]? = some 6 := by rw [hfds₂]; rfl
  have hunmarked : ∀ j < 3, ¬ s₂.MarkedAt j := by
    rintro j hj ⟨fd, hfd, hflag⟩
    have hne : 6 ≠ fd := by
      rintro rfl
      exact absurd (Server.index_unique hr₂.polled.nodup hfd heveAt) (by omega)
    rw [Server.client_disconnectRequested, hother hne, ← Server.client_disconnectRequested,
      Server.noneMarked_iff_flag.1 hrest.2 fd] at hflag
    cases hflag
  have hsweep := sweep_idle hr₂ (by rw [hfds₂]; decide) hunmarked
  obtain ⟨p, hp, hp6⟩ : ∃ p, s₂.pollFds[3]? = some p ∧ p.fd = 6 := by simpa [Server.fds] using heveAt
  have hover : Overruns ⟨s₂, .sweep 3⟩ := by
    refine ⟨3, p, 2, rfl, hp, ?_, by decide, p, 5, hp, by rw [hfds₂]; rfl, ?_⟩
    · rw [hp6, Server.client_disconnectRequested, heve₂]
    · rw [hp6]
      exact quit_overruns (hcore₂ ▸ hcore) (by rw [heve₂]) (by rw [hother (by decide)]; exact hfull)
  have hreach₃ := hreach₂.turns hsweep
  obtain ⟨l', hrun, hpoll, hmarked⟩ := ends_marked (reachable_server hreach₃) rfl (Or.inr hover)
  exact hmarked (hall l' (hreach₃.turns hrun) hpoll)

end Loop

end FtIrc
