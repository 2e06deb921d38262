import FtIrc.Passes

/-!
# No command after a disconnect request

A late command can only be the first line of a read: `receiveFromClient` looks at the mark
behind each line it has handled, and not before the first.  A run has no late command
exactly when none of its turns starts with such a line (`Loop.no_late_command`).
-/

namespace FtIrc

open Std

/-! ## Marks in every state -/

namespace Wire

variable {w : Wire}

theorem Marked.connect (h : w.Marked) (fd : Fd) : (w.connect fd).Marked := by
  intro x hx
  show _ ↔ Requested x (w.log ++ [.accepted fd])
  rw [requested_snoc]
  by_cases hfd : fd = x
  · subst hfd
    have hport : (w.connect fd).port fd = {} := by simp [port, Wire.connect]
    rw [hport]
    simp
  · have hports : (w.connect fd).ports x = w.ports x := if_neg hfd
    rw [port, hports]
    refine (h x (by rw [← hports]; exact hx)).trans ⟨fun hr => Or.inr ⟨hr, ?_⟩, ?_⟩
    · rintro ⟨⟩
      exact hfd rfl
    · rintro (⟨_, ⟨⟩⟩ | hr)
      exact hr.1

theorem Marked.disconnect (h : w.Marked) (fd : Fd) (pollFds : List PollFd) :
    (w.disconnect fd pollFds).Marked := by
  intro x hx
  have hfd : fd ≠ x := by
    rintro rfl
    simp [Wire.disconnect] at hx
  have hports : (w.disconnect fd pollFds).ports x = w.ports x := if_neg hfd
  rw [port, hports]
  refine (h.record (a := .removed fd) (by simp) (by simp)) x ?_
  rw [hports] at hx
  exact hx

end Wire

namespace Server

variable {s s' : Server} {e : Event} {fd x : Fd} {line : Text}

theorem Move.marked (hm : s.Move e s') (h : s.wire.Marked) : s'.wire.Marked := by
  cases hm with
  | quiet _ hq => exact hq.marked h
  | connect _ _ hwire =>
    rw [hwire]
    exact h.connect _
  | command signals _ _ _ hwire =>
    rw [hwire]
    exact ((h.record (a := .completeLine _ _) (by simp) (by simp)).record (a := .dispatched _ _)
      (by simp) (by simp)).deliver signals
  | disconnect recipients pollFds _ _ _ _ hwire =>
    rw [hwire]
    exact (h.deliver _).disconnect _ pollFds

theorem Reachable.marked (h : Reachable s) : s.wire.Marked := by
  refine h.invariant (I := fun s => s.wire.Marked) ?_ fun s e s' hr ih hs => (hr.move hs).marked ih
  intro listenerFd password fd hfd
  simp [wire, Server.start] at hfd

theorem Reachable.requested_iff (h : Reachable s) (hfd : s.core.Live fd) :
    Requested fd s.log ↔ (s.client fd).disconnectRequested = true := by
  rw [client_disconnectRequested]
  exact (h.marked fd ((isSome_ports s fd).2 hfd)).symm

/-! ## Late commands and steps -/

theorem late_append {log actions : List Action}
    (h : ∀ a ∈ actions, ∀ fd command, a ≠ .dispatched fd command) :
    Late x (log ++ actions) ↔ Late x log := by
  refine History.ever_append ?_
  rintro a ha before ⟨⟨command, rfl⟩, -⟩
  exact h _ ha x command rfl

theorem late_deliver (w : Wire) (signals : List Signal) :
    Late x (w.deliver signals).log ↔ Late x w.log := by
  obtain ⟨actions, hlog, hdelivery⟩ := w.log_deliver signals
  rw [hlog]
  refine late_append ?_
  rintro a ha fd command rfl
  cases hdelivery _ ha

/-- Handling a line is late for the client whose line it is, if for anyone. -/
theorem late_handleCompleteLine (hr : Reachable s) (hfd : s.core.Live fd) (line : Text) :
    Late x (s.handleCompleteLine fd line).log ↔ Late x s.log ∨
      x = fd ∧ (Command.parse line).valid = true ∧ (s.client fd).disconnectRequested = true := by
  have hcomplete : Late x (s.log ++ [.completeLine fd line]) ↔ Late x s.log :=
    late_append (by simp)
  show Late x (s.handleCompleteLine fd line).wire.log ↔ _
  rcases handleCompleteLine_spec hr.ok.membersLive hfd line with
    ⟨hvalid, -, hwire⟩ | ⟨hvalid, signals, -, hwire⟩
  · rw [hwire, hvalid]
    refine hcomplete.trans (or_iff_left ?_).symm
    rintro ⟨-, ⟨⟩, -⟩
  · rw [hwire, late_deliver]
    show Late x (s.log ++ [.completeLine fd line] ++ [.dispatched fd _]) ↔ _
    rw [late_snoc, hcomplete, ← hr.requested_iff hfd, requested_snoc]
    refine or_congr_right ⟨?_, ?_⟩
    · rintro ⟨⟨_, ⟨⟩⟩, ⟨_, ⟨⟩⟩ | hreq⟩
      exact ⟨rfl, hvalid, hreq.1⟩
    · rintro ⟨rfl, -, hreq⟩
      exact ⟨⟨_, rfl⟩, Or.inr ⟨hreq, by simp⟩⟩

theorem Step.late_of_ne (hs : s.Step e s') (hr : Reachable s) (he : ∀ fd line, e ≠ .line fd line) :
    Late x s'.log ↔ Late x s.log := by
  cases hr.move hs with
  | quiet _ hq =>
    obtain ⟨actions, hlog, hquiet⟩ := hq.log
    rw [show s'.log = s.log ++ actions from hlog]
    refine late_append ?_
    rintro a ha fd command rfl
    cases hquiet _ ha
  | connect _ _ hwire =>
    rw [show s'.log = s.log ++ [_] from congrArg Wire.log hwire]
    exact late_append (by simp)
  | @command fd line => exact absurd rfl (he fd line)
  | disconnect recipients pollFds _ _ _ _ hwire =>
    rw [show s'.log = (s.wire.deliver _).log ++ [_] from congrArg Wire.log hwire]
    exact (late_append (by simp)).trans (late_deliver s.wire _)

/-- What is late stays late. -/
theorem Step.late (hs : s.Step e s') (hr : Reachable s) (h : Late x s.log) : Late x s'.log := by
  by_cases he : ∃ fd line, e = .line fd line
  · obtain ⟨fd, line, rfl⟩ := he
    unfold Step step at hs
    dsimp only at hs
    split at hs
    · next hfd =>
      cases hs
      exact (late_handleCompleteLine hr ((live_iff s fd).2 hfd.1) line).2 (Or.inl h)
    · cases hs
  · push Not at he
    exact (hs.late_of_ne hr he).2 h

/-- A timely step is not late. -/
theorem TimelyStep.late (hs : s.TimelyStep e s') (hr : Reachable s) (h : Late x s'.log) :
    Late x s.log := by
  obtain ⟨hs, htimely⟩ := hs
  by_cases he : ∃ fd line, e = .line fd line
  · obtain ⟨fd, line, rfl⟩ := he
    unfold Step step at hs
    dsimp only at hs
    split at hs
    · next hfd =>
      cases hs
      rcases (late_handleCompleteLine hr ((live_iff s fd).2 hfd.1) line).1 h with
        h | ⟨-, hvalid, hflag⟩
      · exact h
      · rw [htimely fd line rfl hvalid] at hflag
        cases hflag
    · cases hs
  · push Not at he
    exact (hs.late_of_ne hr he).1 h

theorem late_run (hr : Reachable s) (hrun : Transition.Reachable Step s s') (h : Late x s.log) :
    Late x s'.log :=
  (hrun.invariant (I := fun s₁ => Reachable s₁ ∧ Late x s₁.log) ⟨hr, h⟩
    fun _ _ _ _ ih hs => ⟨ih.1.step hs, hs.late ih.1 ih.2⟩).2

theorem TimelyRun.late (hrun : TimelyRun s s') (hr : Reachable s) (h : Late x s'.log) :
    Late x s.log :=
  (hrun.invariant (I := fun s₁ => Reachable s₁ ∧ (Late x s₁.log → Late x s.log)) ⟨hr, id⟩
    fun _ _ _ _ ih hs => ⟨ih.1.step hs.1, fun h => ih.2 (hs.late ih.1 h)⟩).2 h

end Server

/-! ## Late commands and turns -/

def Action.isRequest : Action → Bool
  | .disconnectRequested .. => true
  | _ => false

def Action.isDispatch : Action → Bool
  | .dispatched .. => true
  | _ => false

namespace Loop

variable {l l' : Loop} {k : Kernel} {x : Fd}

/-- The turn reads from a client that is to be disconnected, and the first line that is then
complete is a command. -/
def LateLine (l : Loop) (k : Kernel) : Prop :=
  ∃ p data, l.Reads k p data ∧ (l.server.client p.fd).disconnectRequested = true ∧
    ∃ line client, ((l.server.client p.fd).appendInput data).popLine = some (line, client) ∧
      (Command.parse line).valid = true

/-- A turn that is not so. -/
def InTime (l : Loop) (k : Kernel) (l' : Loop) : Prop := l.Turn k l' ∧ ¬ l.LateLine k

theorem InTime.late (h : l.InTime k l') (hr : l.server.Reachable) (hlate : Late x l'.server.log) :
    Late x l.server.log := by
  obtain ⟨ht, hnot⟩ := h
  rcases ht.cases hr with ⟨p, data, hreading, hrest⟩ | ⟨-, hrun⟩
  · have ⟨i, _, _, hreads⟩ := hreading
    have hr₁ := hr.step hreads.receive
    have hfd := ((Server.same_appended p data).live p.fd).2 hreads.live
    have hafter : Late x (l.server.afterLines p data).log :=
      Server.TimelyRun.late hrest.timely (hr.run (hreads.steps hr)) hlate
    rcases (hreads.lines hr).2 with ⟨-, heq⟩ | ⟨line, client, hpop, hlines⟩
    · rw [heq] at hafter
      exact hafter
    · have hflag : (Command.parse line).valid = true →
          ((l.server.appended p data).client p.fd).disconnectRequested = false := by
        intro hvalid
        rw [hreads.client_appended, Bool.eq_false_iff]
        exact fun hmarked => hnot ⟨p, data, hreading, hmarked, line, client, hpop, hvalid⟩
      rw [← hreads.client_appended] at hpop
      have hfirst := Server.handleFirst_timely hfd hpop hflag
      exact Server.TimelyRun.late (s := l.server.appended p data) (hfirst.trans hlines) hr₁ hafter
  · exact Server.TimelyRun.late hrun.timely hr hlate

/-- Such a turn is late for the client it reads from. -/
theorem LateLine.late (h : l.LateLine k) (ht : l.Turn k l') (hr : l.server.Reachable) :
    ∃ fd, Late fd l'.server.log := by
  obtain ⟨p, data, hreading, hflag, line, client, hpop, hvalid⟩ := h
  refine ⟨p.fd, ?_⟩
  rcases ht.cases hr with ⟨p', data', ⟨i', hpc', _, hreads'⟩, hrest⟩ | ⟨hnot, -⟩
  · obtain ⟨i, hpc, _, hreads⟩ := hreading
    obtain rfl : i = i' := by simpa [hpc] using hpc'
    obtain rfl : p = p' := Option.some.inj (hreads.entry.symm.trans hreads'.entry)
    obtain rfl : data = data' := Option.some.inj (hreads.received.symm.trans hreads'.received)
    have hr₁ := hr.step hreads.receive
    have hfd := ((Server.same_appended p data).live p.fd).2 hreads.live
    rcases (hreads.lines hr).2 with ⟨hnone, -⟩ | ⟨line', client', hpop', hlines⟩
    · rw [hnone] at hpop
      cases hpop
    · obtain ⟨rfl, rfl⟩ := Prod.mk.inj (Option.some.inj (hpop.symm.trans hpop'))
      rw [← hreads.client_appended] at hpop
      have hr₂ := hr₁.step (Server.step_pop hfd hpop)
      have hmarked : (((l.server.appended p data).modifyClient p.fd fun _ => client).client
          p.fd).disconnectRequested = true := by
        rw [Server.flag_popped hfd hpop, hreads.client_appended]
        exact hflag
      have hfirst : Late p.fd ((l.server.appended p data).handleFirst p.fd line client).log :=
        (Server.late_handleCompleteLine hr₂ (((Server.same_popped p.fd client).live p.fd).2 hfd)
          line).2 (Or.inr ⟨rfl, hvalid, hmarked⟩)
      exact Server.late_run (hr₂.step (Server.step_handleFirst hfd hpop))
        (Transition.Reachable.trans hlines.steps hrest.timely.steps) hfirst
  · exact absurd hreading (hnot p data)

/-- **A run has no late command exactly when no turn of it starts with a late line.** -/
theorem no_late_command {listenerFd : Fd} {password : Text} {ks : List Kernel} {l : Loop}
    (h : Transition.Run Turn (start listenerFd password) ks l) :
    (∀ fd, ¬ Late fd l.server.log) ↔ Transition.Run InTime (start listenerFd password) ks l := by
  constructor
  · intro hnot
    induction h with
    | nil => exact .nil
    | @snoc ks l k l' hrun ht ih =>
      have hr := reachable_of_run (fun _ _ _ ht => ht) hrun
      refine (ih ?_).snoc ⟨ht, ?_⟩
      · exact fun fd hlate => hnot fd (Server.late_run hr (ht.steps hr) hlate)
      · intro hline
        obtain ⟨fd, hlate⟩ := hline.late ht hr
        exact hnot fd hlate
  · intro hin fd
    clear h
    induction hin with
    | nil => exact History.not_ever_nil
    | @snoc ks l k l' hrun ht ih =>
      exact fun hlate => ih (ht.late (reachable_of_run (fun _ _ _ ht => ht.1) hrun) hlate)

/-- No command behind the first request, for whomever it was. -/
theorem not_late_of_tail {log : List Action}
    (h : (log.dropWhile (!·.isRequest)).all (!·.isDispatch) = true) : ¬ Late x log := by
  have hsplit := List.takeWhile_append_dropWhile (p := (!·.isRequest)) (l := log)
  rw [← hsplit, Server.late_append]
  · rintro ⟨before, a, after, heq, -, before', b, after', rfl, ⟨reason, rfl⟩, -⟩
    have hmem : .disconnectRequested x reason ∈ log.takeWhile (!·.isRequest) := by
      rw [heq]
      simp
    cases List.mem_takeWhile_imp hmem
  · rintro a ha fd command rfl
    cases List.all_eq_true.1 h _ ha

/-- `eve` quits, and has sent another line in the same bytes. -/
def partingTurns : List Kernel :=
  [{ poll := .ready (only 3) }, ({} : Kernel), ({} : Kernel), ({} : Kernel),
    { received := some "QUIT :bye\nPRIVMSG bob :hi\n".toList }]

theorem no_late_command_session :
    ∃ l, Transition.Run InTime (start 3 "pw".toList) (sessionTurns ++ partingTurns) l ∧
      Requested 6 l.server.log ∧ (l.server.client 6).inputBuffer = "PRIVMSG bob :hi\n".toList := by
  have hview : ((start 3 "pw".toList).run (sessionTurns ++ partingTurns)).toOption.map (fun l =>
      ((l.server.client 6).disconnectRequested, (l.server.client 6).inputBuffer,
        (l.server.log.dropWhile (!·.isRequest)).all (!·.isDispatch))) =
      some (true, "PRIVMSG bob :hi\n".toList, true) := by decide +kernel
  obtain ⟨l, hl, hview⟩ := Option.map_eq_some_iff.1 hview
  simp only [Prod.mk.injEq] at hview
  obtain ⟨hflag, hinput, htail⟩ := hview
  have hrun := run_turns (run_of_mem (Option.mem_def.2 hl))
  have hr := reachable_of_run (fun _ _ _ ht => ht) hrun
  refine ⟨l, (no_late_command hrun).1 fun fd => not_late_of_tail htail, ?_, hinput⟩
  exact (hr.requested_iff (Server.live_of_flag hflag)).2 hflag

/-- `bob`'s output buffer is full.  In one pass `al` writes to `bob`, who is marked for it,
and the line `bob` has sent is dispatched all the same. -/
theorem no_late_command_overflow : ¬ ∀ l : Loop, l.Reachable → ∀ fd, ¬ Late fd l.server.log := by
  intro hall
  obtain ⟨s, hreach, hfds, hcore, hrest, hfull⟩ := session_flooded
  have hr := reachable_server hreach
  have hlength : s.fds.length = 4 := by rw [hfds]; rfl
  -- `al` at index 1 and `bob` at index 2 are ready
  let ready : Nat → PollEvents := fun i => { pollin := i == 1 || i == 2 }
  have hr₁ : (s.setRevents ready).Reachable := hr.step (e := .poll ready) rfl
  have hl : (s.setRevents ready).listenerFd = 3 := hcore.listenerFd
  have hfds₁ : (s.setRevents ready).fds = [3, 4, 5, 6] := (Server.fds_setRevents ready).trans hfds
  have hrevents {i : Nat} (hi : i < 4) := Server.getElem?_revents (s := s) (hlength ▸ hi) ready
  have hal : (s.setRevents ready).fds[1]? = some 4 := by rw [hfds₁]; rfl
  have hbob : (s.setRevents ready).fds[2]? = some 5 := by rw [hfds₁]; rfl
  obtain ⟨p, hp, hevents, hread⟩ := reads_of_revents hr₁ hal (by rw [hl]; decide)
    (hrevents (by decide)) rfl rfl rfl ("PRIVMSG bob :hi".toList ++ "\n".toList) (by decide)
  have hvisit := turn_line hr₁ hread rfl hevents (hrest.1 p.fd) (by decide) (by decide)
  have hlive := hread.live
  rw [hp] at hvisit hlive
  have hmarked := privmsg_marks (s := s.setRevents ready) hcore
    ((hr₁.polled.live 5).2 ⟨List.mem_of_getElem? hbob, by rw [hl]; decide⟩) hfull
  have hsame := Server.same_handleCompleteLine hr₁.ok.membersLive hlive "PRIVMSG bob :hi".toList
  have hrevents₂ := Server.revents_handleCompleteLine hr₁ hlive "PRIVMSG bob :hi".toList
  have hinput₂ := Server.input_handleCompleteLine hr₁ hlive "PRIVMSG bob :hi".toList 5
  -- the pass up to the visit of `bob`
  have hidle : ∀ j, 0 ≤ j → j < 1 → (s.setRevents ready).revents[j]? = some ({} : PollEvents) := by
    intro j _ hj
    obtain rfl : j = 0 := by omega
    exact hrevents (by decide)
  have hreach₁ := hreach.turn (turn_poll (i := 1) ready (by rw [hlength]; decide) (by decide))
  have hreach₂ := (hreach₁.turns (visits_idle (by decide) hidle)).turn hvisit
  generalize (s.setRevents ready).handleCompleteLine 4 "PRIVMSG bob :hi".toList = s₂ at *
  have hr₂ := reachable_server hreach₂
  have hclient : 5 ≠ s₂.listenerFd := by rw [hsame.listenerFd, hl]; decide
  obtain ⟨q, hq, -, hread₂⟩ := reads_of_revents hr₂ (by rw [hsame.fds]; exact hbob) hclient
    (by rw [hrevents₂]; exact hrevents (by decide)) rfl rfl rfl (ping ++ "\n".toList) (by decide)
  obtain ⟨l', ht⟩ := exists_turn_reads hread₂ rfl
  have hline : LateLine ⟨s₂, .visit 2⟩ { received := some (ping ++ "\n".toList) } := by
    refine ⟨q, _, ⟨2, rfl, rfl, hread₂⟩, by rw [hq]; exact hmarked, ping, s₂.client q.fd, ?_, by decide⟩
    exact Server.popLine_single (by rw [hq, hinput₂]; exact hrest.1 5) (by decide) (by decide)
  obtain ⟨fd, hlate⟩ := hline.late ht hr₂
  exact hall l' (hreach₂.turn ht) fd hlate

end Loop

end FtIrc
