import FtIrc.Process

/-!
# From the start to the exit

What holds of the process however the system answers: every descriptor it opens is closed once,
only the system can make it fail, and a stop ends it after one round over the descriptors.
-/

namespace FtIrc

open Std
open Ledger (Entry)

/-! ## The whole process -/

variable {argv : List Text} {startup : Startup} {ks ks' : List Kernel} {l : Loop} {what : String}

theorem execute_cases (argv : List Text) (startup : Startup) :
    (main argv = none ∧ ∀ ks, execute argv startup ks = (.exited .usage, [])) ∨
    ∃ port password, main argv = some (port, password) ∧
      ((∃ what entries, Server.construct port password startup = (.error what, entries) ∧
          (entries = [] ∨ ∃ fd, entries = [.opened fd, .closed fd]) ∧
          ∀ ks, execute argv startup ks = (.exited (.error what), entries)) ∨
        ∃ fd, Server.construct port password startup = (.ok (.start fd password), [.opened fd]) ∧
          ∀ ks, execute argv startup ks =
            conclude [.opened fd] ((Loop.start fd password).drive ks)) := by
  unfold execute
  cases main argv with
  | none => exact Or.inl ⟨rfl, fun _ => rfl⟩
  | some arguments =>
    obtain ⟨port, password⟩ := arguments
    refine Or.inr ⟨port, password, rfl, ?_⟩
    dsimp only
    rcases Server.construct_cases port password startup with ⟨what, h⟩ | ⟨what, fd, h⟩ | ⟨fd, h⟩
    · rw [h]
      exact Or.inl ⟨what, [], rfl, Or.inl rfl, fun _ => rfl⟩
    · rw [h]
      exact Or.inl ⟨what, _, rfl, Or.inr ⟨fd, rfl⟩, fun _ => rfl⟩
    · rw [h]
      exact Or.inr ⟨fd, rfl, fun _ => rfl⟩

namespace Loop

variable {fd : Fd} {password : Text} {k : Kernel}

theorem run_reachable (h : (start fd password).run ks = .ok l) :
    l.server.Reachable ∧ l.server.listenerFd = fd := by
  have hstart := Server.Reachable.start fd password
  have hreachable : ∀ l, Transition.Reachable Turn (start fd password) l →
      l.server.Reachable ∧ l.server.listenerFd = fd := by
    intro l hl
    refine hl.invariant (I := fun l => l.server.Reachable ∧ l.server.listenerFd = fd) ⟨hstart, rfl⟩ ?_
    rintro l k l' - ⟨hr, hfd⟩ ht
    have hsteps := ht.steps hr
    exact ⟨hr.run hsteps, (Server.steps_listenerFd hr hsteps).trans hfd⟩
  exact hreachable l (run_turns h).reachable

/-- What is open when `run` stands or ends. -/
theorem run_ledger (h : (start fd password).run ks = .ok l) :
    Ledger.Honest ∅ (.opened fd :: l.server.ledger) ∧
      Ledger.held ∅ (.opened fd :: l.server.ledger) = l.server.fds.toFinset := by
  obtain ⟨hr, rfl⟩ := run_reachable h
  exact ⟨hr.accounted.1, hr.held_ledger⟩

end Loop

theorem ledger_unwind (l : Loop) (k : Kernel) : (l.unwind k).1.ledger = l.server.ledger := by
  unfold Loop.unwind
  cases l.pc with
  | visit i => cases k.accept <;> rfl
  | _ => rfl

/-- What is open when a turn throws. -/
theorem thrown_ledger {fd : Fd} {password : Text} {k : Kernel}
    (h : (Loop.start fd password).run ks = .ok l) (hthrown : l.turn k = .error what)
    (hfresh : Ledger.Fresh l.server.fds.toFinset (l.unwind k).2) :
    l.Fails k what ∧ (l.unwind k).1.destroy = l.server.destroy ∧
      Ledger.Honest l.server.fds.toFinset (l.unwind k).2 ∧
      Ledger.held l.server.fds.toFinset (l.unwind k).2 = l.server.fds.toFinset := by
  obtain ⟨hr, -⟩ := Loop.run_reachable h
  rcases (Loop.turn_error hr).1 hthrown with hfails | ⟨⟨i, p, hpc, -⟩, fd', hresult, hmem, -⟩
  · refine ⟨hfails, ?_⟩
    rcases hfails with ⟨hpc, -⟩ | ⟨⟨i, p, hpc, -⟩, ⟨fd', hresult⟩, -⟩
    · unfold Loop.unwind
      rw [hpc]
      exact ⟨rfl, trivial, rfl⟩
    · unfold Loop.unwind at hfresh ⊢
      rw [hpc, hresult] at hfresh
      rw [hpc, hresult]
      have hnew : fd' ∉ l.server.fds := fun hmem => hfresh.1 (List.mem_toFinset.2 hmem)
      have herase : l.server.clients.erase fd' = l.server.clients := by
        have hnone : l.server.clients[fd']? = none := by
          rw [← Option.not_isSome_iff_eq_none]
          exact fun hlive => hnew ((hr.polled.live fd').1 ((Server.live_iff _ _).2 hlive)).1
        ext1 x
        rw [ExtTreeMap.getElem?_erase]
        split
        · next hx => rw [← Std.LawfulEqCmp.eq_of_compare hx, hnone]
        · rfl
      refine ⟨?_, Ledger.honest_passed, Ledger.held_passed hfresh.1⟩
      show ((l.server.clients.erase fd').keys ++ _).map _ = _
      rw [herase]
      rfl
  · unfold Loop.unwind at hfresh
    rw [hpc, hresult] at hfresh
    exact absurd (List.mem_toFinset.2 hmem) hfresh.1

theorem conclude_serving (entries : List (Entry Fd)) (hpc : l.pc ≠ .stopped) :
    conclude entries (.standing l) = (.serving l, entries ++ l.server.ledger) := if_neg hpc

theorem conclude_stopped (entries : List (Entry Fd)) (s : Server) :
    conclude entries (.standing ⟨s, .stopped⟩) = (.exited .success, entries ++ (s.ledger ++ s.destroy)) := rfl

theorem conclude_thrown (fd : Fd) (l : Loop) (k : Kernel) :
    (conclude [.opened fd] (.thrown what (l.unwind k))).2 =
      (.opened fd :: l.server.ledger) ++ ((l.unwind k).2 ++ (l.unwind k).1.destroy) := by
  unfold conclude
  dsimp only
  rw [ledger_unwind]
  rfl

theorem fresh_thrown {fd : Fd} {password : Text} {k : Kernel}
    (h : (Loop.start fd password).run ks = .ok l)
    (hfresh : Ledger.Fresh ∅ (conclude [.opened fd] (.thrown what (l.unwind k))).2) :
    Ledger.Fresh l.server.fds.toFinset (l.unwind k).2 := by
  rw [conclude_thrown, Ledger.fresh_append, (Loop.run_ledger h).2, Ledger.fresh_append] at hfresh
  exact hfresh.2.1

/-- **Every descriptor is closed once.**  Nothing is closed that is not open; while the process
serves, the listener and the clients are what is open; and when it exits, whatever was opened has
been closed as often. -/
theorem descriptors_closed_once (argv : List Text) (startup : Startup) (ks : List Kernel)
    (hfresh : Ledger.Fresh ∅ (execute argv startup ks).2) :
    Ledger.Honest ∅ (execute argv startup ks).2 ∧
    (∀ l, (execute argv startup ks).1 = .serving l →
      Ledger.held ∅ (execute argv startup ks).2 = l.server.fds.toFinset) ∧
    ∀ exit, (execute argv startup ks).1 = .exited exit →
      ∀ fd, (execute argv startup ks).2.count (.closed fd) =
        (execute argv startup ks).2.count (.opened fd) := by
  suffices Ledger.Honest ∅ (execute argv startup ks).2 ∧
      (∀ l, (execute argv startup ks).1 = .serving l →
        Ledger.held ∅ (execute argv startup ks).2 = l.server.fds.toFinset) ∧
      ∀ exit, (execute argv startup ks).1 = .exited exit →
        Ledger.held ∅ (execute argv startup ks).2 = ∅ from
    ⟨this.1, this.2.1, fun exit hexit => Ledger.count_closed hfresh this.1 (this.2.2 exit hexit)⟩
  rcases execute_cases argv startup with ⟨-, hexecute⟩ |
    ⟨port, password, -, ⟨what, entries, -, hentries, hexecute⟩ | ⟨fd, -, hexecute⟩⟩
  · rw [hexecute]
    exact ⟨trivial, nofun, fun _ _ => rfl⟩
  · rw [hexecute]
    rcases hentries with rfl | ⟨fd, rfl⟩
    · exact ⟨trivial, nofun, fun _ _ => rfl⟩
    · exact ⟨Ledger.honest_passed, nofun, fun _ _ => Ledger.held_passed (Finset.notMem_empty fd)⟩
  rw [hexecute] at hfresh ⊢
  cases hdrive : (Loop.start fd password).drive ks with
  | standing l =>
    have hrun := Loop.drive_standing.1 hdrive
    obtain ⟨hr, -⟩ := Loop.run_reachable hrun
    obtain ⟨hhonest, hheld⟩ := Loop.run_ledger hrun
    by_cases hstopped : l.pc = .stopped
    · obtain ⟨s, pc⟩ := l
      obtain rfl : pc = .stopped := hstopped
      obtain ⟨hclosed, hend⟩ := Server.destroy_spec hr.polled
      rw [conclude_stopped, ← List.append_assoc, List.singleton_append, Ledger.honest_append,
        Ledger.held_append, hheld]
      exact ⟨⟨hhonest, hclosed⟩, nofun, fun _ _ => hend⟩
    · rw [conclude_serving _ hstopped]
      refine ⟨hhonest, fun l' hl' => ?_, nofun⟩
      cases hl'
      exact hheld
  | thrown what left =>
    obtain ⟨before, k, after, l, rfl, hrun, hthrown, rfl⟩ := Loop.drive_thrown.1 hdrive
    obtain ⟨hr, -⟩ := Loop.run_reachable hrun
    obtain ⟨hhonest, hheld⟩ := Loop.run_ledger hrun
    rw [hdrive] at hfresh
    obtain ⟨-, hdestroy, habandoned, hback⟩ := thrown_ledger hrun hthrown (fresh_thrown hrun hfresh)
    obtain ⟨hclosed, hend⟩ := Server.destroy_spec hr.polled
    rw [conclude_thrown, Ledger.honest_append, Ledger.held_append, hheld, Ledger.honest_append,
      Ledger.held_append, hback, hdestroy]
    exact ⟨⟨hhonest, habandoned, hclosed⟩, nofun, fun _ _ => hend⟩

def sessionArguments : List Text := ["./ircserv".toList, "6667".toList, "pw".toList]

/-- A client connects, then `fcntl` fails on the socket of another. -/
def blockedTurns : List Kernel :=
  Loop.acceptTurns 1 4 ++ [{ poll := .ready (Loop.only 0) }, { accept := .blocking 5 }]

theorem descriptors_closed_once_blocked :
    Ledger.Honest ∅ (execute sessionArguments { socket := some 3 } blockedTurns).2 ∧
      (execute sessionArguments { socket := some 3 } blockedTurns).2.count (.closed 4) =
        (execute sessionArguments { socket := some 3 } blockedTurns).2.count (.opened 4) := by
  obtain ⟨hhonest, -, hexit⟩ :=
    descriptors_closed_once sessionArguments { socket := some 3 } blockedTurns (by decide +kernel)
  exact ⟨hhonest, hexit (.error "fcntl() failed") (Process.eq_exited (by decide +kernel)) 4⟩

/-- **Only the system makes the process fail**: the setup, `poll` when no stop is requested, or
`fcntl` on an accepted socket.  Nothing that a client sends does, and neither of the two checks
for a descriptor in use ever fires. -/
theorem fails_iff (argv : List Text) (startup : Startup) (ks : List Kernel)
    (hfresh : Ledger.Fresh ∅ (execute argv startup ks).2) (what : String) :
    (execute argv startup ks).1 = .exited (.error what) ↔
      ∃ port password, main argv = some (port, password) ∧
        ((Server.construct port password startup).1 = .error what ∨
          ∃ fd before k after l, (Server.construct port password startup).1 = .ok (.start fd password) ∧
            ks = before ++ k :: after ∧ (Loop.start fd password).run before = .ok l ∧
            l.Fails k what) := by
  rcases execute_cases argv startup with ⟨hmain, hexecute⟩ |
    ⟨port, password, hmain, ⟨what', entries, hconstruct, -, hexecute⟩ | ⟨fd, hconstruct, hexecute⟩⟩
  · rw [hexecute, hmain]
    exact iff_of_false nofun nofun
  · rw [hexecute, hmain]
    constructor
    · intro h
      cases h
      exact ⟨port, password, rfl, Or.inl (by rw [hconstruct])⟩
    · rintro ⟨_, _, ⟨⟩, h | ⟨fd, before, k, after, l, h, -⟩⟩
      · rw [hconstruct] at h
        cases h
        rfl
      · rw [hconstruct] at h
        cases h
  rw [hexecute] at hfresh ⊢
  rw [hmain]
  constructor
  · intro h
    cases hdrive : (Loop.start fd password).drive ks with
    | standing l =>
      rw [hdrive] at h
      unfold conclude at h
      dsimp only at h
      split at h <;> cases h
    | thrown what' left =>
      obtain ⟨before, k, after, l, rfl, hrun, hthrown, rfl⟩ := Loop.drive_thrown.1 hdrive
      rw [hdrive] at h hfresh
      cases h
      refine ⟨port, password, rfl, Or.inr ⟨fd, before, k, after, l, by rw [hconstruct], rfl, hrun, ?_⟩⟩
      exact (thrown_ledger hrun hthrown (fresh_thrown hrun hfresh)).1
  · rintro ⟨_, _, ⟨⟩, h | ⟨fd', before, k, after, l, h, rfl, hrun, hfails⟩⟩
    · rw [hconstruct] at h
      cases h
    · rw [hconstruct] at h
      cases h
      have hthrown := (Loop.turn_error (Loop.run_reachable hrun).1).2 (Or.inl hfails)
      rw [Loop.drive_thrown.2 ⟨before, k, after, l, rfl, hrun, hthrown, rfl⟩]
      rfl

theorem fails_iff_blocked :
    ∃ port password, main sessionArguments = some (port, password) ∧
      ((Server.construct port password { socket := some 3 }).1 = .error "fcntl() failed" ∨
        ∃ fd before k after l,
          (Server.construct port password { socket := some 3 }).1 = .ok (.start fd password) ∧
          blockedTurns = before ++ k :: after ∧ (Loop.start fd password).run before = .ok l ∧
          l.Fails k "fcntl() failed") :=
  (fails_iff sessionArguments { socket := some 3 } blockedTurns (by decide +kernel) "fcntl() failed").1
    (Process.eq_exited (by decide +kernel))

/-! ## Stopping -/

/-- An entry that a server that stops may still leave in the history. -/
def Action.isFarewell : Action → Bool
  | .removed _ => true
  | a => a.isDelivery

theorem entries_farewell {actions : List Action} (h : ∀ a ∈ actions, a.isFarewell = true) :
    ∃ fds : List Fd, actions.filterMap Action.entry = fds.map .closed := by
  induction actions with
  | nil => exact ⟨[], rfl⟩
  | cons a actions ih =>
    obtain ⟨fds, hfds⟩ := ih fun b hb => h b (List.mem_cons_of_mem _ hb)
    have ha := h a List.mem_cons_self
    cases a with
    | removed fd => exact ⟨fd :: fds, congrArg (Entry.closed fd :: ·) hfds⟩
    | disconnectRequested => exact ⟨fds, hfds⟩
    | queued => exact ⟨fds, hfds⟩
    | _ => cases ha

namespace Server

variable {s s' : Server} {e : Event} {es : List Event}

/-- From `s` to `s'` there are farewells only, and who is left has as much input stored. -/
structure Parts (s s' : Server) : Prop where
  log : ∃ actions, s'.log = s.log ++ actions ∧ ∀ a ∈ actions, a.isFarewell = true
  live : ∀ fd, s'.core.Live fd → s.core.Live fd
  input : ∀ fd, s'.core.Live fd → (s'.client fd).inputBuffer = (s.client fd).inputBuffer

theorem Parts.refl (s : Server) : s.Parts s :=
  ⟨⟨[], (List.append_nil _).symm, nofun⟩, fun _ => id, fun _ _ => rfl⟩

theorem Parts.trans {s'' : Server} (h : s.Parts s') (h' : s'.Parts s'') : s.Parts s'' := by
  obtain ⟨as, has, hbefore⟩ := h.log
  obtain ⟨bs, hbs, hafter⟩ := h'.log
  refine ⟨⟨as ++ bs, by rw [hbs, has, List.append_assoc], fun a ha => ?_⟩,
    fun fd hfd => h.live fd (h'.live fd hfd), fun fd hfd => ?_⟩
  · exact (List.mem_append.1 ha).elim (hbefore a) (hafter a)
  · exact (h'.input fd hfd).trans (h.input fd (h'.live fd hfd))

/-- A removal reads from nobody. -/
theorem Reachable.parts_remove (hr : Reachable s) {index : Nat} (hi : s.isClientIndex index = true) :
    s.Parts (s.removeClient index) := by
  obtain ⟨p, recipients, -, -, -, hcore, -, hwire⟩ := hr.polled.removeClient hr.ok.membersLive hi
  obtain ⟨delivered, hlog, hdelivery⟩ := s.wire.log_deliver (toAll recipients (s.quitLine p.fd))
  have hlive (fd : Fd) (hfd : (s.removeClient index).core.Live fd) : p.fd ≠ fd ∧ s.core.Live fd := by
    rwa [hcore, Core.live_disconnect] at hfd
  refine ⟨⟨_, log_removed hwire hlog, fun a ha => ?_⟩, fun fd hfd => (hlive fd hfd).2, fun fd hfd => ?_⟩
  · rcases List.mem_append.1 ha with ha | ha
    · have := hdelivery a ha
      cases a <;> first | rfl | cases this
    · rw [List.mem_singleton.1 ha]
      rfl
  · rw [client_inputBuffer, client_inputBuffer, hwire, Wire.port_disconnect_of_ne _ (hlive fd hfd).1,
      Wire.input_deliver]

theorem Reachable.parts (hr : Reachable s) (hrun : Transition.Run Step s es s')
    (hes : ∀ e ∈ es, ∃ index, e = .remove index) : s.Parts s' := by
  induction hrun with
  | nil => exact .refl s
  | @snoc es s₁ e s' hrun hs ih =>
    obtain ⟨index, rfl⟩ := hes e (List.mem_append_right _ (List.mem_singleton_self e))
    refine (ih fun e he => hes e (List.mem_append_left _ he)).trans ?_
    have hr₁ := hr.run hrun.reachable
    unfold Step Server.step at hs
    dsimp only at hs
    split at hs
    · next hi =>
      cases hs
      exact hr₁.parts_remove hi
    · cases hs

end Server

namespace Loop

variable {k : Kernel} {l' : Loop}

/-- How many turns there are left at most, once a stop is requested. -/
def turnsToStop (l : Loop) : Nat :=
  match l.pc with
  | .stopped => 0
  | .poll => 1
  | .sweep i => l.server.fds.length - i + 2
  | .visit _ => l.server.fds.length + 3

theorem turnsToStop_le (l : Loop) : l.turnsToStop ≤ l.server.fds.length + 3 := by
  unfold turnsToStop
  split <;> omega

/-- **One turn of a server that stops** removes a client at most. -/
theorem turn_stopping (hr : l.server.Reachable) (hstop : k.stopRequested = true)
    (hpc : l.pc ≠ .stopped) :
    ∃ l' es, l.Turn k l' ∧ l'.turnsToStop < l.turnsToStop ∧
      Transition.Run Server.Step l.server es l'.server ∧ ∀ e ∈ es, ∃ index, e = .remove index := by
  have hquiet (pc : Pc) (hless : turnsToStop ⟨l.server, pc⟩ < l.turnsToStop)
      (hturn : l.turn k = .ok ⟨l.server, pc⟩) :
      ∃ l' es, l.Turn k l' ∧ l'.turnsToStop < l.turnsToStop ∧
        Transition.Run Server.Step l.server es l'.server ∧ ∀ e ∈ es, ∃ index, e = .remove index :=
    ⟨_, [], hturn, hless, .nil, nofun⟩
  obtain ⟨s, pc⟩ := l
  cases pc with
  | stopped => exact absurd rfl hpc
  | poll =>
    refine hquiet .stopped (by simp [turnsToStop]) ?_
    unfold turn
    dsimp only
    rw [if_pos hstop]
  | visit i =>
    refine hquiet (.sweep 0) (by simp [turnsToStop]) ?_
    unfold turn
    dsimp only
    rw [if_neg (by simp [hstop])]
  | sweep i =>
    have hturn : ∃ l', Turn ⟨s, .sweep i⟩ k l' := exists_turn_sweep s i
    obtain ⟨l', hturn⟩ := hturn
    rcases hturn.sweep rfl hr with ⟨hpc', hserver, hlength⟩ | ⟨hpc', hserver, fd, hfd, -⟩ |
      ⟨p, hp, hclient, -, hpc', hserver⟩
    · obtain ⟨s', pc'⟩ := l'
      obtain rfl : s' = s := hserver
      obtain rfl : pc' = .poll := hpc'
      exact hquiet .poll (by simp [turnsToStop]) hturn
    · obtain ⟨s', pc'⟩ := l'
      obtain rfl : s' = s := hserver
      obtain rfl : pc' = .sweep (i + 1) := hpc'
      have hi : i < s'.fds.length := (List.getElem?_eq_some_iff.1 hfd).1
      refine hquiet (.sweep (i + 1)) ?_ hturn
      simp only [turnsToStop]
      omega
    · have hindex := Server.isClientIndex_iff.2 ⟨p.fd, Server.getElem?_fds hp, hclient⟩
      obtain ⟨-, -, -, -, hfds, -⟩ := hr.polled.removeClient hr.ok.membersLive hindex
      obtain ⟨s', pc'⟩ := l'
      obtain rfl : s' = s.removeClient i := hserver
      obtain rfl : pc' = .sweep i := hpc'
      refine ⟨_, [.remove i], hturn, ?_, .single (Server.step_remove hindex), fun e he => ⟨i, ?_⟩⟩
      · have hi : i < s.fds.length := (List.getElem?_eq_some_iff.1 (Server.getElem?_fds hp)).1
        simp only [turnsToStop]
        rw [hfds, List.length_eraseIdx_of_lt hi]
        omega
      · exact List.mem_singleton.1 he

theorem run_stopped (s : Server) (ks : List Kernel) : run ⟨s, .stopped⟩ ks = .ok ⟨s, .stopped⟩ := by
  induction ks with
  | nil => rfl
  | cons k ks ih => exact ih

/-- **A server that stops ends its round**, and does nothing in it but remove clients. -/
theorem run_stopping (hr : l.server.Reachable) (hstop : ∀ k ∈ ks, k.stopRequested = true)
    (hlength : l.turnsToStop ≤ ks.length) :
    ∃ s es, l.run ks = .ok ⟨s, .stopped⟩ ∧ Transition.Run Server.Step l.server es s ∧
      ∀ e ∈ es, ∃ index, e = .remove index := by
  induction ks generalizing l with
  | nil =>
    obtain ⟨s, pc⟩ := l
    cases pc with
    | stopped => exact ⟨s, [], rfl, .nil, nofun⟩
    | poll => simp [turnsToStop] at hlength
    | visit i => simp [turnsToStop] at hlength
    | sweep i => simp [turnsToStop] at hlength
  | cons k ks ih =>
    by_cases hpc : l.pc = .stopped
    · obtain ⟨s, pc⟩ := l
      obtain rfl : pc = .stopped := hpc
      exact ⟨s, [], run_stopped s (k :: ks), .nil, nofun⟩
    obtain ⟨l', es, hturn, hless, hsteps, hes⟩ := turn_stopping hr (hstop k List.mem_cons_self) hpc
    obtain ⟨s, es', hrun, hsteps', hes'⟩ := ih (hr.run (hturn.steps hr))
      (fun k' hk' => hstop k' (List.mem_cons_of_mem _ hk')) (by simp only [List.length_cons] at hlength; omega)
    refine ⟨s, es ++ es', ?_, hsteps.trans hsteps', fun e he => (List.mem_append.1 he).elim (hes e) (hes' e)⟩
    unfold run
    rw [List.foldlM_cons, hturn]
    exact hrun

theorem run_append {ks₁ ks₂ : List Kernel} (h : l.run ks₁ = .ok l') : l.run (ks₁ ++ ks₂) = l'.run ks₂ := by
  unfold run at h ⊢
  rw [List.foldlM_append, h]
  rfl

end Loop

/-- **After a stop** the process ends within a round over the descriptors: the server does nothing
more but remove clients, so nothing is accepted, read, handled or sent, and all that happens to
the descriptors is that each one open is closed. -/
theorem stop_closes_all (argv : List Text) (startup : Startup) (ks : List Kernel)
    (hserving : (execute argv startup ks).1 = .serving l)
    (hstop : ∀ k ∈ ks', k.stopRequested = true) (hlength : l.server.fds.length + 3 ≤ ks'.length) :
    ∃ (s : Server) (es : List Event) (actions : List Action) (fds : List Fd),
      l.run ks' = .ok ⟨s, .stopped⟩ ∧
      Transition.Run Server.Step l.server es s ∧ (∀ e ∈ es, ∃ index, e = .remove index) ∧
      (∀ fd ∈ s.clients, (s.client fd).inputBuffer = (l.server.client fd).inputBuffer) ∧
      s.log = l.server.log ++ actions ∧ (∀ a ∈ actions, a.isFarewell = true) ∧ fds.Perm l.server.fds ∧
      execute argv startup (ks ++ ks') =
        (.exited .success, (execute argv startup ks).2 ++ fds.map .closed) := by
  rcases execute_cases argv startup with ⟨-, hexecute⟩ |
    ⟨port, password, -, ⟨what, entries, -, -, hexecute⟩ | ⟨fd, -, hexecute⟩⟩
  · rw [hexecute] at hserving
    cases hserving
  · rw [hexecute] at hserving
    cases hserving
  rw [hexecute] at hserving
  cases hdrive : (Loop.start fd password).drive ks with
  | thrown what left =>
    rw [hdrive] at hserving
    cases hserving
  | standing l₀ =>
    have hrun := Loop.drive_standing.1 hdrive
    rw [hdrive] at hserving
    have hpc : l₀.pc ≠ .stopped := by
      intro hpc
      rw [conclude, if_pos hpc] at hserving
      cases hserving
    rw [conclude_serving _ hpc] at hserving
    cases hserving
    obtain ⟨hr, hlistener⟩ := Loop.run_reachable hrun
    obtain ⟨s, es, hend, hsteps, hes⟩ := Loop.run_stopping hr hstop (l.turnsToStop_le.trans hlength)
    obtain ⟨⟨actions, hlog, hactions⟩, -, hinput⟩ := hr.parts hsteps hes
    obtain ⟨swept, hswept⟩ := entries_farewell hactions
    have hwhole : (Loop.start fd password).run (ks ++ ks') = .ok ⟨s, .stopped⟩ :=
      (Loop.run_append hrun).trans hend
    obtain ⟨hr', hlistener'⟩ := Loop.run_reachable hwhole
    have hledger : s.ledger = l.server.ledger ++ swept.map .closed := by
      rw [Server.ledger_append hlog, hswept]
    -- what is closed in the last round, and what the destructor closes
    have hclosings : s.ledger ++ s.destroy =
        l.server.ledger ++ (swept ++ (s.clients.keys ++ [s.listenerFd])).map .closed := by
      rw [hledger, List.map_append, List.append_assoc]
      rfl
    refine ⟨s, es, actions, swept ++ (s.clients.keys ++ [s.listenerFd]), hend, hsteps, hes,
      fun fd hfd => hinput fd (Server.live_iff_mem.2 hfd), hlog, hactions, ?_, ?_⟩
    · obtain ⟨hhonest, hheld⟩ := Loop.run_ledger hrun
      obtain ⟨hhonest', hheld'⟩ := Loop.run_ledger hwhole
      obtain ⟨hclosed, hempty⟩ := Server.destroy_spec hr'.polled
      have hall : Ledger.Honest ∅ ((.opened fd :: s.ledger) ++ s.destroy) :=
        Ledger.honest_append.2 ⟨hhonest', by rw [hheld']; exact hclosed⟩
      have hnone : Ledger.held ∅ ((.opened fd :: s.ledger) ++ s.destroy) = ∅ := by
        rw [Ledger.held_append, hheld', hempty]
      rw [List.cons_append, hclosings, ← List.cons_append] at hall hnone
      rw [Ledger.honest_append, hheld] at hall
      rw [Ledger.held_append, hheld] at hnone
      exact Ledger.perm_of_closed hr.polled.nodup hall.2 hnone
    · rw [hexecute, hexecute, hdrive, Loop.drive_standing.2 hwhole, conclude_stopped, hclosings,
        conclude_serving _ hpc, List.append_assoc]

/-- The client on 4 has sent half a line, and is readable again. -/
def halfTurns : List Kernel :=
  Loop.acceptTurns 1 4 ++
    [{ poll := .ready (Loop.only 1) }, ({} : Kernel), { received := some "PI".toList }] ++
    List.replicate 4 ({} : Kernel) ++ [{ poll := .ready (Loop.only 1) }, ({} : Kernel)]

/-- The rest of the line is there to be read when the stop comes. -/
def stopTurns : List Kernel := List.replicate 5 { stopRequested := true, received := some "NG x\n".toList }

theorem stop_closes_all_session :
    ∃ (l : Loop) (s : Server) (fds : List Fd),
      (execute sessionArguments { socket := some 3 } halfTurns).1 = .serving l ∧ l.pc = .visit 1 ∧
      l.run stopTurns = .ok ⟨s, .stopped⟩ ∧ 4 ∈ s.clients ∧ (s.client 4).inputBuffer = "PI".toList ∧
      fds.Perm [3, 4] ∧
      execute sessionArguments { socket := some 3 } (halfTurns ++ stopTurns) =
        (.exited .success,
          (execute sessionArguments { socket := some 3 } halfTurns).2 ++ fds.map .closed) := by
  have h : (execute sessionArguments { socket := some 3 } halfTurns).1.loop?.map
      (fun l => (l.server.fds, l.pc, (l.server.client 4).inputBuffer,
        (l.run stopTurns).toOption.map (·.server.clients.contains 4))) =
      some ([3, 4], .visit 1, "PI".toList, some true) := by decide +kernel
  obtain ⟨l, hl, hview⟩ := Option.map_eq_some_iff.1 h
  simp only [Prod.mk.injEq] at hview
  obtain ⟨hfds, hpc, hstored, hstays⟩ := hview
  have hstop : ∀ k ∈ stopTurns, k.stopRequested = true := by
    intro k hk
    rw [List.eq_of_mem_replicate hk]
  obtain ⟨s, _, _, fds, hrun, -, -, hinput, -, -, hperm, hexit⟩ := stop_closes_all sessionArguments
    { socket := some 3 } halfTurns (Process.eq_serving hl) hstop (by rw [hfds]; decide)
  have hmem : 4 ∈ s.clients := by
    rw [hrun] at hstays
    exact ExtTreeMap.mem_iff_contains.2 (Option.some.inj hstays)
  exact ⟨l, s, fds, Process.eq_serving hl, hpc, hrun, hmem, (hinput 4 hmem).trans hstored, hfds ▸ hperm, hexit⟩

end FtIrc
