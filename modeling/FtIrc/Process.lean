import FtIrc.Main
import FtIrc.Visits
import FtIrc.Lib.Ledger

/-!
# The process (`srcs/main.cpp`, the constructor and the destructor of `Server`)

From the command line to the exit, with every descriptor that is opened and closed on the way:
the listening socket, the accepted ones, what is closed when an exception is thrown, and what
the destructor closes.  What the system answers is an argument again.
-/

namespace FtIrc

open Std
open Ledger (Entry)

/-- What the system answers while the server is set up. -/
structure Startup where
  sigint : Bool := true
  sigterm : Bool := true
  sigpipe : Bool := true
  socket : Option Fd
  setsockopt : Bool := true
  fcntl : Bool := true
  bind : UInt16 → Bool := fun _ => true
  listen : Bool := true

/-- What an entry of the history opens or closes. -/
def Action.entry : Action → Option (Entry Fd)
  | .accepted fd => some (.opened fd)
  | .removed fd => some (.closed fd)
  | _ => none

namespace Server

def installSignalHandlers (k : Startup) : Except String Unit :=
  if !k.sigint then .error "sigaction() failed for SIGINT"
  else if !k.sigterm then .error "sigaction() failed for SIGTERM"
  else if !k.sigpipe then .error "sigaction() failed for SIGPIPE"
  else .ok ()

def createListeningSocket (port : UInt16) (password : Text) (k : Startup) :
    Except String Server × List (Entry Fd) :=
  match k.socket with
  | none => (.error "socket() failed", [])
  | some fd =>
    if !k.setsockopt then (.error "setsockopt() failed", [.opened fd, .closed fd])
    else if !k.fcntl then
      (.error "fcntl() failed on listening socket", [.opened fd, .closed fd])
    else if !k.bind port then
      (.error "bind() failed; port may already be in use", [.opened fd, .closed fd])
    else if !k.listen then (.error "listen() failed", [.opened fd, .closed fd])
    else
      (({ listenerFd := fd, password := password, pollFds := [] } : Server).addPollFd fd
        { pollin := true }, [.opened fd])

/-- The constructor.  When it throws, the destructor does not run. -/
def construct (port : UInt16) (password : Text) (k : Startup) :
    Except String Server × List (Entry Fd) :=
  match installSignalHandlers k with
  | .error what => (.error what, [])
  | .ok () => createListeningSocket port password k

/-- The `catch` of `acceptClient`: either `delete client` or `close` closes the descriptor. -/
def abandon (s : Server) : AcceptResult → Server × List (Entry Fd)
  | .failed => (s, [])
  | .blocking fd => ({ s with clients := s.clients.erase fd }, [.opened fd, .closed fd])
  | .connected fd => ({ s with clients := s.clients.erase fd }, [.opened fd, .closed fd])

/-- The destructor: every client closes its socket, then the listening socket is closed. -/
def destroy (s : Server) : List (Entry Fd) := (s.clients.keys ++ [s.listenerFd]).map .closed

/-- What has been opened and closed since the server was constructed. -/
def ledger (s : Server) : List (Entry Fd) := s.log.filterMap Action.entry

end Server

namespace Loop

/-- What is left when a turn throws: in the loop over descriptors only `acceptClient` does. -/
def unwind (l : Loop) (k : Kernel) : Server × List (Entry Fd) :=
  match l.pc with
  | .visit _ => l.server.abandon k.accept
  | _ => (l.server, [])

inductive Progress where
  | standing (l : Loop)
  | thrown (what : String) (left : Server × List (Entry Fd))

/-- `run`, as far as the answers go. -/
def drive (l : Loop) : List Kernel → Progress
  | [] => .standing l
  | k :: ks =>
    match l.turn k with
    | .ok l => drive l ks
    | .error what => .thrown what (l.unwind k)

end Loop

inductive Exit where
  | usage
  | error (what : String)
  | success
deriving DecidableEq

inductive Process where
  | serving (l : Loop)
  | exited (exit : Exit)

namespace Process

def loop? : Process → Option Loop
  | .serving l => some l
  | .exited _ => none

def exit? : Process → Option Exit
  | .serving _ => none
  | .exited exit => some exit

theorem eq_serving {p : Process} {l : Loop} (h : p.loop? = some l) : p = .serving l := by
  cases p <;> cases h
  rfl

theorem eq_exited {p : Process} {exit : Exit} (h : p.exit? = some exit) : p = .exited exit := by
  cases p <;> cases h
  rfl

end Process

/-- How `main` ends, with the destructor, when the constructor has not thrown. -/
def conclude (entries : List (Entry Fd)) : Loop.Progress → Process × List (Entry Fd)
  | .standing l =>
    if l.pc = .stopped then (.exited .success, entries ++ (l.server.ledger ++ l.server.destroy))
    else (.serving l, entries ++ l.server.ledger)
  | .thrown what left =>
    (.exited (.error what), entries ++ (left.1.ledger ++ (left.2 ++ left.1.destroy)))

/-- What has become of the process, and what it has opened and closed. -/
def execute (argv : List Text) (startup : Startup) (ks : List Kernel) : Process × List (Entry Fd) :=
  match main argv with
  | none => (.exited .usage, [])
  | some (port, password) =>
    match Server.construct port password startup with
    | (.error what, entries) => (.exited (.error what), entries)
    | (.ok s, entries) => conclude entries (Loop.drive ⟨s, .poll⟩ ks)

/-! ## The constructor -/

namespace Server

theorem createListeningSocket_cases (port : UInt16) (password : Text) (k : Startup) :
    (∃ what, createListeningSocket port password k = (.error what, [])) ∨
    (∃ what fd, createListeningSocket port password k = (.error what, [.opened fd, .closed fd])) ∨
    ∃ fd, createListeningSocket port password k = (.ok (start fd password), [.opened fd]) := by
  unfold createListeningSocket
  cases k.socket with
  | none => exact Or.inl ⟨_, rfl⟩
  | some fd =>
    right
    dsimp only
    by_cases hset : (!k.setsockopt) = true
    · exact Or.inl ⟨_, fd, if_pos hset⟩
    by_cases hfcntl : (!k.fcntl) = true
    · exact Or.inl ⟨_, fd, by rw [if_neg hset, if_pos hfcntl]⟩
    by_cases hbind : (!k.bind port) = true
    · exact Or.inl ⟨_, fd, by rw [if_neg hset, if_neg hfcntl, if_pos hbind]⟩
    by_cases hlisten : (!k.listen) = true
    · exact Or.inl ⟨_, fd, by rw [if_neg hset, if_neg hfcntl, if_neg hbind, if_pos hlisten]⟩
    · refine Or.inr ⟨fd, ?_⟩
      rw [if_neg hset, if_neg hfcntl, if_neg hbind, if_neg hlisten]
      rfl

/-- **A start that fails leaves nothing open.** -/
theorem construct_cases (port : UInt16) (password : Text) (k : Startup) :
    (∃ what, construct port password k = (.error what, [])) ∨
    (∃ what fd, construct port password k = (.error what, [.opened fd, .closed fd])) ∨
    ∃ fd, construct port password k = (.ok (start fd password), [.opened fd]) := by
  unfold construct
  cases installSignalHandlers k with
  | error what => exact Or.inl ⟨what, rfl⟩
  | ok => exact createListeningSocket_cases port password k

/-! ## The ledger of a run -/

variable {s s' : Server} {e : Event} {fd : Fd} {result : AcceptResult} {what : String}

theorem ledger_append {actions : List Action} (hlog : s'.log = s.log ++ actions) :
    s'.ledger = s.ledger ++ actions.filterMap Action.entry := by
  unfold ledger
  rw [hlog, List.filterMap_append]

theorem entry_quiet {a : Action} (h : a.isQuiet = true) : a.entry = none := by
  cases a <;> first | rfl | cases h

theorem entry_delivery {a : Action} (h : a.isDelivery = true) : a.entry = none := by
  cases a <;> first | rfl | cases h

theorem ledger_removed {signals : List Signal} {pollFds : List PollFd}
    (hwire : s'.wire = (s.wire.deliver signals).disconnect fd pollFds) :
    s'.ledger = s.ledger ++ [.closed fd] := by
  obtain ⟨delivered, hlog, hdelivery⟩ := s.wire.log_deliver signals
  rw [ledger_append (log_removed hwire hlog), List.filterMap_append,
    List.filterMap_eq_nil_iff.2 fun a ha => entry_delivery (hdelivery a ha)]
  rfl

/-- What a step opens and closes. -/
theorem Reachable.ledger_step (hr : Reachable s) (hs : s.Step e s') :
    (∃ fd, s'.ledger = s.ledger ++ [.opened fd] ∧ ∀ x, s'.core.Live x ↔ x = fd ∨ s.core.Live x) ∨
    (∃ fd, s.core.Live fd ∧ s'.ledger = s.ledger ++ [.closed fd] ∧
      ∀ x, s'.core.Live x ↔ x ≠ fd ∧ s.core.Live x) ∨
    (s'.ledger = s.ledger ∧ ∀ x, s'.core.Live x ↔ s.core.Live x) := by
  cases hs.move hr.ok.membersLive with
  | quiet hcore hquiet =>
    right; right
    obtain ⟨actions, hlog, hq⟩ := hquiet.log
    refine ⟨?_, fun x => by rw [hcore]⟩
    rw [ledger_append hlog, List.filterMap_eq_nil_iff.2 fun a ha => entry_quiet (hq a ha),
      List.append_nil]
  | @connect fd _ _ hcore hwire =>
    refine Or.inl ⟨fd, ledger_append (congrArg Wire.log hwire), fun x => ?_⟩
    rw [hcore, Core.live_connect, eq_comm]
  | command signals _ _ heffect hwire =>
    right; right
    refine ⟨?_, heffect.live⟩
    obtain ⟨delivered, hlog, hdelivery⟩ := Wire.log_deliver _ signals
    rw [ledger_append (log_handled hwire hlog), List.filterMap_append,
      List.filterMap_eq_nil_iff.2 fun a ha => entry_delivery (hdelivery a ha)]
    exact List.append_nil _
  | @disconnect _ p _ _ _ _ hfd hcore _ hwire =>
    refine Or.inr (Or.inl ⟨p.fd, hfd, ledger_removed hwire, fun x => ?_⟩)
    rw [hcore, Core.live_disconnect, ne_comm]

/-- **The server closes nothing but what is open, and what is open are the listening socket and
the sockets of the clients.** -/
theorem Reachable.accounted (hr : Reachable s) :
    Ledger.Honest {s.listenerFd} s.ledger ∧
      ∀ x, x ∈ Ledger.held {s.listenerFd} s.ledger ↔ x = s.listenerFd ∨ s.core.Live x := by
  refine hr.invariant (I := fun s => Ledger.Honest {s.listenerFd} s.ledger ∧
    ∀ x, x ∈ Ledger.held {s.listenerFd} s.ledger ↔ x = s.listenerFd ∨ s.core.Live x) ?_ ?_
  · intro listenerFd password
    refine ⟨trivial, fun x => ?_⟩
    show x ∈ ({listenerFd} : Finset Fd) ↔ _
    rw [Finset.mem_singleton]
    exact ⟨Or.inl, fun h => h.resolve_right (by simp [Core.Live, core, Server.start])⟩
  · rintro s e s' hr ⟨hhonest, hheld⟩ hs
    rw [hs.listenerFd hr]
    rcases hr.ledger_step hs with ⟨fd, hledger, hlive⟩ | ⟨fd, hfd, hledger, hlive⟩ | ⟨hledger, hlive⟩
    · rw [hledger, Ledger.honest_append, Ledger.held_append]
      refine ⟨⟨hhonest, trivial⟩, fun x => ?_⟩
      show x ∈ insert fd _ ↔ _
      rw [Finset.mem_insert, hheld, hlive]
      exact or_left_comm
    · have hne : fd ≠ s.listenerFd := ((hr.polled.live fd).1 hfd).2
      rw [hledger, Ledger.honest_append, Ledger.held_append]
      refine ⟨⟨hhonest, (hheld fd).2 (Or.inr hfd), trivial⟩, fun x => ?_⟩
      show x ∈ Finset.erase _ fd ↔ _
      rw [Finset.mem_erase, hheld, hlive]
      by_cases hx : x = s.listenerFd
      · simp [hx, hne.symm]
      · simp [hx]
    · rw [hledger]
      refine ⟨hhonest, fun x => ?_⟩
      rw [hheld, hlive]

theorem Reachable.held_ledger (hr : Reachable s) :
    Ledger.held {s.listenerFd} s.ledger = s.fds.toFinset := by
  ext x
  rw [hr.accounted.2, List.mem_toFinset, hr.polled.live]
  by_cases hx : x = s.listenerFd
  · simp [hx, hr.polled.listener]
  · simp [hx]

/-- **The destructor closes what is open.** -/
theorem destroy_spec (hpolled : s.Polled) :
    Ledger.Honest s.fds.toFinset s.destroy ∧ Ledger.held s.fds.toFinset s.destroy = ∅ := by
  have hmem (x : Fd) : x ∈ s.clients.keys ++ [s.listenerFd] ↔ x ∈ s.fds := by
    rw [List.mem_append, List.mem_singleton, ExtTreeMap.mem_keys, ExtTreeMap.mem_iff_isSome_getElem?]
    rw [show s.clients[x]?.isSome = true ↔ x ∈ s.fds ∧ x ≠ s.listenerFd from
      (live_iff s x).symm.trans (hpolled.live x)]
    by_cases hx : x = s.listenerFd
    · simp [hx, hpolled.listener]
    · simp [hx]
  have hsame : (s.clients.keys ++ [s.listenerFd]).toFinset = s.fds.toFinset := by
    ext x
    rw [List.mem_toFinset, List.mem_toFinset, hmem]
  constructor
  · refine Ledger.honest_closed.2 ⟨?_, hsame.subset⟩
    refine List.nodup_append.2 ⟨ExtTreeMap.nodup_keys, List.nodup_singleton _, ?_⟩
    intro x hx y hy hxy
    rw [List.mem_singleton.1 hy] at hxy
    rw [ExtTreeMap.mem_keys, ExtTreeMap.mem_iff_isSome_getElem?] at hx
    exact ((hpolled.live x).1 ((live_iff s x).2 hx)).2 hxy
  · unfold destroy
    rw [Ledger.held_closed, hsame, Finset.sdiff_self]

/-! ## What throws -/

/-- Why a descriptor is refused that is watched already. -/
def known (s : Server) (fd : Fd) : String :=
  if fd = s.listenerFd then "attempted to register the same fd twice !!!"
  else "accepted fd already belongs to a client"

theorem acceptClient_connected (hpolled : s.Polled) (fd : Fd) :
    s.acceptClient (.connected fd) = .error what ↔ fd ∈ s.fds ∧ what = s.known fd := by
  have hlive : s.clients.contains fd = true ↔ fd ∈ s.fds ∧ fd ≠ s.listenerFd := by
    rw [ExtTreeMap.contains_eq_isSome_getElem?]
    exact (live_iff s fd).symm.trans (hpolled.live fd)
  have hany : (s.pollFds.any fun p => p.fd == fd) = true ↔ fd ∈ s.fds := by
    simp [fds, List.any_eq_true]
  show (if s.clients.contains fd = true then _
    else if (s.pollFds.any fun p => p.fd == fd) = true then _ else _) = _ ↔ _
  unfold known
  by_cases hmem : fd ∈ s.fds
  · by_cases hlistener : fd = s.listenerFd
    · rw [if_neg (fun h => (hlive.1 h).2 hlistener), if_pos (hany.2 hmem), if_pos hlistener]
      simp [hmem, eq_comm]
    · rw [if_pos (hlive.2 ⟨hmem, hlistener⟩), if_neg hlistener]
      simp [hmem, eq_comm]
  · rw [if_neg (fun h => hmem (hlive.1 h).1), if_neg (fun h => hmem (hany.1 h))]
    simp [hmem]

/-- **Why accepting throws.** -/
theorem acceptClient_error (hpolled : s.Polled) :
    s.acceptClient result = .error what ↔
      ∃ fd, (result = .blocking fd ∧ what = "fcntl() failed") ∨
        (result = .connected fd ∧ fd ∈ s.fds ∧ what = s.known fd) := by
  cases result with
  | failed => simp [acceptClient]
  | blocking fd => simp [acceptClient, eq_comm]
  | connected fd =>
    rw [acceptClient_connected hpolled]
    simp

/-- In the loop over descriptors only accepting throws. -/
theorem visitDescriptor_error {i : Nat} {k : Kernel} :
    s.visitDescriptor i k = .error what ↔
      ∃ p, s.pollFds[i]? = some p ∧ p.fd = s.listenerFd ∧ p.revents.pollin = true ∧
        s.acceptClient k.accept = .error what := by
  unfold visitDescriptor
  cases s.pollFds[i]? with
  | none => simp
  | some p =>
    dsimp only
    by_cases hidle : p.revents = {}
    · rw [if_pos hidle]
      simp [hidle]
    rw [if_neg hidle]
    by_cases hlistener : p.fd = s.listenerFd
    · rw [if_pos hlistener]
      by_cases hpollin : p.revents.pollin = true
      · rw [if_pos hpollin]
        cases s.acceptClient k.accept <;> simp [Except.map, hlistener, hpollin]
      · rw [if_neg hpollin]
        simp [hpollin]
    · rw [if_neg hlistener]
      have hnot : ¬ ∃ q, some p = some q ∧ q.fd = s.listenerFd ∧ q.revents.pollin = true ∧
          s.acceptClient k.accept = .error what := by
        rintro ⟨q, hq, hfd, -⟩
        cases hq
        exact hlistener hfd
      refine iff_of_false ?_ hnot
      generalize (if p.revents.pollin = true then s.receiveFromClient i k.received else (s, true)) = received
      generalize (if p.revents.pollout = true then received.1.flushClientOutput i k.sent
        else (received.1, true)) = flushed
      split
      · exact nofun
      split
      · exact nofun
      split
      · exact nofun
      split
      · exact nofun
      · exact nofun

end Server

namespace Loop

variable {l l' : Loop} {k : Kernel} {ks ks' : List Kernel} {what : String}

/-- In this turn a connection is accepted. -/
def Accepts (l : Loop) (k : Kernel) : Prop :=
  ∃ i p, l.pc = .visit i ∧ k.stopRequested = false ∧ l.server.pollFds[i]? = some p ∧
    p.fd = l.server.listenerFd ∧ p.revents.pollin = true

/-- What the system can answer so that a turn throws. -/
def Fails (l : Loop) (k : Kernel) (what : String) : Prop :=
  (l.pc = .poll ∧ k.stopRequested = false ∧ k.poll = .failed false ∧ what = "poll() failed") ∨
  (l.Accepts k ∧ (∃ fd, k.accept = .blocking fd) ∧ what = "fcntl() failed")

/-- The system answers with a descriptor that is watched already. -/
def Repeats (l : Loop) (k : Kernel) (what : String) : Prop :=
  l.Accepts k ∧ ∃ fd, k.accept = .connected fd ∧ fd ∈ l.server.fds ∧ what = l.server.known fd

/-- **Why a turn throws.** -/
theorem turn_error (hr : l.server.Reachable) :
    l.turn k = .error what ↔ l.Fails k what ∨ l.Repeats k what := by
  obtain ⟨s, pc⟩ := l
  unfold turn
  cases pc with
  | stopped => simp [Fails, Repeats, Accepts]
  | sweep i =>
    dsimp only
    split <;> simp [Fails, Repeats, Accepts]
  | poll =>
    dsimp only
    by_cases hstop : k.stopRequested = true
    · simp [Fails, Repeats, Accepts, hstop]
    rw [if_neg hstop]
    cases hpoll : k.poll with
    | failed stopRequested =>
      cases stopRequested with
      | true => simp [Fails, Repeats, Accepts, hpoll]
      | false =>
        simp [Fails, Repeats, Accepts, hpoll, hstop]
        exact eq_comm
    | ready revents =>
      dsimp only
      split <;> simp [Fails, Repeats, Accepts, hpoll]
  | visit i =>
    dsimp only
    have haccept : s.acceptClient k.accept = .error what ↔ _ := Server.acceptClient_error hr.polled
    by_cases hcond : (decide (i < s.pollFds.length) && !k.stopRequested) = true
    · rw [if_pos hcond]
      have hstop : k.stopRequested = false := by
        rw [Bool.and_eq_true, Bool.not_eq_true'] at hcond
        exact hcond.2
      have hvisit : s.visitDescriptor i k = .error what ↔ _ := Server.visitDescriptor_error
      have hmap : Except.map (fun next => (⟨next.1, .visit next.2⟩ : Loop)) (s.visitDescriptor i k) =
          .error what ↔ s.visitDescriptor i k = .error what := by
        cases s.visitDescriptor i k <;> simp [Except.map]
      rw [hmap, hvisit]
      constructor
      · rintro ⟨p, hp, hfd, hpollin, herror⟩
        have hacc : Accepts ⟨s, .visit i⟩ k := ⟨i, p, rfl, hstop, hp, hfd, hpollin⟩
        obtain ⟨fd, ⟨hres, hwhat⟩ | ⟨hres, hmem, hwhat⟩⟩ := haccept.1 herror
        · exact Or.inl (Or.inr ⟨hacc, ⟨fd, hres⟩, hwhat⟩)
        · exact Or.inr ⟨hacc, fd, hres, hmem, hwhat⟩
      · rintro ((⟨hpc, -⟩ | ⟨⟨j, p, hpc, -, hp, hfd, hpollin⟩, ⟨fd, hres⟩, hwhat⟩) |
          ⟨⟨j, p, hpc, -, hp, hfd, hpollin⟩, fd, hres, hmem, hwhat⟩)
        · cases hpc
        · cases hpc
          exact ⟨p, hp, hfd, hpollin, haccept.2 ⟨fd, Or.inl ⟨hres, hwhat⟩⟩⟩
        · cases hpc
          exact ⟨p, hp, hfd, hpollin, haccept.2 ⟨fd, Or.inr ⟨hres, hmem, hwhat⟩⟩⟩
    · rw [if_neg hcond]
      refine iff_of_false nofun ?_
      have hnot : ¬ Accepts ⟨s, .visit i⟩ k := by
        rintro ⟨j, p, hpc, hstop, hp, -⟩
        cases hpc
        have hlt := (List.getElem?_eq_some_iff.1 hp).1
        simp [hstop, hlt] at hcond
      rintro ((⟨hpc, -⟩ | ⟨h, -⟩) | ⟨h, -⟩)
      · cases hpc
      · exact hnot h
      · exact hnot h

/-- How far `run` gets. -/
theorem drive_standing : l.drive ks = .standing l' ↔ l.run ks = .ok l' := by
  induction ks generalizing l with
  | nil => simp [drive, run, pure, Except.pure]
  | cons k ks ih =>
    unfold drive run
    rw [List.foldlM_cons]
    cases hk : l.turn k with
    | error what => simp [bind, Except.bind]
    | ok l₁ => exact ih

theorem drive_thrown {left : Server × List (Entry Fd)} :
    l.drive ks = .thrown what left ↔ ∃ before k after l', ks = before ++ k :: after ∧
      l.run before = .ok l' ∧ l'.turn k = .error what ∧ left = l'.unwind k := by
  induction ks generalizing l with
  | nil => simp [drive]
  | cons k ks ih =>
    unfold drive
    cases hk : l.turn k with
    | error what' =>
      constructor
      · intro h
        cases h
        exact ⟨[], k, ks, l, rfl, rfl, hk, rfl⟩
      · rintro ⟨before, k', after, l', hks, hrun, hturn, rfl⟩
        cases before with
        | nil =>
          cases hks
          cases hrun
          rw [hk] at hturn
          cases hturn
          rfl
        | cons k₁ before =>
          cases hks
          unfold run at hrun
          rw [List.foldlM_cons, hk] at hrun
          cases hrun
    | ok l₁ =>
      dsimp only
      rw [ih]
      constructor
      · rintro ⟨before, k', after, l', rfl, hrun, hturn, hleft⟩
        refine ⟨k :: before, k', after, l', rfl, ?_, hturn, hleft⟩
        unfold run
        rw [List.foldlM_cons, hk]
        exact hrun
      · rintro ⟨before, k', after, l', hks, hrun, hturn, hleft⟩
        cases before with
        | nil =>
          cases hks
          cases hrun
          rw [hk] at hturn
          cases hturn
        | cons k₁ before =>
          cases hks
          unfold run at hrun
          rw [List.foldlM_cons, hk] at hrun
          exact ⟨before, k', after, l', rfl, hrun, hturn, hleft⟩

end Loop

end FtIrc
