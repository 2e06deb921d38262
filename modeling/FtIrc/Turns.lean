import Mathlib.Data.List.TakeWhile
import FtIrc.Descriptors

/-!
# Turns of the event loop

Every turn of the loop is a run of steps of the transition system, so what holds of every
reachable server holds of the server in every reachable loop (`Loop.reachable_server`).
A turn reads from one client at most (`Loop.Turn.cases`), and handles all lines of the read in
time, with the possible exception of the first.
-/

namespace FtIrc

open Std

/-- Whose bytes are read, or whose line is handled. -/
def Event.input? : Event → Option Fd
  | .receive fd _ => some fd
  | .pop fd => some fd
  | .line fd _ => some fd
  | _ => none

namespace Server

variable {s s' : Server} {e : Event} {fd : Fd} {i : Nat}

/-- No command is dispatched for a client that is to be disconnected. -/
def Timely (s : Server) (e : Event) : Prop :=
  ∀ fd line, e = .line fd line → (Command.parse line).valid = true →
    (s.client fd).disconnectRequested = false

def TimelyStep (s : Server) (e : Event) (s' : Server) : Prop := s.Step e s' ∧ s.Timely e

abbrev TimelyRun (s s' : Server) : Prop := Transition.Reachable TimelyStep s s'

/-- Nothing is read and no line is handled. -/
def MuteStep (s : Server) (e : Event) (s' : Server) : Prop := s.Step e s' ∧ e.input? = none

abbrev MuteRun (s s' : Server) : Prop := Transition.Reachable MuteStep s s'

theorem MuteRun.timely (h : MuteRun s s') : TimelyRun s s' := by
  obtain ⟨es, hes⟩ := h
  refine (hes.mono fun _ e _ hs => ⟨hs.1, ?_⟩).reachable
  rintro fd line rfl
  cases hs.2

theorem MuteRun.single (hs : s.Step e s') (he : e.input? = none) : MuteRun s s' :=
  Transition.Reachable.refl.step ⟨hs, he⟩

/-- A step with the input of the client on `fd`. -/
def InputStep (fd : Fd) (s : Server) (e : Event) (s' : Server) : Prop :=
  s.Step e s' ∧ e.input? = some fd

abbrev InputRun (fd : Fd) (s s' : Server) : Prop := Transition.Reachable (InputStep fd) s s'

theorem InputRun.steps (h : InputRun fd s s') : Transition.Reachable Step s s' := by
  obtain ⟨es, hes⟩ := h
  exact (hes.mono fun _ _ _ hs => hs.1).reachable

theorem TimelyRun.steps (h : TimelyRun s s') : Transition.Reachable Step s s' := by
  obtain ⟨es, hes⟩ := h
  exact (hes.mono fun _ _ _ hs => hs.1).reachable

theorem Reachable.run (h : Reachable s) (hrun : Transition.Reachable Step s s') : Reachable s' := by
  obtain ⟨listenerFd, password, hr⟩ := h
  exact ⟨listenerFd, password, hr.trans hrun⟩

/-! ## The lines of one read -/

theorem notMem_popLine {c c' : Client} {line : Text} (h : c.popLine = some (line, c')) :
    '\n' ∉ line := by
  unfold Client.popLine at h
  split at h
  · cases h
  cases h
  have htake : '\n' ∉ c.inputBuffer.takeWhile (· != '\n') := by
    intro hmem
    have := List.mem_takeWhile_imp hmem
    simp at this
  unfold Client.stripReturn
  split
  · exact fun hmem => htake (List.mem_of_mem_dropLast hmem)
  · exact htake

theorem client_modifyClient (hfd : s.core.Live fd) (f : Client → Client) :
    (s.modifyClient fd f).client fd = f (s.client fd) := by
  have hc := findClient_of_live hfd
  unfold client modifyClient
  rw [ExtTreeMap.getElem?_modify_self, show s.clients[fd]? = some (s.client fd) from hc]
  rfl

theorem live_of_flag (h : (s.client fd).disconnectRequested = true) : s.core.Live fd := by
  rw [client_disconnectRequested] at h
  rw [← isSome_ports]
  unfold Wire.port at h
  cases hp : s.wire.ports fd with
  | none => rw [hp] at h; cases h
  | some p => rfl

/-- One turn of the loop of `receiveFromClient`. -/
def handleFirst (s : Server) (fd : Fd) (line : Text) (client : Client) : Server :=
  (s.modifyClient fd fun _ => client).handleCompleteLine fd line

variable {line : Text} {client : Client}

theorem step_pop (hfd : s.core.Live fd) (hpop : (s.client fd).popLine = some (line, client)) :
    s.Step (.pop fd) (s.modifyClient fd fun _ => client) := by
  unfold Step step
  dsimp only
  rw [findClient_of_live hfd, Option.bind_some, hpop]
  rfl

theorem flag_popped (hfd : s.core.Live fd) (hpop : (s.client fd).popLine = some (line, client)) :
    ((s.modifyClient fd fun _ => client).client fd).disconnectRequested =
      (s.client fd).disconnectRequested := by
  rw [client_modifyClient hfd, popLine_spec hpop]

theorem step_handleFirst (hfd : s.core.Live fd)
    (hpop : (s.client fd).popLine = some (line, client)) :
    (s.modifyClient fd fun _ => client).Step (.line fd line) (s.handleFirst fd line client) := by
  have hlive := ((same_popped fd client).live fd).2 hfd
  unfold Step step
  exact if_pos ⟨(live_iff _ fd).1 hlive, notMem_popLine hpop⟩

theorem same_handleFirst (hr : Reachable s) (hfd : s.core.Live fd)
    (hpop : (s.client fd).popLine = some (line, client)) :
    s.SameConnections (s.handleFirst fd line client) :=
  (same_popped fd client).trans (same_handleCompleteLine (hr.step (step_pop hfd hpop)).ok.membersLive
    (((same_popped fd client).live fd).2 hfd) line)

/-- The first line is handled in time if it is no command or its client is unmarked. -/
theorem handleFirst_timely (hfd : s.core.Live fd)
    (hpop : (s.client fd).popLine = some (line, client))
    (hflag : (Command.parse line).valid = true → (s.client fd).disconnectRequested = false) :
    TimelyRun s (s.handleFirst fd line client) := by
  have hline : (s.modifyClient fd fun _ => client).Timely (.line fd line) := by
    rintro _ _ ⟨⟩ hvalid
    rw [flag_popped hfd hpop]
    exact hflag hvalid
  exact (Transition.Reachable.refl.step ⟨step_pop hfd hpop, nofun⟩).step
    ⟨step_handleFirst hfd hpop, hline⟩

/-- The lines of a client that is not marked, up to the one that marks it. -/
theorem handleLines_timely (hr : Reachable s) (hfd : s.core.Live fd)
    (hflag : (s.client fd).disconnectRequested = false) (turns : Nat) :
    s.SameConnections (handleLines fd turns s) ∧ TimelyRun s (handleLines fd turns s) := by
  induction turns generalizing s with
  | zero => exact ⟨.refl s, .refl⟩
  | succ turns ih =>
    unfold handleLines
    cases hpop : (s.client fd).popLine with
    | none => exact ⟨.refl s, .refl⟩
    | some popped =>
      obtain ⟨line, client⟩ := popped
      have hrun := handleFirst_timely hfd hpop fun _ => hflag
      have hsame := same_handleFirst hr hfd hpop
      dsimp only
      split
      · exact ⟨hsame, hrun⟩
      · next hflag' =>
        have hrest := ih (s := s.handleFirst fd line client) (hr.run hrun.steps)
          ((hsame.live fd).2 hfd) (Bool.eq_false_iff.2 hflag')
        exact ⟨hsame.trans hrest.1, hrun.trans hrest.2⟩

/-- All lines but the first are handled in time. -/
theorem handleLines_some (hr : Reachable s) (hfd : s.core.Live fd)
    (hpop : (s.client fd).popLine = some (line, client)) (turns : Nat) :
    s.SameConnections (handleLines fd (turns + 1) s) ∧
      TimelyRun (s.handleFirst fd line client) (handleLines fd (turns + 1) s) := by
  have hsame := same_handleFirst hr hfd hpop
  have hr' := (hr.step (step_pop hfd hpop)).step (step_handleFirst hfd hpop)
  rw [handleLines, hpop]
  dsimp only
  split
  · exact ⟨hsame, .refl⟩
  · next hflag =>
    have hrest := handleLines_timely hr' ((hsame.live fd).2 hfd) (Bool.eq_false_iff.2 hflag) turns
    exact ⟨hsame.trans hrest.1, hrest.2⟩

theorem handleLines_none (hpop : (s.client fd).popLine = none) (turns : Nat) :
    handleLines fd turns s = s := by
  cases turns with
  | zero => rfl
  | succ turns => rw [handleLines, hpop]

theorem same_handleLines (hr : Reachable s) (hfd : s.core.Live fd) (turns : Nat) :
    s.SameConnections (handleLines fd turns s) := by
  cases turns with
  | zero => exact .refl s
  | succ turns =>
    cases hpop : (s.client fd).popLine with
    | none =>
      rw [handleLines_none hpop]
      exact .refl s
    | some popped => exact (handleLines_some hr hfd hpop turns).1

/-- The lines of one client are steps with its own input. -/
theorem handleLines_input (hr : Reachable s) (hfd : s.core.Live fd) (turns : Nat) :
    InputRun fd s (handleLines fd turns s) := by
  induction turns generalizing s with
  | zero => exact .refl
  | succ turns ih =>
    unfold handleLines
    cases hpop : (s.client fd).popLine with
    | none => exact .refl
    | some popped =>
      obtain ⟨line, client⟩ := popped
      have hfirst : InputRun fd s (s.handleFirst fd line client) :=
        (Transition.Reachable.refl.step ⟨step_pop hfd hpop, rfl⟩).step
          ⟨step_handleFirst hfd hpop, rfl⟩
      dsimp only
      split
      · exact hfirst
      · exact hfirst.trans (ih (s := s.handleFirst fd line client) (hr.run hfirst.steps)
          (((same_handleFirst hr hfd hpop).live fd).2 hfd))

/-! ## Marked clients -/

/-- No client is to be disconnected. -/
def NoneMarked (s : Server) : Prop :=
  ∀ (fd : Fd) (c : Client), s.clients[fd]? = some c → c.disconnectRequested = false

/-- The client at `index` is to be disconnected. -/
def MarkedAt (s : Server) (index : Nat) : Prop :=
  ∃ fd, s.fds[index]? = some fd ∧ (s.client fd).disconnectRequested = true

theorem noneMarked_iff_flag : s.NoneMarked ↔ ∀ fd, (s.client fd).disconnectRequested = false := by
  constructor
  · intro h fd
    by_contra hflag
    have hc := findClient_of_live (live_of_flag (Bool.not_eq_false _ ▸ hflag))
    exact hflag (h fd _ hc)
  · intro h fd c hc
    rw [← client_of_found hc]
    exact h fd

theorem noneMarked_iff (hr : Reachable s) :
    s.NoneMarked ↔ ∀ index, ¬ s.MarkedAt index := by
  rw [noneMarked_iff_flag]
  constructor
  · rintro h index ⟨fd, -, hflag⟩
    rw [h fd] at hflag
    cases hflag
  · intro h fd
    rw [Bool.eq_false_iff]
    intro hflag
    obtain ⟨index, hindex⟩ := List.mem_iff_getElem?.1 ((hr.polled.live fd).1 (live_of_flag hflag)).1
    exact h index ⟨fd, hindex, hflag⟩

/-! ## One visit -/

/-- The visit to index `i` reads `data` from the client there. -/
structure Reads (s : Server) (i : Nat) (k : Kernel) (p : PollFd) (data : Text) : Prop where
  entry : s.pollFds[i]? = some p
  client : p.fd ≠ s.listenerFd
  found : (s.findClient p.fd).isSome = true
  pollin : p.revents.pollin = true
  pollerr : p.revents.pollerr = false
  pollnval : p.revents.pollnval = false
  received : k.received = some data
  nonempty : data ≠ []

def appended (s : Server) (p : PollFd) (data : Text) : Server :=
  s.modifyClient p.fd (·.appendInput data)

/-- The server once the lines of the read are handled. -/
def afterLines (s : Server) (p : PollFd) (data : Text) : Server :=
  handleLines p.fd ((s.appended p data).client p.fd).getInputSize (s.appended p data)

/-- What a visit does after reading. -/
def visitRest (s : Server) (i : Nat) (k : Kernel) (events : PollEvents) (ok : Bool) :
    Except String (Server × Nat) :=
  if !ok then .ok (s.removeClient i, i)
  else
    let flushed := if events.pollout then s.flushClientOutput i k.sent else (s, true)
    let s := flushed.1
    if !flushed.2 then .ok (s.removeClient i, i)
    else if events.pollhup then .ok (s.removeClient i, i)
    else .ok (s, i + 1)

/-- What a visit to a client does first. -/
def visitRead (s : Server) (i : Nat) (k : Kernel) (events : PollEvents) : Server × Bool :=
  if events.pollin then s.receiveFromClient i k.received else (s, true)

variable {k : Kernel} {p : PollFd} {data : Text} {i' : Nat}

theorem visitDescriptor_idle (hp : s.pollFds[i]? = some p) (hevents : p.revents = {}) :
    s.visitDescriptor i k = .ok (s, i + 1) := by
  unfold visitDescriptor
  rw [hp]
  exact if_pos hevents

theorem visitDescriptor_listener (hp : s.pollFds[i]? = some p) (hevents : p.revents ≠ {})
    (hlistener : p.fd = s.listenerFd) : s.visitDescriptor i k =
      if p.revents.pollin then (s.acceptClient k.accept).map (·, i + 1) else .ok (s, i + 1) := by
  unfold visitDescriptor
  rw [hp]
  dsimp only
  rw [if_neg hevents, if_pos hlistener]

theorem visitDescriptor_failed (hp : s.pollFds[i]? = some p) (hclient : p.fd ≠ s.listenerFd)
    (herr : (p.revents.pollerr || p.revents.pollnval) = true) :
    s.visitDescriptor i k = .ok (s.removeClient i, i) := by
  have hevents : p.revents ≠ {} := by
    intro he
    rw [he] at herr
    cases herr
  unfold visitDescriptor
  rw [hp]
  dsimp only
  rw [if_neg hevents, if_neg hclient, if_pos herr]

theorem visitDescriptor_client (hp : s.pollFds[i]? = some p) (hevents : p.revents ≠ {})
    (hclient : p.fd ≠ s.listenerFd) (herr : (p.revents.pollerr || p.revents.pollnval) = false) :
    s.visitDescriptor i k =
      (s.visitRead i k p.revents).1.visitRest i k p.revents (s.visitRead i k p.revents).2 := by
  unfold visitDescriptor
  rw [hp]
  dsimp only
  rw [if_neg hevents, if_neg hclient, if_neg (by rw [herr]; exact Bool.false_ne_true)]
  rfl

theorem exists_visitRest (s : Server) (i : Nat) (k : Kernel) (events : PollEvents) (ok : Bool) :
    ∃ next, s.visitRest i k events ok = .ok next := by
  unfold visitRest
  dsimp only
  generalize (if events.pollout then s.flushClientOutput i k.sent else (s, true)) = flushed
  split
  · exact ⟨_, rfl⟩
  split
  · exact ⟨_, rfl⟩
  split <;> exact ⟨_, rfl⟩

/-- What a visit to the entry `p` can do. -/
inductive Visit (s : Server) (i : Nat) (k : Kernel) (p : PollFd) : Server → Nat → Prop
  | idle : p.revents = {} → Visit s i k p s (i + 1)
  | quiet : p.fd = s.listenerFd → p.revents.pollin = false → Visit s i k p s (i + 1)
  | accept {s' : Server} : p.fd = s.listenerFd → p.revents.pollin = true →
      s.acceptClient k.accept = .ok s' → Visit s i k p s' (i + 1)
  | failed : p.fd ≠ s.listenerFd → (p.revents.pollerr || p.revents.pollnval) = true →
      Visit s i k p (s.removeClient i) i
  | client {s' : Server} {i' : Nat} : p.fd ≠ s.listenerFd →
      (p.revents.pollerr || p.revents.pollnval) = false →
      (s.visitRead i k p.revents).1.visitRest i k p.revents (s.visitRead i k p.revents).2 = .ok (s', i') →
      Visit s i k p s' i'

/-- **Every visit is one of these.** -/
theorem visit_cases (hp : s.pollFds[i]? = some p) (h : s.visitDescriptor i k = .ok (s', i')) :
    s.Visit i k p s' i' := by
  by_cases hevents : p.revents = {}
  · rw [visitDescriptor_idle hp hevents] at h
    cases h
    exact .idle hevents
  by_cases hclient : p.fd = s.listenerFd
  · rw [visitDescriptor_listener hp hevents hclient] at h
    cases hin : p.revents.pollin with
    | false =>
      rw [hin, if_neg Bool.false_ne_true] at h
      cases h
      exact .quiet hclient hin
    | true =>
      rw [hin, if_pos rfl] at h
      cases hok : s.acceptClient k.accept with
      | error e => rw [hok] at h; cases h
      | ok s₁ =>
        rw [hok] at h
        cases h
        exact .accept hclient hin hok
  cases herr : p.revents.pollerr || p.revents.pollnval with
  | true =>
    rw [visitDescriptor_failed hp hclient herr] at h
    cases h
    exact .failed hclient herr
  | false =>
    rw [visitDescriptor_client hp hevents hclient herr] at h
    exact .client hclient herr h

theorem receiveFromClient_eq (hp : s.pollFds[i]? = some p) (hfound : (s.findClient p.fd).isSome = true)
    (hne : data ≠ []) : s.receiveFromClient i (some data) = (s.afterLines p data,
      !decide (((s.afterLines p data).client p.fd).getInputSize > maxPendingInput)) := by
  obtain ⟨c, hc⟩ := Option.isSome_iff_exists.1 hfound
  unfold receiveFromClient
  rw [hp]
  dsimp only
  rw [hc]
  cases data with
  | nil => exact absurd rfl hne
  | cons x xs => rfl

theorem receiveFromClient_cases (s : Server) (i : Nat) (received : Option Text) :
    s.receiveFromClient i received = (s, false) ∨ ∃ p data, s.pollFds[i]? = some p ∧
      (s.findClient p.fd).isSome = true ∧ received = some data ∧ data ≠ [] := by
  unfold receiveFromClient
  split
  · exact Or.inl rfl
  next p hp =>
  split
  · exact Or.inl rfl
  next c hc =>
  split
  · exact Or.inl rfl
  · exact Or.inl rfl
  · next data hne => exact Or.inr ⟨p, data, hp, by rw [hc]; rfl, rfl, hne⟩

theorem Reads.visit (h : s.Reads i k p data) :
    s.visitDescriptor i k = (s.afterLines p data).visitRest i k p.revents
      (!decide (((s.afterLines p data).client p.fd).getInputSize > maxPendingInput)) := by
  obtain ⟨hp, hclient, hfound, hin, herr, hnval, hdata, hne⟩ := h
  have hevents : p.revents ≠ {} := by
    intro he
    rw [he] at hin
    cases hin
  have hread : s.visitRead i k p.revents = (s.afterLines p data,
      !decide (((s.afterLines p data).client p.fd).getInputSize > maxPendingInput)) := by
    unfold visitRead
    rw [if_pos hin, hdata, receiveFromClient_eq hp hfound hne]
  rw [visitDescriptor_client hp hevents hclient (by rw [herr, hnval]; rfl), hread]

theorem step_remove (hi : s.isClientIndex i = true) : s.Step (.remove i) (s.removeClient i) :=
  if_pos hi

theorem visitRest_mute (hi : s.isClientIndex i = true) {events : PollEvents}
    {ok : Bool} (h : s.visitRest i k events ok = .ok (s', i')) : MuteRun s s' := by
  have hremove {s : Server} (hi : s.isClientIndex i = true) : MuteRun s (s.removeClient i) :=
    .single (step_remove hi) rfl
  have hflush : MuteRun s (if events.pollout then s.flushClientOutput i k.sent else (s, true)).1 ∧
      (if events.pollout then s.flushClientOutput i k.sent else (s, true)).1.isClientIndex i = true := by
    split
    · have hstep : s.Step (.flush i k.sent) (s.flushClientOutput i k.sent).1 := if_pos hi
      have hsame : s.SameConnections (s.flushClientOutput i k.sent).1 :=
        .of_core (fds_flushClientOutput i k.sent) (quiet_flushClientOutput i k.sent).1
      exact ⟨.single hstep rfl, hsame.isClientIndex hi⟩
    · exact ⟨.refl, hi⟩
  unfold visitRest at h
  split at h
  · cases h
    exact hremove hi
  dsimp only at h
  generalize (if events.pollout then s.flushClientOutput i k.sent else (s, true)) = flushed
    at h hflush
  split at h
  · cases h
    exact hflush.1.trans (hremove hflush.2)
  split at h
  · cases h
    exact hflush.1.trans (hremove hflush.2)
  · cases h
    exact hflush.1

/-- A visit that reads nothing handles no line. -/
theorem visit_of_not_reads (hnot : ∀ p data, ¬ s.Reads i k p data)
    (h : s.visitDescriptor i k = .ok (s', i')) : MuteRun s s' := by
  cases hp : s.pollFds[i]? with
  | none =>
    unfold visitDescriptor at h
    rw [hp] at h
    cases h
    exact .refl
  | some p =>
    have hindex (hclient : p.fd ≠ s.listenerFd) : s.isClientIndex i = true :=
      isClientIndex_iff.2 ⟨p.fd, getElem?_fds hp, hclient⟩
    cases visit_cases hp h with
    | idle => exact .refl
    | quiet => exact .refl
    | accept _ _ hok =>
      have hstep : s.Step (.accept k.accept) s' := by
        unfold Step step
        dsimp only
        rw [hok]
        rfl
      exact .single hstep rfl
    | failed hclient => exact .single (step_remove (hindex hclient)) rfl
    | client hclient herr hrest =>
      -- nothing is read, so the server is still `s`
      have hread : (s.visitRead i k p.revents).1 = s := by
        unfold visitRead
        split
        · next hin =>
          rcases s.receiveFromClient_cases i k.received with hnone | ⟨q, data, hq, hfound, hdata, hne⟩
          · rw [hnone]
          · cases hp.symm.trans hq
            rw [Bool.or_eq_false_iff] at herr
            exact absurd ⟨hp, hclient, hfound, hin, herr.1, herr.2, hdata, hne⟩ (hnot p data)
        · rfl
      rw [hread] at hrest
      exact visitRest_mute (hindex hclient) hrest

theorem Reads.live (h : s.Reads i k p data) : s.core.Live p.fd := (live_iff s p.fd).2 h.found

theorem step_appended (hfd : s.core.Live p.fd) (data : Text) :
    s.Step (.receive p.fd data) (s.appended p data) := by
  unfold Step step
  dsimp only
  rw [findClient_of_live hfd]
  rfl

theorem Reads.receive (h : s.Reads i k p data) :
    s.Step (.receive p.fd data) (s.appended p data) := step_appended h.live data

theorem same_appended (p : PollFd) (data : Text) : s.SameConnections (s.appended p data) :=
  .of_core rfl (core_modifyClient_port s p.fd (f := (·.appendInput data)) fun _ => rfl)

theorem Reads.client_appended (h : s.Reads i k p data) :
    (s.appended p data).client p.fd = (s.client p.fd).appendInput data :=
  client_modifyClient h.live _

theorem Reads.isClientIndex (h : s.Reads i k p data) : s.isClientIndex i = true :=
  isClientIndex_iff.2 ⟨p.fd, getElem?_fds h.entry, h.client⟩

/-- What a read makes of the server: nothing more is complete, or a first line is handled
and the lines behind it in time. -/
theorem Reads.lines (h : s.Reads i k p data) (hr : Reachable s) :
    s.SameConnections (s.afterLines p data) ∧
    ((((s.client p.fd).appendInput data).popLine = none ∧ s.afterLines p data = s.appended p data) ∨
      ∃ line client, ((s.client p.fd).appendInput data).popLine = some (line, client) ∧
        TimelyRun ((s.appended p data).handleFirst p.fd line client) (s.afterLines p data)) := by
  have hr' := hr.step h.receive
  have hfd := ((same_appended p data).live p.fd).2 h.live
  rw [← h.client_appended]
  unfold afterLines
  refine ⟨(same_appended p data).trans (same_handleLines hr' hfd _), ?_⟩
  cases hpop : ((s.appended p data).client p.fd).popLine with
  | none => exact Or.inl ⟨rfl, handleLines_none hpop _⟩
  | some popped =>
    have hsize : ((s.appended p data).client p.fd).getInputSize ≠ 0 := by
      rw [h.client_appended]
      simp [Client.getInputSize, Client.appendInput, h.nonempty]
    obtain ⟨turns, hturns⟩ := Nat.exists_eq_succ_of_ne_zero hsize
    rw [hturns]
    exact Or.inr ⟨popped.1, popped.2, rfl, (handleLines_some hr' hfd hpop turns).2⟩

theorem afterLines_input (hr : Reachable s) (hfd : s.core.Live p.fd) (data : Text) :
    InputRun p.fd s (s.afterLines p data) := by
  have hlive := ((same_appended p data).live p.fd).2 hfd
  exact (Transition.Reachable.refl.step ⟨step_appended hfd data, rfl⟩).trans
    (handleLines_input (hr.step (step_appended hfd data)) hlive _)

theorem Reads.input (h : s.Reads i k p data) (hr : Reachable s) :
    InputRun p.fd s (s.afterLines p data) := afterLines_input hr h.live data

theorem Reads.steps (h : s.Reads i k p data) (hr : Reachable s) :
    Transition.Reachable Step s (s.afterLines p data) := (h.input hr).steps

end Server

/-! ## One turn -/

namespace Loop

open Server (MuteRun)

variable {l l' : Loop} {k : Kernel} {i : Nat}

/-- A turn that does not end in an exception. -/
def Turn (l : Loop) (k : Kernel) (l' : Loop) : Prop := l.turn k = .ok l'

/-- Reached by some run of turns from the empty server. -/
def Reachable (l : Loop) : Prop :=
  ∃ listenerFd password, Transition.Reachable Turn (start listenerFd password) l

theorem Reachable.turn (h : l.Reachable) (ht : l.Turn k l') : l'.Reachable := by
  obtain ⟨listenerFd, password, hr⟩ := h
  exact ⟨listenerFd, password, hr.step ht⟩

theorem Reachable.turns (h : l.Reachable) (hrun : Transition.Reachable Turn l l') : l'.Reachable := by
  obtain ⟨listenerFd, password, hr⟩ := h
  exact ⟨listenerFd, password, hr.trans hrun⟩

/-- In this turn `data` is read from the client at `p`. -/
def Reads (l : Loop) (k : Kernel) (p : PollFd) (data : Text) : Prop :=
  ∃ i, l.pc = .visit i ∧ k.stopRequested = false ∧ l.server.Reads i k p data

theorem not_reads (h : ∀ i, l.pc ≠ .visit i) (p : PollFd) (data : Text) : ¬ l.Reads k p data := by
  rintro ⟨i, hpc, -⟩
  exact h i hpc

theorem sweepDescriptor_mute {s : Server} (i : Nat) : MuteRun s (s.sweepDescriptor i).1 := by
  unfold Server.sweepDescriptor
  cases hp : s.pollFds[i]? with
  | none => exact .refl
  | some p =>
    dsimp only
    split
    · exact .refl
    next hclient =>
    cases s.findClient p.fd with
    | none => exact .refl
    | some c =>
      dsimp only
      split
      · have hi := Server.isClientIndex_iff.2 ⟨p.fd, Server.getElem?_fds hp, hclient⟩
        exact .single (Server.step_remove hi) rfl
      · exact .refl

/-- A turn handles the lines of at most one read, and does nothing else with any input. -/
theorem Turn.cases (h : l.Turn k l') (hr : l.server.Reachable) :
    (∃ p data, l.Reads k p data ∧ MuteRun (l.server.afterLines p data) l'.server) ∨
    ((∀ p data, ¬ l.Reads k p data) ∧ MuteRun l.server l'.server) := by
  obtain ⟨s, pc⟩ := l
  unfold Turn turn at h
  cases pc with
  | stopped =>
    cases h
    exact Or.inr ⟨not_reads nofun, .refl⟩
  | poll =>
    refine Or.inr ⟨not_reads nofun, ?_⟩
    dsimp only at h
    split at h
    · cases h
      exact .refl
    split at h
    · cases h
      exact .refl
    · cases h
    · next revents _ =>
      have hpoll : MuteRun s (s.setRevents revents) := .single (e := .poll revents) rfl rfl
      split at h <;> cases h <;> exact hpoll
  | sweep i =>
    refine Or.inr ⟨not_reads nofun, ?_⟩
    dsimp only at h
    split at h
    · cases h
      exact sweepDescriptor_mute i
    · cases h
      exact .refl
  | visit i =>
    dsimp only at h
    split at h
    · next hcond =>
      have hstop : k.stopRequested = false := by
        simp only [Bool.and_eq_true, Bool.not_eq_true'] at hcond
        exact hcond.2
      cases hv : s.visitDescriptor i k with
      | error e => rw [hv] at h; cases h
      | ok next =>
        rw [hv] at h
        cases h
        by_cases hreads : ∃ p data, s.Reads i k p data
        · obtain ⟨p, data, hreads⟩ := hreads
          refine Or.inl ⟨p, data, ⟨i, rfl, hstop, hreads⟩, ?_⟩
          rw [hreads.visit] at hv
          exact Server.visitRest_mute ((hreads.lines hr).1.isClientIndex hreads.isClientIndex) hv
        · refine Or.inr ⟨?_, ?_⟩
          · rintro p data ⟨_, ⟨⟩, -, h⟩
            exact hreads ⟨p, data, h⟩
          · exact Server.visit_of_not_reads (fun p data h => hreads ⟨p, data, h⟩) hv
    · next hcond =>
      cases h
      refine Or.inr ⟨?_, .refl⟩
      rintro p data ⟨_, ⟨⟩, hstop, hreads⟩
      have hlt := (List.getElem?_eq_some_iff.1 hreads.entry).1
      simp [hstop, hlt] at hcond

theorem Turn.steps (h : l.Turn k l') (hr : l.server.Reachable) :
    Transition.Reachable Server.Step l.server l'.server := by
  rcases h.cases hr with ⟨p, data, ⟨i, -, -, hreads⟩, hrest⟩ | ⟨-, hrun⟩
  · exact (hreads.steps hr).trans hrest.timely.steps
  · exact hrun.timely.steps

theorem reachable_of_turns (hr : l.server.Reachable) (h : Transition.Reachable Turn l l') :
    l'.server.Reachable :=
  h.invariant (I := fun l => l.server.Reachable) hr fun _ _ _ _ ih ht => ih.run (ht.steps ih)

/-- **The loop reaches only what the transition system reaches.** -/
theorem reachable_server (h : l.Reachable) : l.server.Reachable := by
  obtain ⟨listenerFd, password, hr⟩ := h
  exact reachable_of_turns (Server.Reachable.start listenerFd password) hr

theorem reachable_of_run {R : Loop → Kernel → Loop → Prop} (hR : ∀ l k l', R l k l' → Turn l k l')
    {listenerFd : Fd} {password : Text} {ks : List Kernel}
    (h : Transition.Run R (start listenerFd password) ks l) : l.server.Reachable :=
  reachable_server ⟨listenerFd, password, (h.mono hR).reachable⟩

theorem run_turns {ks : List Kernel} (h : l.run ks = .ok l') : Transition.Run Turn l ks l' := by
  induction ks generalizing l with
  | nil => cases h; exact .nil
  | cons k ks ih =>
    unfold run at h
    rw [List.foldlM_cons] at h
    cases hk : l.turn k with
    | error e => rw [hk] at h; cases h
    | ok l₁ =>
      rw [hk] at h
      exact (Transition.Run.single hk).trans (ih h)

theorem run_of_mem {ks : List Kernel} (h : l' ∈ (l.run ks).toOption) : l.run ks = .ok l' := by
  cases hrun : l.run ks with
  | error what => rw [hrun] at h; cases h
  | ok l => rw [hrun] at h; cases h; rfl

/-- What one turn of the loop over descriptors does. -/
theorem Turn.visit (h : l.Turn k l') (hpc : l.pc = .visit i) (hstop : k.stopRequested = false) :
    (l.server.pollFds.length ≤ i ∧ l'.pc = .sweep 0) ∨
    ∃ p i', l.server.pollFds[i]? = some p ∧ l.server.visitDescriptor i k = .ok (l'.server, i') ∧
      l'.pc = .visit i' := by
  obtain ⟨s, pc⟩ := l
  obtain rfl : pc = .visit i := hpc
  unfold Turn turn at h
  dsimp only at h ⊢
  rw [hstop, Bool.not_false, Bool.and_true] at h
  split at h
  · next hi =>
    right
    cases hv : s.visitDescriptor i k with
    | error e => rw [hv] at h; cases h
    | ok next =>
      rw [hv] at h
      cases h
      exact ⟨_, next.2, List.getElem?_eq_getElem (of_decide_eq_true hi), rfl, rfl⟩
  · next hi =>
    cases h
    exact Or.inl ⟨by simpa using hi, rfl⟩

/-- What one turn of `removeDisconnectedClients` does. -/
theorem Turn.sweep (h : l.Turn k l') (hpc : l.pc = .sweep i) (hr : l.server.Reachable) :
    (l'.pc = .poll ∧ l'.server = l.server ∧ l.server.fds.length ≤ i) ∨
    (l'.pc = .sweep (i + 1) ∧ l'.server = l.server ∧ ∃ fd, l.server.fds[i]? = some fd ∧
      (l.server.client fd).disconnectRequested = false) ∨
    (∃ p, l.server.pollFds[i]? = some p ∧ p.fd ≠ l.server.listenerFd ∧
      (l.server.client p.fd).disconnectRequested = true ∧
      l'.pc = .sweep i ∧ l'.server = l.server.removeClient i) := by
  obtain ⟨s, pc⟩ := l
  obtain rfl : pc = .sweep i := hpc
  unfold Turn turn at h
  dsimp only at h ⊢
  have hlength : s.fds.length = s.pollFds.length := List.length_map _
  split at h
  · next hi =>
    right
    obtain ⟨p, hp⟩ : ∃ p, s.pollFds[i]? = some p := ⟨_, List.getElem?_eq_getElem hi⟩
    have hfd := Server.getElem?_fds hp
    cases h
    unfold Server.sweepDescriptor
    rw [hp]
    dsimp only
    have hstay (hflag : (s.client p.fd).disconnectRequested = false) :
        ∃ fd, s.fds[i]? = some fd ∧ (s.client fd).disconnectRequested = false := ⟨p.fd, hfd, hflag⟩
    split
    · next hlistener =>
      refine Or.inl ⟨rfl, rfl, hstay (Bool.eq_false_iff.2 fun hflag => ?_)⟩
      exact ((hr.polled.live _).1 (Server.live_of_flag hflag)).2 hlistener
    next hclient =>
    have hc := Server.findClient_of_live ((hr.polled.live p.fd).2 ⟨List.mem_of_getElem? hfd, hclient⟩)
    rw [hc]
    dsimp only
    split
    · next hflag => exact Or.inr ⟨p, rfl, hclient, hflag, rfl, rfl⟩
    · next hflag => exact Or.inl ⟨rfl, rfl, hstay (Bool.eq_false_iff.2 hflag)⟩
  · next hi =>
    cases h
    exact Or.inl ⟨rfl, rfl, by omega⟩

end Loop

end FtIrc
