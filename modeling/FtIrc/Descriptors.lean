import FtIrc.Channels
import FtIrc.Delivery

/-!
# Poll descriptors

`_pollFds` has one entry for the listening socket and one for each client, in the order of
arrival.  Only accepting and removing a client change which descriptors it holds.
-/

namespace FtIrc

open Std

theorem ModeRun.fixed {fd : Fd} {key : Text} {κ κ' : Core} {changes : List ModeChange}
    {signals : List Signal} (h : ModeRun fd key κ changes κ' signals) :
    κ'.listenerFd = κ.listenerFd ∧ κ'.password = κ.password := by
  induction h with
  | nil => exact ⟨rfl, rfl⟩
  | refused _ _ _ ih => exact ih
  | unchanged _ ih => exact ih
  | applied _ _ _ ih => exact ih

/-- What the constructor set stays. -/
theorem Effect.fixed {κ κ' : Core} {fd : Fd} {command : Command} {signals : List Signal}
    (he : Effect κ fd command κ' signals) :
    κ'.listenerFd = κ.listenerFd ∧ κ'.password = κ.password := by
  have hcomplete {κ₁ : Core} (h : κ₁.listenerFd = κ.listenerFd ∧ κ₁.password = κ.password) :
      (κ₁.complete fd).listenerFd = κ.listenerFd ∧ (κ₁.complete fd).password = κ.password := by
    unfold Core.complete
    split <;> exact h
  cases he with
  | pass => exact hcomplete ⟨rfl, rfl⟩
  | user => exact hcomplete ⟨rfl, rfl⟩
  | nick nickname =>
    refine hcomplete ?_
    unfold Core.rename
    dsimp only
    split <;> exact ⟨rfl, rfl⟩
  | kick =>
    unfold Core.dropMember
    split <;> exact ⟨rfl, rfl⟩
  | mode _ _ _ _ _ _ _ _ _ _ _ _ hrun => exact hrun.fixed
  | _ => exact ⟨rfl, rfl⟩

namespace Server

/-- The descriptors `poll` watches, by index. -/
def fds (s : Server) : List Fd := s.pollFds.map PollFd.fd

/-- What `poll` last reported, by index. -/
def revents (s : Server) : List PollEvents := s.pollFds.map PollFd.revents

/-- Arming changes neither, nor anything else but that `POLLOUT` is asked for. -/
theorem map_armPollout {β : Type*} {f : PollFd → β}
    (hf : ∀ p : PollFd, f { p with events := { p.events with pollout := true } } = f p) (fd : Fd) (ps : List PollFd) :
    (armPollout fd ps).map f = ps.map f := by
  induction ps with
  | nil => rfl
  | cons p ps ih =>
    unfold armPollout
    split
    · rw [List.map_cons, List.map_cons, hf]
    · rw [List.map_cons, List.map_cons, ih]

end Server

namespace Wire

variable {β : Type*} {f : PollFd → β}
  (hf : ∀ p : PollFd, f { p with events := { p.events with pollout := true } } = f p)
include hf

theorem map_pollFds_signal (w : Wire) (x : Signal) :
    (w.signal x).pollFds.map f = w.pollFds.map f := by
  cases x with
  | line fd line =>
    rw [signal_line]
    unfold queueLine
    split
    · rfl
    split
    · exact Server.map_armPollout hf fd w.pollFds
    · rfl
  | disconnect => rfl

theorem map_pollFds_deliver (w : Wire) (signals : List Signal) :
    (w.deliver signals).pollFds.map f = w.pollFds.map f := by
  induction signals generalizing w with
  | nil => rfl
  | cons x signals ih => rw [deliver_cons, ih, map_pollFds_signal hf]

end Wire

namespace Server

variable {s s' : Server} {fd : Fd} {i : Nat}

theorem fds_eq_wire (s : Server) : s.fds = s.wire.pollFds.map PollFd.fd := rfl

theorem getElem?_fds {p : PollFd} (hp : s.pollFds[i]? = some p) : s.fds[i]? = some p.fd := by
  unfold fds
  rw [List.getElem?_map, hp]
  rfl

theorem isClientIndex_iff : s.isClientIndex i = true ↔ ∃ fd, s.fds[i]? = some fd ∧ fd ≠ s.listenerFd := by
  unfold isClientIndex fds
  rw [List.getElem?_map]
  cases s.pollFds[i]? with
  | none => simp
  | some p => simp

theorem fds_setRevents (revents : Nat → PollEvents) : (s.setRevents revents).fds = s.fds := by
  unfold fds setRevents
  apply List.ext_getElem?
  intro j
  simp only [List.getElem?_map, List.getElem?_mapIdx, Option.map_map]
  rfl

/-- What an entry holds beside the events it asks for. -/
theorem map_disarmPollout {β : Type*} {f : PollFd → β}
    (hf : ∀ (p : PollFd) (events : PollEvents), f { p with events := events } = f p) (index : Nat) :
    (s.disarmPollout index).pollFds.map f = s.pollFds.map f := by
  unfold disarmPollout
  apply List.ext_getElem?
  intro j
  rw [List.getElem?_map, List.getElem?_map, List.getElem?_modify]
  cases s.pollFds[j]? with
  | none => rfl
  | some p =>
    show Option.map f (some (if index = j then _ else p)) = _
    split
    · exact congrArg some (hf p _)
    · rfl

theorem map_flushClientOutput {β : Type*} {f : PollFd → β}
    (hf : ∀ (p : PollFd) (events : PollEvents), f { p with events := events } = f p) (index : Nat)
    (sent : Option Nat) : (s.flushClientOutput index sent).1.pollFds.map f = s.pollFds.map f := by
  unfold flushClientOutput
  split
  · rfl
  split
  · rfl
  split
  · exact map_disarmPollout hf index
  split
  · rfl
  · rfl
  · dsimp only
    split
    · rfl
    · exact map_disarmPollout hf index

theorem fds_flushClientOutput (index : Nat) (sent : Option Nat) :
    (s.flushClientOutput index sent).1.fds = s.fds := map_flushClientOutput (fun _ _ => rfl) index sent

/-- Nobody comes and nobody goes from `s` to `s'`. -/
structure SameConnections (s s' : Server) : Prop where
  fds : s'.fds = s.fds
  listenerFd : s'.listenerFd = s.listenerFd
  live : ∀ x, s'.core.Live x ↔ s.core.Live x

theorem SameConnections.refl (s : Server) : s.SameConnections s := ⟨rfl, rfl, fun _ => Iff.rfl⟩

theorem SameConnections.trans {s'' : Server} (h : s.SameConnections s')
    (h' : s'.SameConnections s'') : s.SameConnections s'' :=
  ⟨h'.fds.trans h.fds, h'.listenerFd.trans h.listenerFd, fun x => (h'.live x).trans (h.live x)⟩

theorem SameConnections.of_core (hfds : s'.fds = s.fds) (hcore : s'.core = s.core) :
    s.SameConnections s' :=
  ⟨hfds, congrArg Core.listenerFd hcore, fun x => by rw [hcore]⟩

theorem SameConnections.isClientIndex (h : s.SameConnections s')
    (hi : s.isClientIndex i = true) : s'.isClientIndex i = true := by
  rw [isClientIndex_iff] at hi ⊢
  rw [h.fds, h.listenerFd]
  exact hi

theorem same_popped (fd : Fd) (client : Client) :
    s.SameConnections (s.modifyClient fd fun _ => client) := by
  refine ⟨rfl, rfl, fun x => ?_⟩
  rw [live_iff, live_iff]
  unfold findClient modifyClient
  simp only [ExtTreeMap.getElem?_modify, Std.compare_eq_iff_eq]
  split
  · next hx => subst hx; rw [Option.isSome_map]
  · exact Iff.rfl

theorem map_handleCompleteLine {β : Type*} {f : PollFd → β}
    (hf : ∀ p : PollFd, f { p with events := { p.events with pollout := true } } = f p)
    (hlive : s.core.MembersLive) (hfd : s.core.Live fd) (line : Text) :
    (s.handleCompleteLine fd line).pollFds.map f = s.pollFds.map f := by
  show (s.handleCompleteLine fd line).wire.pollFds.map f = _
  rcases handleCompleteLine_spec hlive hfd line with ⟨-, -, hwire⟩ | ⟨-, signals, -, hwire⟩
  · rw [hwire]
    rfl
  · rw [hwire, Wire.map_pollFds_deliver hf]
    rfl

theorem same_handleCompleteLine (hlive : s.core.MembersLive) (hfd : s.core.Live fd) (line : Text) :
    s.SameConnections (s.handleCompleteLine fd line) := by
  have hfds := map_handleCompleteLine (f := PollFd.fd) (fun _ => rfl) hlive hfd line
  rcases handleCompleteLine_spec hlive hfd line with ⟨-, hcore, -⟩ | ⟨-, signals, heffect, -⟩
  · exact .of_core hfds hcore
  · exact ⟨hfds, heffect.fixed.1, heffect.live⟩

/-- What a step does to the descriptors: it adds one behind the others, removes a client's,
or leaves them and everyone's connection as they are. -/
theorem Step.fds {e : Event} (h : s.Step e s') (hlive : s.core.MembersLive) :
    (∃ fd, e = .accept (.connected fd) ∧ fd ∉ s.fds ∧ s'.core = s.core.connect fd ∧
      s'.fds = s.fds ++ [fd]) ∨
    (∃ index, e = .remove index ∧ s.isClientIndex index = true ∧ s' = s.removeClient index) ∨
    s.SameConnections s' := by
  unfold Step step at h
  cases e with
  | poll revents =>
    cases h
    exact Or.inr (Or.inr (.of_core (fds_setRevents revents) rfl))
  | accept result =>
    dsimp only at h
    cases hok : s.acceptClient result with
    | error e => rw [hok] at h; cases h
    | ok s₁ =>
      rw [hok] at h
      cases h
      rcases acceptClient_spec hok with rfl | ⟨fd, rfl, -, hfresh, hcore, hwire⟩
      · exact Or.inr (Or.inr (.refl _))
      · refine Or.inl ⟨fd, rfl, ?_, hcore, ?_⟩
        · intro hmem
          obtain ⟨p, hp, rfl⟩ := List.mem_map.1 hmem
          exact hfresh p hp rfl
        · rw [fds_eq_wire, hwire]
          exact List.map_append
  | receive fd data =>
    obtain ⟨c, -, rfl⟩ := Option.map_eq_some_iff.1 h
    exact Or.inr (Or.inr (.of_core rfl
      (core_modifyClient_port s fd (f := (·.appendInput data)) fun _ => rfl)))
  | pop fd =>
    obtain ⟨⟨line, c'⟩, hpop, rfl⟩ := Option.map_eq_some_iff.1 h
    exact Or.inr (Or.inr (same_popped fd c'))
  | line fd line =>
    dsimp only at h
    split at h
    · next hfd =>
      cases h
      exact Or.inr (Or.inr (same_handleCompleteLine hlive ((live_iff s fd).2 hfd.1) line))
    · cases h
  | flush index sent =>
    dsimp only at h
    split at h
    · cases h
      exact Or.inr (Or.inr (.of_core (fds_flushClientOutput index sent)
        (quiet_flushClientOutput index sent).1))
    · cases h
  | remove index =>
    dsimp only at h
    split at h
    · next hindex =>
      cases h
      exact Or.inr (Or.inl ⟨index, rfl, hindex, rfl⟩)
    · cases h

theorem Step.listenerFd {e : Event} (h : s.Step e s') (hr : Reachable s) : s'.listenerFd = s.listenerFd := by
  cases h.move hr.ok.membersLive with
  | quiet hcore => exact congrArg Core.listenerFd hcore
  | connect _ hcore => exact congrArg Core.listenerFd hcore
  | command _ _ _ heffect => exact heffect.fixed.1
  | disconnect _ _ _ _ hcore => exact congrArg Core.listenerFd hcore

/-- Each client and the listening socket are watched, each once, and nobody else. -/
structure Polled (s : Server) : Prop where
  nodup : s.fds.Nodup
  listener : s.listenerFd ∈ s.fds
  live : ∀ fd, s.core.Live fd ↔ fd ∈ s.fds ∧ fd ≠ s.listenerFd

theorem Polled.live_of_index (h : s.Polled) (hi : s.isClientIndex i = true) :
    ∃ p, s.pollFds[i]? = some p ∧ p.fd ≠ s.listenerFd ∧ s.core.Live p.fd := by
  obtain ⟨p, hp, hne⟩ := (Option.any_eq_true _ _).1 hi
  have hne : p.fd ≠ s.listenerFd := by simpa using hne
  exact ⟨p, hp, hne, (h.live p.fd).2 ⟨List.mem_of_getElem? (getElem?_fds hp), hne⟩⟩

/-- Removing the client at an index. -/
theorem Polled.removeClient (h : s.Polled) (hlive : s.core.MembersLive)
    (hi : s.isClientIndex i = true) :
    ∃ p recipients, s.pollFds[i]? = some p ∧ s.core.Live p.fd ∧
      (s.removeClient i).fds = s.fds.eraseIdx i ∧
      (s.removeClient i).core = s.core.disconnect p.fd ∧
      QuitRecipients s.core p.fd recipients ∧
      (s.removeClient i).wire =
        (s.wire.deliver (toAll recipients (s.quitLine p.fd))).disconnect p.fd
          ((s.wire.deliver (toAll recipients (s.quitLine p.fd))).pollFds.eraseIdx i) := by
  obtain ⟨p, hp, hne, hfd⟩ := h.live_of_index hi
  rcases removeClient_spec hp hlive with ⟨hnot, -⟩ | ⟨-, hcore, recipients, hrec, hwire⟩
  · exact absurd hfd hnot
  refine ⟨p, recipients, hp, hfd, ?_, hcore, hrec, hwire⟩
  rw [fds_eq_wire, hwire]
  show (List.eraseIdx _ _).map _ = _
  rw [← List.eraseIdx_map, Wire.map_pollFds_deliver fun _ => rfl]
  rfl

theorem index_unique {l : List Fd} (hnodup : l.Nodup) {j : Nat} (hi : l[i]? = some fd)
    (hj : l[j]? = some fd) : i = j :=
  (List.getElem?_inj (List.getElem?_eq_some_iff.1 hi).1 hnodup).1 (hi.trans hj.symm)

theorem mem_eraseIdx_of_nodup {l : List Fd} (hnodup : l.Nodup) (hi : l[i]? = some fd) (x : Fd) :
    x ∈ l.eraseIdx i ↔ fd ≠ x ∧ x ∈ l := by
  rw [List.mem_eraseIdx_iff_getElem?, List.mem_iff_getElem?]
  constructor
  · rintro ⟨j, hj, hx⟩
    refine ⟨?_, j, hx⟩
    rintro rfl
    exact hj (index_unique hnodup hx hi)
  · rintro ⟨hne, j, hx⟩
    refine ⟨j, ?_, hx⟩
    rintro rfl
    exact hne (Option.some.inj (hi.symm.trans hx))

theorem Polled.step {e : Event} (h : s.Polled) (hlive : s.core.MembersLive) (hs : s.Step e s') :
    s'.Polled := by
  rcases hs.fds hlive with ⟨fd, -, hfresh, hcore, hfds⟩ | ⟨index, -, hi, rfl⟩ | hsame
  · have hl : s'.listenerFd = s.listenerFd := congrArg Core.listenerFd hcore
    refine ⟨?_, ?_, ?_⟩
    · rw [hfds]
      exact List.nodup_append.2 ⟨h.nodup, by simp, by
        rintro x hx y hy rfl
        exact hfresh (List.mem_singleton.1 hy ▸ hx)⟩
    · rw [hl, hfds]
      exact List.mem_append_left _ h.listener
    · intro x
      rw [hcore, Core.live_connect, h.live, hfds, hl, List.mem_append, List.mem_singleton]
      constructor
      · rintro (rfl | ⟨hx, hne⟩)
        · refine ⟨Or.inr rfl, ?_⟩
          rintro rfl
          exact hfresh h.listener
        · exact ⟨Or.inl hx, hne⟩
      · rintro ⟨hx | rfl, hne⟩
        · exact Or.inr ⟨hx, hne⟩
        · exact Or.inl rfl
  · obtain ⟨p, recipients, hp, hfd, hfds, hcore, -⟩ := h.removeClient hlive hi
    have hl : (s.removeClient index).listenerFd = s.listenerFd := congrArg Core.listenerFd hcore
    have hmem := mem_eraseIdx_of_nodup h.nodup (getElem?_fds hp)
    refine ⟨?_, ?_, ?_⟩
    · rw [hfds]
      exact h.nodup.eraseIdx index
    · rw [hl, hfds, hmem]
      exact ⟨((h.live p.fd).1 hfd).2, h.listener⟩
    · intro x
      rw [hcore, Core.live_disconnect, h.live, hfds, hl, hmem, and_assoc]
  · refine ⟨hsame.fds ▸ h.nodup, ?_, ?_⟩
    · rw [hsame.listenerFd, hsame.fds]
      exact h.listener
    · intro x
      rw [hsame.live, h.live, hsame.fds, hsame.listenerFd]

theorem Reachable.polled (h : Reachable s) : s.Polled := by
  refine h.invariant (I := Polled) ?_ fun s e s' hr ih hs => ih.step hr.ok.membersLive hs
  intro listenerFd password
  refine ⟨List.nodup_singleton _, List.mem_singleton_self _, ?_⟩
  intro fd
  simp [fds, Server.start, Core.Live, core]

end Server

end FtIrc
