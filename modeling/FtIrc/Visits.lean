import FtIrc.Chunks
import FtIrc.Lib.Worklist

/-!
# Who is visited in a pass

The loop over descriptors erases entries, appends entries and goes on by index.  What is ahead of
the index is all the same a worklist: a visit takes its first entry, and only the listening
socket's adds one behind, with nothing reported for it (`Server.visit_ahead`).
-/

namespace FtIrc

open Std

namespace Server

variable {s s' : Server} {i i' : Nat} {k : Kernel} {p : PollFd} {fd : Fd}

/-! ## Entries -/

/-- Each descriptor with what was reported for it. -/
def entries (s : Server) : List (Fd × PollEvents) := s.pollFds.map fun p => (p.fd, p.revents)

theorem getElem?_entries (hp : s.pollFds[i]? = some p) : s.entries[i]? = some (p.fd, p.revents) := by
  unfold entries
  rw [List.getElem?_map, hp]
  rfl

theorem entries_queueLine (fd : Fd) (line : Line) : (s.queueLine fd line).entries = s.entries := by
  show (s.queueLine fd line).wire.pollFds.map _ = _
  rw [wire_queueLine]
  exact Wire.map_pollFds_signal (fun _ => rfl) s.wire (.line fd line)

theorem entries_queueAll (fds : List Fd) (line : Line) :
    (fds.foldl (fun s fd => s.queueIfFound fd line) s).entries = s.entries := by
  induction fds generalizing s with
  | nil => rfl
  | cons fd fds ih =>
    rw [List.foldl_cons, ih]
    unfold queueIfFound
    split
    · rfl
    · exact entries_queueLine fd line

theorem entries_cleanup (fd : Fd) : (s.cleanupClientIrcState fd).entries = s.entries := by
  have hannounced : (s.announceQuit fd).entries = s.entries := by
    unfold announceQuit
    dsimp only
    split
    · exact entries_queueAll _ _
    · rfl
  unfold cleanupClientIrcState
  dsimp only
  split <;> exact hannounced

theorem entries_removeClient (hp : s.pollFds[i]? = some p) :
    (s.removeClient i).entries = s.entries.eraseIdx i := by
  unfold removeClient
  rw [hp]
  dsimp only
  have herase (s : Server) : ({ s with pollFds := s.pollFds.eraseIdx i } : Server).entries =
      s.entries.eraseIdx i := (List.eraseIdx_map ..).symm
  split
  · exact herase s
  · rw [herase]
    exact congrArg (List.eraseIdx · i) (entries_cleanup p.fd)

theorem InputStep.entries {e : Event} (hs : InputStep fd s e s') (hr : Reachable s) :
    s'.entries = s.entries := by
  obtain ⟨hs, hinput⟩ := hs
  unfold Step step at hs
  cases e with
  | receive x data =>
    obtain ⟨c, -, rfl⟩ := Option.map_eq_some_iff.1 hs
    rfl
  | pop x =>
    obtain ⟨popped, -, rfl⟩ := Option.map_eq_some_iff.1 hs
    rfl
  | line x line =>
    dsimp only at hs
    split at hs
    · next hx =>
      cases hs
      exact map_handleCompleteLine (fun _ => rfl) hr.ok.membersLive ((live_iff s x).2 hx.1) line
    · cases hs
  | _ => cases hinput

theorem entries_receiveFromClient (hr : Reachable s) (i : Nat) (received : Option Text) :
    (s.receiveFromClient i received).1.entries = s.entries := by
  rcases s.receiveFromClient_cases i received with hnone | ⟨p, data, hp, hfound, rfl, hdata⟩
  · rw [hnone]
  rw [receiveFromClient_eq hp hfound hdata]
  have hrun := afterLines_input hr ((live_iff s p.fd).2 hfound) data
  refine (hrun.invariant (I := fun s' => Reachable s' ∧ s'.entries = s.entries) ⟨hr, rfl⟩ ?_).2
  rintro s₁ e s₂ - ⟨hr₁, hentries⟩ hs
  exact ⟨hr₁.step hs.1, (hs.entries hr₁).trans hentries⟩

/-! ## What is ahead -/

/-- What a visit to an entry adds behind the others. -/
def Adds (listenerFd : Fd) (entry : Fd × PollEvents) (added : List (Fd × PollEvents)) : Prop :=
  added = [] ∨ entry.1 = listenerFd ∧ ∃ fd, fd ≠ listenerFd ∧ added = [(fd, {})]

/-- The entry at the index is passed, or erased. -/
def Passed (i : Nat) (entries entries' : List (Fd × PollEvents)) (i' : Nat) : Prop :=
  i' = i + 1 ∧ entries' = entries ∨ i' = i ∧ entries' = entries.eraseIdx i

theorem Passed.ahead {entries entries' : List (Fd × PollEvents)} (h : Passed i entries entries' i')
    (hi : i < entries.length) : entries'.drop i' = entries.drop (i + 1) := by
  rcases h with ⟨rfl, rfl⟩ | ⟨rfl, rfl⟩
  · rfl
  · rw [List.eraseIdx_eq_take_drop_succ]
    exact List.drop_left' (List.length_take_of_le hi.le)

theorem passed_removeClient (hp : s.entries[i]? = some (p.fd, p.revents)) :
    Passed i s.entries (s.removeClient i).entries i := by
  obtain ⟨q, hq, -⟩ := Option.map_eq_some_iff.1 ((List.getElem?_map ..).symm.trans hp)
  exact Or.inr ⟨rfl, entries_removeClient hq⟩

theorem visitRest_passed (hp : s.entries[i]? = some (p.fd, p.revents)) {events : PollEvents} {ok : Bool}
    (h : s.visitRest i k events ok = .ok (s', i')) : Passed i s.entries s'.entries i' := by
  have hflushed : (if events.pollout then s.flushClientOutput i k.sent else (s, true)).1.entries = s.entries := by
    split
    · exact map_flushClientOutput (fun _ _ => rfl) i k.sent
    · rfl
  unfold visitRest at h
  dsimp only at h
  generalize (if events.pollout then s.flushClientOutput i k.sent else (s, true)) = flushed at h hflushed
  rw [← hflushed] at hp
  split at h
  · cases h
    exact passed_removeClient (hflushed ▸ hp)
  rw [← hflushed]
  split at h
  · cases h
    exact passed_removeClient hp
  split at h
  · cases h
    exact passed_removeClient hp
  · cases h
    exact Or.inl ⟨rfl, rfl⟩

/-- **A visit takes the entry ahead**, and adds at most one. -/
theorem visit_ahead (hr : Reachable s) (hp : s.pollFds[i]? = some p)
    (h : s.visitDescriptor i k = .ok (s', i')) :
    ∃ added, Adds s.listenerFd (p.fd, p.revents) added ∧
      s'.entries.drop i' = s.entries.drop (i + 1) ++ added := by
  have hentry := getElem?_entries hp
  have hi : i < s.entries.length := (List.getElem?_eq_some_iff.1 hentry).1
  have hpassed {s' : Server} {i' : Nat} (h : Passed i s.entries s'.entries i') :
      ∃ added, Adds s.listenerFd (p.fd, p.revents) added ∧
        s'.entries.drop i' = s.entries.drop (i + 1) ++ added :=
    ⟨[], Or.inl rfl, by rw [h.ahead hi, List.append_nil]⟩
  cases visit_cases hp h with
  | idle => exact hpassed (Or.inl ⟨rfl, rfl⟩)
  | quiet => exact hpassed (Or.inl ⟨rfl, rfl⟩)
  | accept hlistener _ hok =>
    rcases acceptClient_spec hok with rfl | ⟨fd, -, -, hfresh, -, hwire⟩
    · exact hpassed (Or.inl ⟨rfl, rfl⟩)
    have hentries : s'.entries = s.entries ++ [(fd, ({} : PollEvents))] := by
      show s'.wire.pollFds.map _ = _
      rw [hwire]
      exact List.map_append
    refine ⟨[(fd, {})], Or.inr ⟨hlistener, fd, ?_, rfl⟩, ?_⟩
    · rintro rfl
      exact hfresh p (List.mem_of_getElem? hp) hlistener
    · rw [hentries, List.drop_append_of_le_length hi]
  | failed => exact hpassed (passed_removeClient hentry)
  | client _ _ hrest =>
    have hread : (s.visitRead i k p.revents).1.entries = s.entries := by
      unfold visitRead
      split
      · exact entries_receiveFromClient hr i k.received
      · rfl
    have hrest := visitRest_passed (by rw [hread]; exact hentry) hrest
    rw [hread] at hrest
    exact hpassed hrest

theorem entries_setRevents (revents : Nat → PollEvents) :
    (s.setRevents revents).entries = s.fds.mapIdx fun i fd => (fd, revents i) := by
  unfold entries setRevents fds
  apply List.ext_getElem?
  intro j
  simp only [List.getElem?_map, List.getElem?_mapIdx, Option.map_map]
  rfl

theorem steps_listenerFd (hr : Reachable s) (h : Transition.Reachable Step s s') :
    s'.listenerFd = s.listenerFd := by
  refine (h.invariant (I := fun s' => Reachable s' ∧ s'.listenerFd = s.listenerFd) ⟨hr, rfl⟩ ?_).2
  rintro s₁ e s₂ - ⟨hr₁, hl⟩ hs
  exact ⟨hr₁.step hs, (hs.listenerFd hr₁).trans hl⟩

end Server

namespace Loop

variable {l l' : Loop} {k : Kernel} {i : Nat}

/-! ## A pass -/

/-- What is ahead of the pass. -/
def ahead (l : Loop) : List (Fd × PollEvents) :=
  match l.pc with
  | .visit i => l.server.entries.drop i
  | _ => []

def ready (entry : Fd × PollEvents) : Option (Fd × PollEvents) :=
  if entry.2 = {} then none else some entry

/-- The descriptor a turn handles, and the events it handles for it. -/
def handles (l : Loop) : Option (Fd × PollEvents) :=
  match l.pc with
  | .visit i =>
    match l.server.pollFds[i]? with
    | none => none
    | some p => if p.revents = {} then none else some (p.fd, p.revents)
  | _ => none

theorem handles_eq (l : Loop) : l.handles = l.ahead.head?.bind ready := by
  unfold handles ahead
  cases l.pc with
  | visit i =>
    dsimp only
    rw [List.head?_drop]
    cases hp : l.server.pollFds[i]? with
    | none => simp [Server.entries, hp]
    | some p =>
      rw [Server.getElem?_entries hp]
      rfl
  | _ => rfl

/-- Such a turn visits the entry with that descriptor and those events. -/
theorem Turn.handled (h : l.Turn k l') (hstop : k.stopRequested = false) {entry : Fd × PollEvents}
    (hentry : l.handles = some entry) :
    ∃ i p i', l.pc = .visit i ∧ l.server.pollFds[i]? = some p ∧ (p.fd, p.revents) = entry ∧
      p.revents ≠ {} ∧ l.server.visitDescriptor i k = .ok (l'.server, i') ∧ l'.pc = .visit i' := by
  cases hpc : l.pc with
  | visit i =>
    rw [handles, hpc] at hentry
    dsimp only at hentry
    rcases h.visit hpc hstop with ⟨hend, -⟩ | ⟨p, i', hp, hvisit, hpc'⟩
    · rw [List.getElem?_eq_none hend] at hentry
      cases hentry
    · rw [hp] at hentry
      dsimp only at hentry
      split at hentry
      · cases hentry
      · next hevents => exact ⟨i, p, i', rfl, hp, Option.some.inj hentry, hevents, hvisit, hpc'⟩
  | poll => rw [handles, hpc] at hentry; cases hentry
  | sweep i => rw [handles, hpc] at hentry; cases hentry
  | stopped => rw [handles, hpc] at hentry; cases hentry

/-- Any other turn of a pass leaves the server as it is. -/
theorem Turn.unhandled (h : l.Turn k l') (hpc : l.pc = .visit i) (hstop : k.stopRequested = false)
    (hnone : l.handles = none) : l'.server = l.server := by
  rcases h.visit hpc hstop with ⟨hend, -⟩ | ⟨p, i', hp, hvisit, -⟩
  · obtain ⟨s, pc⟩ := l
    obtain rfl : pc = .visit i := hpc
    unfold Turn turn at h
    dsimp only at h hend
    rw [if_neg (by simp [hend])] at h
    cases h
    rfl
  · rw [handles, hpc] at hnone
    dsimp only at hnone
    rw [hp] at hnone
    dsimp only at hnone
    split at hnone
    · next hevents =>
      rw [Server.visitDescriptor_idle hp hevents] at hvisit
      exact (congrArg Prod.fst (Except.ok.inj hvisit)).symm
    · cases hnone

/-- A turn takes the first entry ahead. -/
theorem Turn.ahead (h : l.Turn k l') (hr : l.server.Reachable) (hpc : l.pc = .visit i)
    (hstop : k.stopRequested = false) {entry : Fd × PollEvents} {rest : List (Fd × PollEvents)}
    (hahead : l.ahead = entry :: rest) :
    (∃ i', l'.pc = .visit i') ∧
      ∃ added, Server.Adds l.server.listenerFd entry added ∧ l'.ahead = rest ++ added := by
  unfold Loop.ahead at hahead ⊢
  rw [hpc] at hahead
  dsimp only at hahead
  rcases h.visit hpc hstop with ⟨hend, -⟩ | ⟨p, i', hp, hvisit, hpc'⟩
  · rw [List.drop_eq_nil_of_le (by simpa [Server.entries] using hend)] at hahead
    cases hahead
  · rw [hpc']
    have hentry := congrArg List.head? hahead
    rw [List.head?_drop, Server.getElem?_entries hp] at hentry
    cases hentry
    obtain ⟨added, hadds, hdrop⟩ := Server.visit_ahead hr hp hvisit
    refine ⟨⟨i', rfl⟩, added, hadds, ?_⟩
    show l'.server.entries.drop i' = _
    rw [hdrop, ← List.drop_drop, hahead]
    rfl

theorem ahead_ne_nil (h : l.ahead ≠ []) : ∃ i, l.pc = .visit i := by
  unfold ahead at h
  split at h
  · next i hpc => exact ⟨i, hpc⟩
  · exact absurd rfl h

/-- The listening socket may add an entry, so it weighs more. -/
def weight (listenerFd : Fd) (fd : Fd) : Nat := if fd = listenerFd then 2 else 1

theorem weight_adds {listenerFd : Fd} {entry : Fd × PollEvents} {added : List (Fd × PollEvents)}
    (h : Server.Adds listenerFd entry added) :
    (added.map fun e => weight listenerFd e.1).sum < weight listenerFd entry.1 := by
  unfold weight
  rcases h with rfl | ⟨hlistener, fd, hne, rfl⟩
  · split <;> simp
  · simp [hlistener, hne]

theorem sum_weight (listenerFd : Fd) (fds : List Fd) :
    (fds.map (weight listenerFd)).sum = fds.length + fds.count listenerFd := by
  induction fds with
  | nil => rfl
  | cons fd fds ih =>
    rw [List.map_cons, List.sum_cons, ih, List.length_cons, List.count_cons, weight]
    by_cases hfd : fd = listenerFd
    · rw [if_pos hfd, if_pos (beq_iff_eq.2 hfd)]
      omega
    · rw [if_neg hfd, if_neg fun h => hfd (beq_iff_eq.1 h)]
      omega

theorem ready_adds {listenerFd : Fd} {entry : Fd × PollEvents} {added : List (Fd × PollEvents)}
    (h : Server.Adds listenerFd entry added) : added.filterMap ready = [] := by
  rcases h with rfl | ⟨-, fd, -, rfl⟩ <;> rfl

theorem filterMap_ready (entries : List (Fd × PollEvents)) :
    entries.filterMap ready = entries.filter fun entry => entry.2 ≠ {} := by
  rw [← List.filterMap_eq_filter]
  refine List.filterMap_congr fun entry _ => ?_
  unfold ready Option.guard
  by_cases h : entry.2 = {}
  · simp [h]
  · simp [h]

/-- The turn from which a pass starts. -/
theorem Turn.pass {revents : Nat → PollEvents} (h : l.Turn k l') (hpc : l.pc = .poll)
    (hpoll : k.poll = .ready revents) (hvisit : l'.pc = .visit 0) :
    l'.server = l.server.setRevents revents := by
  obtain ⟨s, pc⟩ := l
  obtain rfl : pc = .poll := hpc
  unfold Turn turn at h
  rw [hpoll] at h
  dsimp only at h ⊢
  split at h
  · cases h
    cases hvisit
  split at h <;> cases h <;> rfl

/-- Where nothing is ahead the pass is over. -/
theorem Turn.sweeps {i : Nat} (h : l.Turn k l') (hpc : l.pc = .visit i) (hstop : k.stopRequested = false)
    (hend : l.ahead = []) : l'.pc = .sweep 0 := by
  refine (h.visit hpc hstop).elim And.right ?_
  rintro ⟨p, -, hp, -⟩
  unfold Loop.ahead at hend
  rw [hpc] at hend
  have hentry := Server.getElem?_entries hp
  rw [← List.head?_drop, show l.server.entries.drop i = [] from hend] at hentry
  cases hentry

/-- Only the listener weighs more than one. -/
theorem sum_weight_entries {s : Server} (hnodup : s.fds.Nodup) :
    (s.entries.map fun entry => weight s.listenerFd entry.1).sum ≤ s.fds.length + 1 := by
  have hmap : s.entries.map (fun entry => weight s.listenerFd entry.1) = s.fds.map (weight s.listenerFd) := by
    unfold Server.entries Server.fds
    rw [List.map_map, List.map_map]
    rfl
  have honce := List.nodup_iff_count_le_one.1 hnodup s.listenerFd
  rw [hmap, sum_weight]
  omega

section Pass

variable {ks : Nat → Kernel} {ls : Nat → Loop}

/-- In a pass, as long as anything is ahead. -/
theorem pass_reachable (hr : (ls 0).server.Reachable) (hpc : ∃ i, (ls 0).pc = .visit i)
    (hstop : ∀ n, (ks n).stopRequested = false)
    (hturn : ∀ n i, (ls n).pc = .visit i → (ls n).Turn (ks n) (ls (n + 1))) {n : Nat}
    (hbefore : ∀ m < n, (ls m).ahead ≠ []) :
    (ls n).server.Reachable ∧ (ls n).server.listenerFd = (ls 0).server.listenerFd ∧
      ∃ i, (ls n).pc = .visit i := by
  induction n with
  | zero => exact ⟨hr, rfl, hpc⟩
  | succ n ih =>
    obtain ⟨hr', hl, i, hpc'⟩ := ih fun m hm => hbefore m (Nat.lt_succ_of_lt hm)
    obtain ⟨entry, rest, hahead⟩ := List.exists_cons_of_ne_nil (hbefore n (Nat.lt_succ_self n))
    have ht := hturn n i hpc'
    exact ⟨hr'.run (ht.steps hr'), (Server.steps_listenerFd hr' (ht.steps hr')).trans hl,
      (ht.ahead hr' hpc' (hstop n) hahead).1⟩

/-- **Each ready descriptor is handled once, in order**, and nothing else is. -/
theorem pass_visits {l l₀ : Loop} {k : Kernel} {revents : Nat → PollEvents} (hl : l.Reachable)
    (hpc : l.pc = .poll) (hpoll : k.poll = .ready revents) (ht : l.Turn k l₀) (hvisit : l₀.pc = .visit 0)
    (hstop : ∀ n, (ks n).stopRequested = false) (hfirst : ls 0 = l₀)
    (hturn : ∀ n i, (ls n).pc = .visit i → (ls n).Turn (ks n) (ls (n + 1))) :
    ∃ n, n ≤ l.server.pollFds.length + 2 ∧ (ls n).pc = .sweep 0 ∧ (∀ m < n, ∃ i, (ls m).pc = .visit i) ∧
      (List.range n).filterMap (fun m => (ls m).handles) =
        (l.server.fds.mapIdx fun i fd => (fd, revents i)).filter fun entry => entry.2 ≠ {} := by
  have hserver := ht.pass hpc hpoll hvisit
  have hr := reachable_server (hl.turn ht)
  rw [← hfirst] at hvisit hserver hr
  have hpass {n : Nat} (hbefore : ∀ m < n, (ls m).ahead ≠ []) :=
    pass_reachable hr ⟨0, hvisit⟩ hstop hturn hbefore
  have hworked : Worklist.Worked (Server.Adds (ls 0).server.listenerFd) fun n => (ls n).ahead := by
    intro n entry rest hbefore hahead
    obtain ⟨hr', hlistener, i, hpc'⟩ := hpass hbefore
    rw [← hlistener]
    exact ((hturn n i hpc').ahead hr' hpc' (hstop n) hahead).2
  have hstart : (ls 0).ahead = (ls 0).server.entries := by
    unfold ahead
    rw [hvisit]
    rfl
  obtain ⟨n, hbound, hend, hbefore⟩ := hworked.ends fun _ _ => weight_adds
  have hseen := hworked.seen (fun _ _ => ready_adds) hbefore
  obtain ⟨-, -, i, hpc'⟩ := hpass hbefore
  have hsweep := (hturn n i hpc').sweeps hpc' (hstop n) hend
  have hfds : (ls 0).server.fds = l.server.fds := by
    rw [hserver]
    exact Server.fds_setRevents revents
  have hweight := sum_weight_entries hr.polled.nodup
  have hlength : l.server.fds.length = l.server.pollFds.length := List.length_map _
  rw [hfds, hlength] at hweight
  rw [hstart] at hbound
  have hlast : (ls n).handles = none := by
    rw [handles_eq, show (ls n).ahead = [] from hend]
    rfl
  have hhandled : (List.range n).filterMap (fun m => (ls m).handles) = (ls 0).ahead.filterMap ready := by
    rw [← hseen, show (ls n).ahead = [] from hend, List.filterMap_nil, List.append_nil]
    exact List.filterMap_congr fun m _ => handles_eq (ls m)
  refine ⟨n + 1, by omega, hsweep, fun m hm => ?_, ?_⟩
  · rcases Nat.lt_succ_iff_lt_or_eq.1 hm with hm | rfl
    · exact ahead_ne_nil (hbefore m hm)
    · exact ⟨i, hpc'⟩
  · rw [List.range_succ, List.filterMap_append, hhandled, hstart, hserver, Server.entries_setRevents, filterMap_ready,
      List.filterMap_cons, hlast]
    exact List.append_nil _

end Pass

/-- Where the system answers nothing, a visit does not throw. -/
theorem exists_turn_visit (l : Loop) : ∃ l', ∀ i, l.pc = .visit i → l.Turn {} l' := by
  obtain ⟨s, pc⟩ := l
  cases pc with
  | visit i =>
    obtain ⟨next, hnext⟩ : ∃ next, s.visitDescriptor i {} = .ok next := by
      cases hp : s.pollFds[i]? with
      | none => exact ⟨(s, i), by unfold Server.visitDescriptor; rw [hp]⟩
      | some p =>
        by_cases hevents : p.revents = {}
        · exact ⟨_, Server.visitDescriptor_idle hp hevents⟩
        by_cases hclient : p.fd = s.listenerFd
        · rw [Server.visitDescriptor_listener hp hevents hclient]
          split <;> exact ⟨_, rfl⟩
        cases herr : p.revents.pollerr || p.revents.pollnval with
        | true => exact ⟨_, Server.visitDescriptor_failed hp hclient herr⟩
        | false =>
          rw [Server.visitDescriptor_client hp hevents hclient herr]
          exact Server.exists_visitRest _ _ _ _ _
    by_cases hi : i < s.pollFds.length
    · refine ⟨⟨next.1, .visit next.2⟩, fun _ _ => ?_⟩
      unfold Turn turn
      simp [hi, hnext, Except.map]
    · refine ⟨⟨s, .sweep 0⟩, fun _ _ => ?_⟩
      unfold Turn turn
      simp [hi]
  | _ => exact ⟨⟨s, .poll⟩, fun _ h => nomatch h⟩

/-- `al` is reported ready; the others are not handled. -/
theorem pass_visits_session : ∃ (ls : Nat → Loop) (n : Nat), (ls 0).Reachable ∧ (ls n).pc = .sweep 0 ∧
    (List.range n).filterMap (fun m => (ls m).handles) = [(4, { pollin := true })] := by
  obtain ⟨s, hl, hfds, -, -⟩ := exists_session
  have ht : Turn ⟨s, .poll⟩ { poll := .ready (only 1) } ⟨s.setRevents (only 1), .visit 0⟩ :=
    turn_poll (i := 1) (only 1) (by rw [hfds]; decide) (by decide)
  choose next hnext using exists_turn_visit
  have hturn (n i : Nat) (hpc : (next^[n] ⟨s.setRevents (only 1), .visit 0⟩).pc = .visit i) :
      (next^[n] ⟨s.setRevents (only 1), .visit 0⟩).Turn {} (next^[n + 1] ⟨s.setRevents (only 1), .visit 0⟩) := by
    rw [Function.iterate_succ_apply']
    exact hnext _ i hpc
  obtain ⟨n, -, hsweep, -, hhandled⟩ := pass_visits hl rfl rfl ht rfl (fun _ => rfl) rfl hturn
  refine ⟨_, n, hl.turn ht, hsweep, hhandled.trans ?_⟩
  rw [show (⟨s, .poll⟩ : Loop).server.fds = [3, 4, 5, 6] from hfds]
  decide

end Loop

end FtIrc
