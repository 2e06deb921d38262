import FtIrc.Queues
import FtIrc.Descriptors
import FtIrc.Lib.Outbox

/-!
# Traffic

The wire as a system of its own: connections come and go, lines and requests are signalled,
bytes are sent.  Every step of the server is a run of it (`Server.Step.traffic`), so what its steps keep
holds of every reachable server: an entry watches for `POLLOUT` while there is output
(`Wire.Watched`), and each connection is an outbox of lines (`Wire.outbox`).
-/

namespace FtIrc

open Std

/-! ## The wire in motion -/

inductive Traffic where
  | connect (fd : Fd)
  | note (action : Action)
  | input (fd : Fd)
  | signal (x : Signal)
  | drain (fd : Fd) (length : Nat)
  | rest (fd : Fd)
  | leave (fd : Fd)
  | poll

def Action.isNote : Action → Bool
  | .completeLine .. => true
  | .dispatched .. => true
  | _ => false

namespace Wire

variable (w : Wire)

def drain (fd : Fd) (length : Nat) : Wire :=
  (w.modify fd fun p => { p with outputBuffer := p.outputBuffer.drop length }).record
    (.sent fd ((w.port fd).outputBuffer.take length))

def disarm (index : Nat) : Wire :=
  { w with pollFds := w.pollFds.modify index fun p =>
      { p with events := { p.events with pollout := false } } }

/-- Signals are for connections, and an entry is disarmed when nothing is pending. -/
inductive Step (w : Wire) : Traffic → Wire → Prop
  | connect (fd : Fd) : (∀ p ∈ w.pollFds, p.fd ≠ fd) → Step w (.connect fd) (w.connect fd)
  | note (action : Action) : action.isNote = true → Step w (.note action) (w.record action)
  | input (fd : Fd) (f : Text → Text) :
      Step w (.input fd) (w.modify fd fun p => { p with inputBuffer := f p.inputBuffer })
  | signal (x : Signal) : (w.ports x.fd).isSome → Step w (.signal x) (w.signal x)
  | drainSome (fd : Fd) (length : Nat) : (w.ports fd).isSome →
      length < (w.port fd).outputBuffer.length →
      Step w (.drain fd length) (w.drain fd length)
  | drainAll (fd : Fd) (length index : Nat) (p : PollFd) : w.pollFds[index]? = some p → p.fd = fd →
      (w.ports fd).isSome → (w.port fd).outputBuffer.length ≤ length →
      Step w (.drain fd length) ((w.drain fd length).disarm index)
  | rest (fd : Fd) (index : Nat) (p : PollFd) : w.pollFds[index]? = some p → p.fd = fd →
      (w.port fd).outputBuffer = [] → Step w (.rest fd) (w.disarm index)
  | leave (fd : Fd) (index : Nat) (p : PollFd) : w.pollFds[index]? = some p → p.fd = fd →
      Step w (.leave fd) (w.disconnect fd (w.pollFds.eraseIdx index))
  | poll (revents : Nat → PollEvents) :
      Step w .poll { w with pollFds := w.pollFds.mapIdx fun i p => { p with revents := revents i } }

/-! ## Watching for output -/

/-- The events an entry asks for. -/
def Watches (w : Wire) (p : PollFd) : Prop :=
  p.events.pollin = true ∧
    ((w.ports p.fd).isSome → (p.events.pollout = true ↔ (w.port p.fd).outputBuffer ≠ []))

structure Watched (w : Wire) : Prop where
  nodup : (w.pollFds.map PollFd.fd).Nodup
  watches : ∀ p ∈ w.pollFds, w.Watches p

variable {w} {fd : Fd}

/-- With one entry for a descriptor, the first is the only one to arm. -/
theorem armPollout_eq_map {ps : List PollFd} (hnodup : (ps.map PollFd.fd).Nodup) (fd : Fd) :
    Server.armPollout fd ps = ps.map fun p =>
      if p.fd = fd then { p with events := { p.events with pollout := true } } else p := by
  induction ps with
  | nil => rfl
  | cons p ps ih =>
    rw [List.map_cons, List.nodup_cons] at hnodup
    unfold Server.armPollout
    split
    · next he =>
      subst he
      rw [List.map_cons, if_pos rfl]
      refine congrArg _ ?_
      conv_lhs => rw [← List.map_id ps]
      refine List.map_congr_left fun q hq => ?_
      rw [if_neg]
      · rfl
      · intro he
        exact hnodup.1 (he ▸ List.mem_map_of_mem hq)
    · next hne => rw [List.map_cons, if_neg hne, ih hnodup.2]

/-- Likewise for the entry at an index. -/
theorem modify_eq_map {ps : List PollFd} (hnodup : (ps.map PollFd.fd).Nodup) {index : Nat}
    {p : PollFd} (hp : ps[index]? = some p) (f : PollFd → PollFd) :
    ps.modify index f = ps.map fun q => if q.fd = p.fd then f q else q := by
  apply List.ext_getElem?
  intro j
  rw [List.getElem?_modify, List.getElem?_map]
  cases hq : ps[j]? with
  | none => rfl
  | some q =>
    show (some (if index = j then f q else q) : Option PollFd) = some (if q.fd = p.fd then f q else q)
    have hfds {k : Nat} {r : PollFd} (hr : ps[k]? = some r) : (ps.map PollFd.fd)[k]? = some r.fd := by
      rw [List.getElem?_map, hr]
      rfl
    by_cases hj : index = j
    · subst hj
      rw [hp] at hq
      cases hq
      simp
    · rw [if_neg hj, if_neg]
      intro he
      exact hj (Server.index_unique hnodup (hfds hp) (he ▸ hfds hq))

/-- Every entry is replaced by one of its descriptor that asks for what it should. -/
theorem Watched.map (h : w.Watched) {w' : Wire} {f : PollFd → PollFd}
    (hpollFds : w'.pollFds = w.pollFds.map f) (hfd : ∀ p, (f p).fd = p.fd)
    (hwatches : ∀ p ∈ w.pollFds, w.Watches p → w'.Watches (f p)) : w'.Watched := by
  refine ⟨?_, ?_⟩
  · rw [hpollFds, List.map_map, show PollFd.fd ∘ f = PollFd.fd from funext hfd]
    exact h.nodup
  · intro q hq
    rw [hpollFds] at hq
    obtain ⟨p, hp, rfl⟩ := List.mem_map.1 hq
    exact hwatches p hp (h.watches p hp)

/-- Ports that keep their output. -/
theorem Watched.congr (h : w.Watched) {w' : Wire} (hpollFds : w'.pollFds = w.pollFds)
    (hsome : ∀ x, (w'.ports x).isSome = (w.ports x).isSome)
    (houtput : ∀ x, (w'.port x).outputBuffer = (w.port x).outputBuffer) : w'.Watched := by
  refine h.map (f := id) (by rw [hpollFds, List.map_id]) (fun _ => rfl) fun p _ hwatch => ?_
  unfold Watches at hwatch ⊢
  rw [id, hsome, houtput]
  exact hwatch

theorem output_modify {f : Port → Port} (hf : ∀ p, (f p).outputBuffer = p.outputBuffer) (x : Fd) :
    ((w.modify fd f).port x).outputBuffer = (w.port x).outputBuffer := by
  by_cases hx : fd = x
  · subst hx
    by_cases hlive : (w.ports fd).isSome
    · rw [port_modify_self hlive, hf]
    · unfold port modify
      rw [Option.not_isSome_iff_eq_none.1 hlive]
      simp [Option.not_isSome_iff_eq_none.1 hlive]
  · rw [port_modify_of_ne hx]

theorem Watched.requestDisconnect (h : w.Watched) (fd : Fd) (reason : Text) :
    (w.requestDisconnect fd reason).Watched :=
  h.congr rfl (fun x => isSome_modify (w := w) fd x _)
    fun x => output_modify (w := w) (f := fun p => { p with
      disconnectReason := reason, disconnectRequested := true }) (fun _ => rfl) x

theorem Watched.queueLine (h : w.Watched) (hlive : (w.ports fd).isSome) (line : Line) :
    (w.queueLine fd line).Watched := by
  unfold Wire.queueLine
  split
  · exact h.congr rfl (fun _ => rfl) fun _ => rfl
  split
  · refine h.map (f := fun p => if p.fd = fd then { p with events := { p.events with pollout := true } } else p)
      (armPollout_eq_map h.nodup fd) (fun p => by dsimp only; split <;> rfl) fun p _ hwatch => ?_
    have hports (x : Fd) := isSome_modify (w := w) fd x
      fun p => { p with outputBuffer := p.outputBuffer ++ line.bytes }
    unfold Watches at hwatch ⊢
    split
    · next he =>
      refine ⟨hwatch.1, fun _ => iff_of_true rfl ?_⟩
      have hport := port_modify_self (w := w) (f := fun p => { p with
        outputBuffer := p.outputBuffer ++ line.bytes }) hlive
      show ((w.modify fd _).port p.fd).outputBuffer ≠ []
      rw [he, hport]
      simp [Line.bytes]
    · next hne =>
      refine ⟨hwatch.1, fun hsome => ?_⟩
      refine (hwatch.2 ((hports p.fd).symm.trans hsome)).trans ?_
      have hport := port_modify_of_ne (w := w) (f := fun p => { p with
        outputBuffer := p.outputBuffer ++ line.bytes }) (Ne.symm hne)
      show _ ↔ ((w.modify fd _).port p.fd).outputBuffer ≠ []
      rw [hport]
  · exact (h.requestDisconnect fd _).congr rfl (fun _ => rfl) fun _ => rfl

/-- The entry of a connection without output is disarmed. -/
theorem Watched.disarm (h : w.Watched) {w' : Wire} {index : Nat} {p : PollFd}
    (hp : w.pollFds[index]? = some p) (hpollFds : w'.pollFds = (w.disarm index).pollFds)
    (hsome : ∀ x, (w'.ports x).isSome = (w.ports x).isSome)
    (houtput : ∀ x, p.fd ≠ x → (w'.port x).outputBuffer = (w.port x).outputBuffer)
    (hempty : (w'.port p.fd).outputBuffer = []) : w'.Watched := by
  refine h.map (hpollFds.trans (modify_eq_map h.nodup hp _)) (fun q => by dsimp only; split <;> rfl)
    fun q _ hwatch => ?_
  unfold Watches at hwatch ⊢
  dsimp only
  split
  · next he =>
    refine ⟨hwatch.1, fun _ => iff_of_false Bool.false_ne_true ?_⟩
    rw [show ({ q with events := { q.events with pollout := false } } : PollFd).fd = p.fd from he]
    exact not_not.2 hempty
  · next hne =>
    rw [hsome, houtput q.fd (Ne.symm hne)]
    exact hwatch

theorem port_drain_self (hlive : (w.ports fd).isSome) (length : Nat) :
    ((w.drain fd length).port fd).outputBuffer = (w.port fd).outputBuffer.drop length :=
  congrArg Port.outputBuffer (port_modify_self (w := w) (f := fun p => { p with
    outputBuffer := p.outputBuffer.drop length }) hlive)

theorem port_drain_of_ne {x : Fd} (hne : fd ≠ x) (length : Nat) :
    (w.drain fd length).port x = w.port x :=
  port_modify_of_ne (w := w) hne

theorem isSome_drain (fd : Fd) (length : Nat) (x : Fd) :
    ((w.drain fd length).ports x).isSome = (w.ports x).isSome := isSome_modify (w := w) fd x _

theorem Watched.connect (h : w.Watched) (hfresh : ∀ p ∈ w.pollFds, p.fd ≠ fd) :
    (w.connect fd).Watched := by
  refine ⟨?_, ?_⟩
  · show (List.map PollFd.fd (w.pollFds ++ [_])).Nodup
    rw [List.map_append, List.nodup_append]
    refine ⟨h.nodup, List.nodup_singleton _, ?_⟩
    rintro x hx y hy rfl
    obtain ⟨p, hp, rfl⟩ := List.mem_map.1 hx
    exact hfresh p hp (by simpa using hy)
  · intro p hp
    unfold Watches Wire.port Wire.connect
    dsimp only
    rcases List.mem_append.1 hp with hp | hp
    · rw [if_neg (Ne.symm (hfresh p hp))]
      exact h.watches p hp
    · cases List.mem_singleton.1 hp
      simp

theorem Watched.leave (h : w.Watched) {index : Nat} {p : PollFd} (hp : w.pollFds[index]? = some p) :
    (w.disconnect p.fd (w.pollFds.eraseIdx index)).Watched := by
  have hmap : (w.pollFds.eraseIdx index).map PollFd.fd = (w.pollFds.map PollFd.fd).eraseIdx index :=
    (List.eraseIdx_map PollFd.fd w.pollFds index).symm
  refine ⟨?_, ?_⟩
  · show ((w.pollFds.eraseIdx index).map PollFd.fd).Nodup
    rw [hmap]
    exact h.nodup.eraseIdx index
  · intro q hq
    have hq : q ∈ w.pollFds.eraseIdx index := hq
    have hne : p.fd ≠ q.fd := by
      have hmem : q.fd ∈ (w.pollFds.map PollFd.fd).eraseIdx index := hmap ▸ List.mem_map_of_mem hq
      refine ((Server.mem_eraseIdx_of_nodup h.nodup ?_ _).1 hmem).1
      rw [List.getElem?_map, hp]
      rfl
    unfold Watches Wire.port Wire.disconnect
    dsimp only
    rw [if_neg hne]
    exact h.watches q (List.mem_of_mem_eraseIdx hq)

/-- **Every step keeps the watch.** -/
theorem Watched.step (h : w.Watched) {w' : Wire} {t : Traffic} (hs : w.Step t w') : w'.Watched := by
  cases hs with
  | connect fd hfresh => exact h.connect hfresh
  | note => exact h.congr rfl (fun _ => rfl) fun _ => rfl
  | input fd f =>
    exact h.congr rfl (fun x => isSome_modify (w := w) fd x _) fun x =>
      output_modify (w := w) (f := fun p => { p with inputBuffer := f p.inputBuffer }) (fun _ => rfl) x
  | signal x hlive =>
    cases x with
    | line fd line => exact h.queueLine hlive line
    | disconnect fd reason => exact h.requestDisconnect fd reason
  | drainSome fd length hlive hlength =>
    refine h.map (f := id) (List.map_id _).symm (fun _ => rfl) fun p _ hwatch => ?_
    unfold Watches at hwatch ⊢
    rw [id, isSome_drain]
    refine ⟨hwatch.1, fun hsome => (hwatch.2 hsome).trans ?_⟩
    by_cases he : fd = p.fd
    · rw [← he, port_drain_self hlive]
      refine iff_of_true ?_ ?_
      · exact List.ne_nil_of_length_pos (by omega)
      · exact List.ne_nil_of_length_pos (by rw [List.length_drop]; omega)
    · rw [port_drain_of_ne he]
  | drainAll fd length index p hp hfd hlive hlength =>
    subst hfd
    refine h.disarm hp rfl (fun x => isSome_drain p.fd length x) ?_ ?_
    · exact fun x hne => congrArg Port.outputBuffer (port_drain_of_ne (w := w) hne length)
    · exact (port_drain_self hlive length).trans (List.drop_eq_nil_of_le hlength)
  | rest fd index p hp hfd hempty =>
    subst hfd
    exact h.disarm hp rfl (fun _ => rfl) (fun _ _ => rfl) hempty
  | leave fd index p hp hfd =>
    subst hfd
    exact h.leave hp
  | poll revents =>
    refine ⟨?_, ?_⟩
    · have hfds : (w.pollFds.mapIdx fun i p => { p with revents := revents i }).map PollFd.fd =
          w.pollFds.map PollFd.fd := by
        apply List.ext_getElem?
        intro j
        simp only [List.getElem?_map, List.getElem?_mapIdx, Option.map_map]
        rfl
      show (List.map PollFd.fd _).Nodup
      rw [hfds]
      exact h.nodup
    · intro q hq
      obtain ⟨i, hi, rfl⟩ := List.mem_mapIdx.1 hq
      exact h.watches w.pollFds[i] (List.getElem_mem hi)

end Wire

/-! ## Connections as outboxes -/

/-- One entry of the history, as bytes sent to the connection on `m`. -/
def sendAction (m : Fd) (bytes : Text) : Action → Text
  | .accepted fd => if fd = m then [] else bytes
  | .sent fd more => if fd = m then bytes ++ more else bytes
  | _ => bytes

/-- The bytes sent to the present connection on `m`. -/
def sentTo (log : List Action) (m : Fd) : Text := log.foldl (sendAction m) []

theorem stream_snoc (log : List Action) (a : Action) (m : Fd) :
    stream (log ++ [a]) m = readAction m (stream log m) a := stream_append log [a] m

theorem sentTo_snoc (log : List Action) (a : Action) (m : Fd) :
    sentTo (log ++ [a]) m = sendAction m (sentTo log m) a := List.foldl_append

namespace Wire

variable {w w' : Wire} {fd m : Fd}

/-- What the connection on `m` has been queued, has been sent and has pending. -/
def outbox (w : Wire) (m : Fd) : Outbox Line Char where
  taken := stream w.log m
  drained := sentTo w.log m
  pending := (w.port m).outputBuffer

/-- An entry that neither queues nor sends anything. -/
theorem outbox_record {a : Action} (hstream : ∀ lines, readAction m lines a = lines)
    (hsent : ∀ bytes, sendAction m bytes a = bytes) : (w.record a).outbox m = w.outbox m := by
  unfold outbox
  have h1 : stream (w.record a).log m = stream w.log m := (stream_snoc w.log a m).trans (hstream _)
  have h2 : sentTo (w.record a).log m = sentTo w.log m := (sentTo_snoc w.log a m).trans (hsent _)
  rw [h1, h2]
  rfl

theorem outbox_modify {f : Port → Port} (hf : ∀ p, (f p).outputBuffer = p.outputBuffer) :
    (w.modify fd f).outbox m = w.outbox m := by
  unfold outbox
  rw [output_modify hf]
  rfl

theorem outbox_requestDisconnect (reason : Text) :
    (w.requestDisconnect fd reason).outbox m = w.outbox m := by
  unfold requestDisconnect
  rw [outbox_record (fun _ => rfl) fun _ => rfl]
  exact outbox_modify fun _ => rfl

/-- A line is pushed whole, or not at all. -/
theorem outbox_queueLine (hlive : (w.ports fd).isSome) (line : Line) :
    (w.queueLine fd line).outbox m = w.outbox m ∨
      Outbox.Step Line.bytes maxPendingOutput (w.outbox m) (.push line)
        ((w.queueLine fd line).outbox m) := by
  unfold queueLine
  split
  · exact Or.inl (outbox_record (fun _ => rfl) fun _ => rfl)
  split
  · next hfits =>
    by_cases hm : fd = m
    · subst hm
      right
      have hport : (w.modify fd fun p => { p with outputBuffer := p.outputBuffer ++ line.bytes }).port fd =
          { w.port fd with outputBuffer := (w.port fd).outputBuffer ++ line.bytes } :=
        port_modify_self (w := w) hlive
      have hroom : (w.outbox fd).pending.length + line.bytes.length ≤ maxPendingOutput := by
        have := hfits.1
        have := hfits.2
        show (w.port fd).outputBuffer.length + line.bytes.length ≤ maxPendingOutput
        omega
      convert Outbox.Step.push line hroom using 1
      unfold outbox
      congr 1
      · exact (stream_snoc w.log _ fd).trans (if_pos rfl)
      · exact sentTo_snoc w.log _ fd
      · exact congrArg Port.outputBuffer hport
    · left
      have hport := port_modify_of_ne (w := w) (f := fun p => { p with
        outputBuffer := p.outputBuffer ++ line.bytes }) hm
      unfold outbox
      congr 1
      · exact (stream_snoc w.log _ m).trans (if_neg hm)
      · exact sentTo_snoc w.log _ m
      · exact congrArg Port.outputBuffer hport
  · left
    rw [outbox_record (fun _ => rfl) fun _ => rfl]
    exact outbox_requestDisconnect _

theorem outbox_drain (hlive : (w.ports fd).isSome) (length : Nat) :
    (w.drain fd length).outbox m = w.outbox m ∨
      Outbox.Step Line.bytes maxPendingOutput (w.outbox m) (.drain length)
        ((w.drain fd length).outbox m) := by
  by_cases hm : fd = m
  · subst hm
    right
    convert Outbox.Step.drain length using 1
    unfold outbox
    congr 1
    · exact stream_snoc w.log _ fd
    · exact (sentTo_snoc w.log _ fd).trans (if_pos rfl)
    · exact port_drain_self hlive length
  · left
    unfold outbox
    congr 1
    · exact stream_snoc w.log _ m
    · exact (sentTo_snoc w.log _ m).trans (if_neg hm)
    · exact congrArg Port.outputBuffer (port_drain_of_ne (w := w) hm length)

theorem outbox_connect (fd m : Fd) :
    (w.connect fd).outbox m = if fd = m then {} else w.outbox m := by
  unfold outbox
  have h1 : stream (w.connect fd).log m = if fd = m then [] else stream w.log m :=
    stream_snoc w.log _ m
  have h2 : sentTo (w.connect fd).log m = if fd = m then [] else sentTo w.log m :=
    sentTo_snoc w.log _ m
  rw [h1, h2]
  unfold Wire.port Wire.connect
  dsimp only
  split <;> rfl

/-- **A connection is an outbox**: a step opens it, or lets it be used as one. -/
theorem Step.outbox {t : Traffic} (hs : w.Step t w') (hm : (w'.ports m).isSome) :
    w'.outbox m = {} ∨
      Transition.Reachable (Outbox.Step Line.bytes maxPendingOutput) (w.outbox m) (w'.outbox m) := by
  have hsame {w' : Wire} (h : w'.outbox m = w.outbox m) :
      Transition.Reachable (Outbox.Step Line.bytes maxPendingOutput) (w.outbox m) (w'.outbox m) := by
    rw [h]
    exact .refl
  have hdrain {fd : Fd} {length : Nat} (hlive : (w.ports fd).isSome) :
      Transition.Reachable (Outbox.Step Line.bytes maxPendingOutput) (w.outbox m)
        ((w.drain fd length).outbox m) := by
    rcases outbox_drain (m := m) hlive length with h | h
    · exact hsame h
    · exact Transition.Reachable.refl.step h
  cases hs with
  | connect fd =>
    rw [outbox_connect]
    split
    · exact Or.inl rfl
    · exact Or.inr .refl
  | note action hnote =>
    right
    cases action <;> first | exact hsame (outbox_record (fun _ => rfl) fun _ => rfl) | cases hnote
  | input fd f => exact Or.inr (hsame (outbox_modify (fun _ => rfl)))
  | signal x hlive =>
    right
    cases x with
    | line fd line =>
      rcases outbox_queueLine (m := m) hlive line with h | h
      · exact hsame h
      · exact Transition.Reachable.refl.step h
    | disconnect fd reason => exact hsame (outbox_requestDisconnect reason)
  | drainSome fd length hlive => exact Or.inr (hdrain hlive)
  | drainAll fd length index p hp hfd hlive => exact Or.inr (hdrain hlive)
  | rest => exact Or.inr (hsame rfl)
  | leave fd index p hp hfd =>
    right
    have hne : fd ≠ m := by
      rintro rfl
      rw [show (w.disconnect fd _).ports fd = if fd = fd then none else w.ports fd from rfl,
        if_pos rfl] at hm
      cases hm
    refine hsame ?_
    unfold Wire.outbox
    congr 1
    · exact stream_snoc w.log _ m
    · exact sentTo_snoc w.log _ m
    · rw [Wire.port_disconnect_of_ne _ hne]
  | poll => exact Or.inr (hsame rfl)

theorem isSome_step {t : Traffic} (hs : w.Step t w') (hm : (w'.ports m).isSome) :
    (w.ports m).isSome ∨ w'.outbox m = {} := by
  cases hs with
  | connect fd =>
    by_cases hfd : fd = m
    · right
      rw [outbox_connect, if_pos hfd]
    · left
      rwa [show (w.connect fd).ports m = if fd = m then some {} else w.ports m from rfl, if_neg hfd] at hm
  | note => exact Or.inl hm
  | input fd => exact Or.inl (isSome_modify (w := w) fd m _ ▸ hm)
  | signal x => exact Or.inl (isSome_signal w m x ▸ hm)
  | drainSome fd length => exact Or.inl (isSome_drain fd length m ▸ hm)
  | drainAll fd length => exact Or.inl (isSome_drain fd length m ▸ hm)
  | rest => exact Or.inl hm
  | leave fd =>
    left
    rw [show (w.disconnect fd _).ports m = if fd = m then none else w.ports m from rfl] at hm
    split at hm
    · cases hm
    · exact hm
  | poll => exact Or.inl hm

/-- **Every outbox is sound.** -/
theorem outbox_sound {w₀ : Wire} (hinit : ∀ m, ¬ (w₀.ports m).isSome)
    (hr : Transition.Reachable Step w₀ w) :
    ∀ m, (w.ports m).isSome → (w.outbox m).Sound Line.bytes maxPendingOutput := by
  refine hr.invariant (I := fun w => ∀ m, (w.ports m).isSome →
    (w.outbox m).Sound Line.bytes maxPendingOutput) ?_ ?_
  · exact fun m hm => absurd hm (hinit m)
  · intro w t w' _ ih hs m hm
    rcases isSome_step hs hm with hlive | hempty
    · rcases hs.outbox hm with hempty | hr
      · rw [hempty]
        exact Outbox.sound_empty
      · exact (ih m hlive).reachable hr
    · rw [hempty]
      exact Outbox.sound_empty

theorem watched_reachable {w₀ : Wire} (hinit : w₀.Watched) (hr : Transition.Reachable Step w₀ w) :
    w.Watched := hr.invariant hinit fun _ _ _ _ ih hs => ih.step hs

end Wire

/-! ## The server's steps -/

theorem Wire.run_deliver {w : Wire} {signals : List Signal}
    (hlive : ∀ x ∈ signals, (w.ports x.fd).isSome) :
    Transition.Run Wire.Step w (signals.map .signal) (w.deliver signals) := by
  induction signals generalizing w with
  | nil => exact .nil
  | cons x signals ih =>
    have hrest := ih (w := w.signal x) fun y hy => by
      rw [isSome_signal]
      exact hlive y (List.mem_cons_of_mem _ hy)
    exact (Transition.Run.single (.signal x (hlive x List.mem_cons_self))).trans hrest

namespace Server

variable {s s' : Server} {e : Event} {fd : Fd}

/-- Where the requests for disconnection on the wire come from. -/
def Asked (e : Event) (ts : List Traffic) : Prop :=
  ∀ fd reason, .signal (.disconnect fd reason) ∈ ts → reason = "Write error".toList ∨
    ∃ line, e = .line fd line ∧ (Command.parse line).valid = true ∧
      (Command.parse line).name = "QUIT".toList ∧
      reason = (Command.parse line).parameters.head?.getD "Client Quit".toList

theorem asked_deliver {signals : List Signal} (h : ∀ fd reason, .disconnect fd reason ∉ signals) :
    Asked e (signals.map .signal) := by
  intro fd reason hmem
  obtain ⟨x, hx, heq⟩ := List.mem_map.1 hmem
  cases heq
  exact absurd hx (h fd reason)

theorem wire_consumeOutput {client : Client} (hc : s.findClient fd = some client) (length : Nat) :
    ((s.modifyClient fd (·.consumeOutput length)).record
      (.sent fd (client.outputBuffer.take length))).wire = s.wire.drain fd length := by
  have hport : (s.wire.port fd).outputBuffer = client.outputBuffer := by
    rw [← client_outputBuffer, Server.client, show s.clients[fd]? = some client from hc]
    rfl
  have hwire := wire_modifyClient s fd (f := (·.consumeOutput length))
    (g := fun p => { p with outputBuffer := p.outputBuffer.drop length }) fun c => by
      unfold Client.consumeOutput Client.port
      split
      · next hle => rw [List.drop_eq_nil_of_le hle]
      · rfl
  rw [wire_record, hwire]
  unfold Wire.drain
  rw [hport]

/-- **A flush is a drain**, or there was nothing to send, or sending failed. -/
theorem traffic_flush (index : Nat) (sent : Option Nat) :
    ∃ ts, Transition.Run Wire.Step s.wire ts (s.flushClientOutput index sent).1.wire ∧ Asked e ts := by
  have hnone : ∃ ts, Transition.Run Wire.Step s.wire ts s.wire ∧ Asked e ts := ⟨[], .nil, nofun⟩
  unfold flushClientOutput
  split
  · exact hnone
  next p hp =>
  split
  · exact hnone
  next client hc =>
  have hlive : (s.wire.ports p.fd).isSome := by
    rw [isSome_ports, live_iff, hc]
    rfl
  have hport : (s.wire.port p.fd).outputBuffer = client.outputBuffer := by
    rw [← client_outputBuffer, Server.client, show s.clients[p.fd]? = some client from hc]
    rfl
  have hfailed : ∃ ts, Transition.Run Wire.Step s.wire ts
      (s.requestDisconnect p.fd "Write error".toList).wire ∧ Asked e ts := by
    rw [wire_requestDisconnect]
    refine ⟨[.signal (.disconnect p.fd "Write error".toList)],
      .single (.signal (.disconnect p.fd _) hlive), fun fd reason hmem => ?_⟩
    cases List.mem_singleton.1 hmem
    exact Or.inl rfl
  split
  · next hempty =>
    refine ⟨[.rest p.fd], .single (.rest p.fd index p hp rfl ?_), by simp [Asked]⟩
    rw [hport]
    simpa [Client.hasOutput] using hempty
  split
  · exact hfailed
  · exact hfailed
  · next length _ =>
    have hwire := wire_consumeOutput hc length
    have hleft : (((s.modifyClient p.fd (·.consumeOutput length)).record
        (.sent p.fd (client.outputBuffer.take length))).client p.fd).outputBuffer =
        client.outputBuffer.drop length := by
      rw [client_outputBuffer, hwire, Wire.port_drain_self hlive, hport]
    dsimp only
    split
    · next hmore =>
      rw [Client.hasOutput, hleft] at hmore
      rw [hwire]
      refine ⟨[.drain p.fd length], .single (.drainSome p.fd length hlive ?_), by simp [Asked]⟩
      simp only [Bool.not_eq_true', List.isEmpty_eq_false_iff, ne_eq, List.drop_eq_nil_iff] at hmore
      rw [hport]
      omega
    · next hmore =>
      rw [Client.hasOutput, hleft] at hmore
      simp only [Bool.not_eq_true', List.isEmpty_eq_false_iff, ne_eq, List.drop_eq_nil_iff,
        not_not] at hmore
      have hdisarm : (((s.modifyClient p.fd (·.consumeOutput length)).record
          (.sent p.fd (client.outputBuffer.take length))).disarmPollout index).wire =
          (s.wire.drain p.fd length).disarm index := by
        rw [← hwire]
        rfl
      rw [hdisarm]
      exact ⟨[.drain p.fd length],
        .single (.drainAll p.fd length index p hp rfl hlive (by rw [hport]; exact hmore)),
        by simp [Asked]⟩

/-- A line is noted, and then what the command says is delivered. -/
theorem Reachable.traffic_line (hr : Reachable s) {fd : Fd} (hlive : s.core.Live fd)
    (line : Text) :
    ∃ ts, Transition.Run Wire.Step s.wire ts (s.handleCompleteLine fd line).wire ∧
      Asked (.line fd line) ts := by
  rcases handleCompleteLine_spec hr.ok.membersLive hlive line with
    ⟨-, -, hwire⟩ | ⟨hvalid, signals, heffect, hwire⟩
  · rw [hwire]
    exact ⟨[.note (.completeLine fd line)], .single (.note _ rfl), by simp [Asked]⟩
  · have hrun := Wire.run_deliver (w := (s.wire.record (.completeLine fd line)).record
      (.dispatched fd (Command.parse line)))
      fun x hx => (isSome_ports s x.fd).2 (heffect.signals_live hr.ok hlive x hx)
    have hfirst : Transition.Run Wire.Step s.wire
        [.note (.completeLine fd line), .note (.dispatched fd (Command.parse line))]
        ((s.wire.record (.completeLine fd line)).record (.dispatched fd (Command.parse line))) :=
      .snoc (.single (.note _ rfl)) (.note _ rfl)
    rw [hwire]
    refine ⟨_, hfirst.trans hrun, fun m reason hmem => Or.inr ?_⟩
    simp only [List.cons_append, List.nil_append, List.mem_cons, reduceCtorEq, false_or] at hmem
    obtain ⟨x, hx, heq⟩ := List.mem_map.1 hmem
    cases heq
    obtain ⟨rfl, hname, -, hreason, -⟩ := heffect.disconnects hx
    exact ⟨line, rfl, hvalid, hname, hreason⟩

/-- The QUIT lines of a removed client are delivered, and then its port is closed. -/
theorem Reachable.traffic_remove (hr : Reachable s) {index : Nat} (hi : s.isClientIndex index) :
    ∃ ts, Transition.Run Wire.Step s.wire ts (s.removeClient index).wire ∧
      Asked (.remove index) ts := by
  obtain ⟨p, recipients, hp, hfd, -, -, hrec, hwire⟩ := hr.polled.removeClient hr.ok.membersLive hi
  have hsignals (x : Signal) (hx : x ∈ toAll recipients (s.quitLine p.fd)) :
      (s.wire.ports x.fd).isSome :=
    (isSome_ports s x.fd).2 (live_of_peers s p.fd hr.ok.membersLive ((hrec.2 _).1 (fd_toAll hx)).2.1)
  have hp' : ((s.wire.deliver (toAll recipients (s.quitLine p.fd))).pollFds.map PollFd.fd)[index]? =
      some p.fd := by
    rw [Wire.map_pollFds_deliver fun _ => rfl]
    exact getElem?_fds hp
  rw [List.getElem?_map] at hp'
  obtain ⟨q, hq, hqfd⟩ := Option.map_eq_some_iff.1 hp'
  rw [hwire]
  refine ⟨_, (Wire.run_deliver hsignals).trans (.single (.leave p.fd index q hq hqfd)), ?_⟩
  intro m reason hmem
  rcases List.mem_append.1 hmem with hmem | hmem
  · exact asked_deliver (fun _ _ => disconnect_notMem_toAll) m reason hmem
  · cases List.mem_singleton.1 hmem

/-- **Every step of the server is a run of the wire.** -/
theorem Reachable.traffic (hr : Reachable s) (hs : s.Step e s') :
    ∃ ts, Transition.Run Wire.Step s.wire ts s'.wire ∧ Asked e ts := by
  unfold Step Server.step at hs
  cases e with
  | poll revents =>
    cases hs
    exact ⟨[.poll], .single (.poll revents), by simp [Asked]⟩
  | accept result =>
    dsimp only at hs
    cases hok : s.acceptClient result with
    | error e => rw [hok] at hs; cases hs
    | ok s₁ =>
      rw [hok] at hs
      cases hs
      rcases acceptClient_spec hok with rfl | ⟨fd, rfl, -, hfresh, -, hwire⟩
      · exact ⟨[], .nil, nofun⟩
      · rw [hwire]
        exact ⟨[.connect fd], .single (.connect fd hfresh), by simp [Asked]⟩
  | receive fd data =>
    obtain ⟨c, -, rfl⟩ := Option.map_eq_some_iff.1 hs
    have hwire := wire_modifyClient s fd (f := (·.appendInput data))
      (g := fun p => { p with inputBuffer := p.inputBuffer ++ data }) fun _ => rfl
    rw [hwire]
    exact ⟨[.input fd], .single (.input fd (· ++ data)), by simp [Asked]⟩
  | pop fd =>
    obtain ⟨⟨line, c'⟩, hpop, rfl⟩ := Option.map_eq_some_iff.1 hs
    have hwire := wire_modifyClient s fd (f := fun c => { c with inputBuffer := c'.inputBuffer })
      (g := fun p => { p with inputBuffer := c'.inputBuffer }) fun _ => rfl
    rw [← modifyClient_popped hpop] at hwire
    rw [hwire]
    exact ⟨[.input fd], .single (.input fd fun _ => c'.inputBuffer), by simp [Asked]⟩
  | line fd line =>
    dsimp only at hs
    split at hs
    · next hfd =>
      cases hs
      exact hr.traffic_line ((live_iff s fd).2 hfd.1) line
    · cases hs
  | flush index sent =>
    dsimp only at hs
    split at hs
    · cases hs
      exact traffic_flush index sent
    · cases hs
  | remove index =>
    dsimp only at hs
    split at hs
    · next hi =>
      cases hs
      exact hr.traffic_remove hi
    · cases hs

theorem Reachable.wire (h : Reachable s) : ∃ listenerFd password,
    Transition.Reachable Wire.Step (Server.start listenerFd password).wire s.wire := by
  obtain ⟨listenerFd, password, hrun⟩ := h
  refine ⟨listenerFd, password, hrun.simulate Server.wire fun s e s' hr hs => ?_⟩
  obtain ⟨ts, hts, -⟩ := Reachable.traffic ⟨listenerFd, password, hr⟩ hs
  exact hts.reachable

theorem Reachable.watched (h : Reachable s) : s.wire.Watched := by
  obtain ⟨listenerFd, password, hr⟩ := h.wire
  refine Wire.watched_reachable ?_ hr
  refine ⟨List.nodup_singleton listenerFd, fun p hp => ?_⟩
  cases List.mem_singleton.1 hp
  exact ⟨rfl, fun hsome => by simp [Server.wire, Server.start] at hsome⟩

theorem Reachable.outbox (h : Reachable s) (hfd : s.core.Live fd) :
    (s.wire.outbox fd).Sound Line.bytes maxPendingOutput := by
  obtain ⟨listenerFd, password, hr⟩ := h.wire
  refine Wire.outbox_sound (fun m => ?_) hr fd ((isSome_ports s fd).2 hfd)
  simp [Server.wire, Server.start]

/-- **The poll set and the clients agree, and no output is stranded.** -/
theorem pollFds_agree (h : Reachable s) :
    (∀ fd, (s.pollFds.map PollFd.fd).count fd =
      if fd = s.listenerFd ∨ fd ∈ s.clients then 1 else 0) ∧
    s.listenerFd ∉ s.clients ∧
    (∀ p ∈ s.pollFds, p.events.pollin = true) ∧
    ∀ p ∈ s.pollFds, ∀ client : Client, s.clients[p.fd]? = some client →
      (p.events.pollout = true ↔ client.outputBuffer ≠ []) := by
  have hpolled := h.polled
  have hwatched := h.watched
  refine ⟨fun fd => ?_, ?_, fun p hp => (hwatched.watches p hp).1, fun p hp client hc => ?_⟩
  · show s.fds.count fd = _
    rw [hpolled.nodup.count]
    refine if_congr ?_ rfl rfl
    rw [← live_iff_mem, hpolled.live]
    by_cases hfd : fd = s.listenerFd
    · subst hfd
      exact iff_of_true hpolled.listener (Or.inl rfl)
    · simp [hfd]
  · rw [← live_iff_mem, hpolled.live]
    exact fun hl => hl.2 rfl
  · have hport : s.wire.ports p.fd = some client.port := by
      unfold Server.wire
      dsimp only
      rw [hc]
      rfl
    have hiff := (hwatched.watches p hp).2 (by rw [hport]; rfl)
    rw [Wire.port, hport] at hiff
    exact hiff

/-- `al` on 5 has read what he is owed, and `bob` on 4 has not. -/
theorem pollFds_agree_session :
    ∃ s, Reachable s ∧ s.fds = [3, 4, 5, 6] ∧ (s.pollFds.map PollFd.fd).count 5 = 1 ∧
      s.listenerFd ∉ s.clients ∧ (∀ p ∈ s.pollFds, p.events.pollin = true) ∧
      (∃ p client, s.pollFds[1]? = some p ∧ s.clients[p.fd]? = some client ∧
        client.outputBuffer ≠ [] ∧ p.events.pollout = true) ∧
      ∃ p client, s.pollFds[2]? = some p ∧ s.clients[p.fd]? = some client ∧
        client.outputBuffer = [] ∧ p.events.pollout = false := by
  have hview : (session.step (.flush 2 (some 10000))).map (fun s =>
      (s.fds, (s.clients[4]?).map fun c => c.outputBuffer.isEmpty,
        (s.clients[5]?).map fun c => c.outputBuffer.isEmpty)) =
      some ([3, 4, 5, 6], some false, some true) := by decide +kernel
  have hr := session_reachable
  generalize session = s₀ at *
  obtain ⟨s, hs, hview⟩ := Option.map_eq_some_iff.1 hview
  simp only [Prod.mk.injEq] at hview
  obtain ⟨hfds, hbob, hal⟩ := hview
  obtain ⟨bob, hbob, howed⟩ := Option.map_eq_some_iff.1 hbob
  obtain ⟨al, hal, hread⟩ := Option.map_eq_some_iff.1 hal
  obtain ⟨hcount, hlistener, hpollin, hpollout⟩ := pollFds_agree (hr.step hs)
  have hentry {i : Nat} {fd : Fd} (hi : s.fds[i]? = some fd) : ∃ p, s.pollFds[i]? = some p ∧ p.fd = fd := by
    simpa [fds] using hi
  obtain ⟨p, hp, hp4⟩ := hentry (show s.fds[1]? = some 4 by rw [hfds]; rfl)
  obtain ⟨q, hq, hq5⟩ := hentry (show s.fds[2]? = some 5 by rw [hfds]; rfl)
  rw [List.isEmpty_eq_false_iff] at howed
  rw [List.isEmpty_iff] at hread
  have hp' := hpollout p (List.mem_of_getElem? hp) bob (hp4 ▸ hbob)
  have hq' := hpollout q (List.mem_of_getElem? hq) al (hq5 ▸ hal)
  have hclient : 5 ∈ s.clients := ExtTreeMap.mem_iff_isSome_getElem?.2 (by rw [hal]; rfl)
  refine ⟨s, hr.step hs, hfds, ?_, hlistener, hpollin,
    ⟨p, bob, hp, hp4 ▸ hbob, howed, hp'.2 howed⟩, q, al, hq, hq5 ▸ hal, hread, ?_⟩
  · rw [hcount 5, if_pos (Or.inr hclient)]
  · exact Bool.eq_false_iff.2 fun hset => hq'.1 hset hread

end Server

end FtIrc
