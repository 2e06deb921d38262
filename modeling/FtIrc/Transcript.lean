import FtIrc.Replay

/-!
# What a client is told

The lines said to a connection since it was opened are its `transcript`.  What it has been
sent, with what is pending, is the bytes of a first part of them, and of all of them unless its
disconnection is requested (`Server.server_refines`): a client that reads slowly misses the end of
what was said to it, never something in the middle.
-/

namespace FtIrc

/-- One utterance, as the connection on `m` hears it. -/
def hear (m : Fd) (lines : List Line) : Utterance → List Line
  | .opened fd => if fd = m then [] else lines
  | .line fd words => if fd = m then lines ++ [words] else lines

/-- The lines said to the present connection on `m`, oldest first. -/
def transcript (us : List Utterance) (m : Fd) : List Line := us.foldl (hear m) []

theorem transcript_append (us vs : List Utterance) (m : Fd) :
    transcript (us ++ vs) m = vs.foldl (hear m) (transcript us m) := List.foldl_append

namespace Wire

variable {w w' : Wire} {fd m : Fd}

/-- What was said to the connection on `m`. -/
def told (w : Wire) (m : Fd) : List Line := transcript (utterances w.log) m

/-- What was queued to a connection is a first part of what it was told. -/
structure Heeds (w : Wire) (m : Fd) : Prop where
  isPrefix : stream w.log m <+: w.told m
  complete : (w.port m).disconnectRequested = false → stream w.log m = w.told m

/-- A step by which the connection on `m` is told nothing and queued nothing. -/
theorem Heeds.same (h : w.Heeds m) (hstream : stream w'.log m = stream w.log m)
    (htold : w'.told m = w.told m)
    (hflag : (w'.port m).disconnectRequested = false → (w.port m).disconnectRequested = false) :
    w'.Heeds m := by
  refine ⟨?_, fun hf => ?_⟩
  · rw [hstream, htold]
    exact h.isPrefix
  · rw [hstream, htold]
    exact h.complete (hflag hf)

/-- An entry that is about no line. -/
theorem told_snoc_of_none (log : List Action) {a : Action} (ha : a.utterance = none) :
    transcript (utterances (log ++ [a])) m = transcript (utterances log) m := by
  rw [utterances_append, show utterances [a] = [] by simp [utterances, ha], List.append_nil]

theorem told_snoc_of_some (log : List Action) {a : Action} {u : Utterance} (ha : a.utterance = some u) :
    transcript (utterances (log ++ [a])) m = hear m (transcript (utterances log) m) u := by
  rw [utterances_append, show utterances [a] = [u] by simp [utterances, ha], transcript_append]
  rfl

theorem Heeds.record (h : w.Heeds m) {a : Action} (hread : ∀ lines, readAction m lines a = lines)
    (ha : a.utterance = none) : (w.record a).Heeds m :=
  h.same ((stream_snoc w.log a m).trans (hread _)) (told_snoc_of_none w.log ha) id

theorem flag_modify_of_false {f : Port → Port} {x : Fd}
    (hf : ∀ p : Port, (f p).disconnectRequested = p.disconnectRequested)
    (h : ((w.modify fd f).port x).disconnectRequested = false) :
    (w.port x).disconnectRequested = false := by
  by_contra hne
  have hflag : ((w.modify fd f).port x).disconnectRequested = true :=
    flag_modify (fun p hp => (hf p).trans hp) (by simpa using hne)
  rw [h] at hflag
  cases hflag

theorem Heeds.modify (h : w.Heeds m) (fd : Fd) {f : Port → Port}
    (hf : ∀ p, (f p).disconnectRequested = p.disconnectRequested) : (w.modify fd f).Heeds m :=
  h.same rfl rfl (flag_modify_of_false hf)

theorem Heeds.requestDisconnect (h : w.Heeds m) (fd : Fd) (reason : Text) :
    (w.requestDisconnect fd reason).Heeds m := by
  refine h.same (stream_snoc w.log _ m) (told_snoc_of_none w.log rfl) fun hf => ?_
  by_contra hne
  have := w.requestDisconnect_flag fd m reason (by simpa using hne)
  rw [hf] at this
  cases this

/-- A line that is refused to a connection to be disconnected. -/
theorem Heeds.refused (h : w.Heeds m) {line : Line}
    (hflag : fd = m → (w.port m).disconnectRequested = true) :
    (w.record (.queued fd line false)).Heeds m := by
  have hstream : stream (w.record (.queued fd line false)).log m = stream w.log m :=
    stream_snoc w.log _ m
  have htold : (w.record (.queued fd line false)).told m =
      if fd = m then w.told m ++ [line] else w.told m :=
    told_snoc_of_some w.log (u := .line fd line) rfl
  by_cases hfd : fd = m
  · rw [if_pos hfd] at htold
    refine ⟨?_, fun hf => ?_⟩
    · rw [hstream, htold]
      exact h.isPrefix.trans (List.prefix_append _ _)
    · have : (w.port m).disconnectRequested = false := hf
      rw [hflag hfd] at this
      cases this
  · rw [if_neg hfd] at htold
    exact h.same hstream htold id

theorem Heeds.signal (h : w.Heeds m) (hm : (w.ports m).isSome) (x : Signal) : (w.signal x).Heeds m := by
  cases x with
  | line fd line =>
    rw [signal_line]
    unfold queueLine
    split
    · next hflag => exact h.refused fun hfd => hfd ▸ hflag
    next hflag =>
    split
    · have hmodify := h.modify fd
        (f := fun p => { p with outputBuffer := p.outputBuffer ++ line.bytes }) fun _ => rfl
      by_cases hfd : fd = m
      · subst hfd
        -- it was not to be disconnected, so it has been queued all it was told
        have hsame := h.complete (by simpa using hflag)
        have hstream : stream (w.log ++ [.queued fd line true]) fd = stream w.log fd ++ [line] :=
          (stream_snoc w.log _ fd).trans (if_pos rfl)
        have htold : transcript (utterances (w.log ++ [.queued fd line true])) fd = w.told fd ++ [line] :=
          (told_snoc_of_some w.log (u := .line fd line) rfl).trans (if_pos rfl)
        have heq : stream (w.log ++ [.queued fd line true]) fd =
            transcript (utterances (w.log ++ [.queued fd line true])) fd := by
          rw [hstream, htold, hsame]
        exact ⟨heq ▸ List.prefix_refl _, fun _ => heq⟩
      · refine hmodify.same ((stream_snoc w.log _ m).trans (if_neg hfd))
          ((told_snoc_of_some w.log (u := .line fd line) rfl).trans (if_neg hfd)) id
    · refine (h.requestDisconnect fd _).refused fun hfd => ?_
      subst hfd
      show ((w.modify fd _).port fd).disconnectRequested = true
      rw [port_modify_self hm]
  | disconnect fd reason => exact h.requestDisconnect fd reason

/-- **A connection is told more than it is queued only once its disconnection is requested.** -/
theorem Heeds.step (h : ∀ m, (w.ports m).isSome → w.Heeds m) {t : Traffic} (hs : w.Step t w') :
    ∀ m, (w'.ports m).isSome → w'.Heeds m := by
  intro m hm
  have hdrain (fd : Fd) (length : Nat) (hm : (w.ports m).isSome) : (w.drain fd length).Heeds m :=
    ((h m hm).modify fd (f := fun p => { p with outputBuffer := p.outputBuffer.drop length })
      fun _ => rfl).record (a := .sent fd ((w.port fd).outputBuffer.take length)) (fun _ => rfl) rfl
  cases hs with
  | connect fd =>
    have hstream : stream (w.connect fd).log m = if fd = m then [] else stream w.log m :=
      stream_snoc w.log _ m
    have htold : (w.connect fd).told m = if fd = m then [] else w.told m :=
      told_snoc_of_some w.log (u := .opened fd) rfl
    by_cases hfd : fd = m
    · rw [if_pos hfd] at hstream htold
      exact ⟨by rw [hstream, htold], fun _ => by rw [hstream, htold]⟩
    · rw [if_neg hfd] at hstream htold
      have hport : (w.connect fd).ports m = w.ports m := if_neg hfd
      refine (h m (hport ▸ hm)).same hstream htold fun hf => ?_
      unfold Wire.port at hf ⊢
      rwa [hport] at hf
  | note action hnote =>
    refine (h m hm).record ?_ ?_
    · intro lines
      cases action <;> first | rfl | cases hnote
    · cases action <;> first | rfl | cases hnote
  | input fd f => exact (h m (isSome_modify (w := w) fd m _ ▸ hm)).modify fd fun _ => rfl
  | signal x =>
    have hm : (w.ports m).isSome := isSome_signal w m x ▸ hm
    exact (h m hm).signal hm x
  | drainSome fd length => exact hdrain fd length (isSome_drain fd length m ▸ hm)
  | drainAll fd length =>
    have h := hdrain fd length (isSome_drain fd length m ▸ hm)
    exact ⟨h.isPrefix, h.complete⟩
  | rest => exact ⟨(h m hm).isPrefix, (h m hm).complete⟩
  | leave fd index =>
    have hne : fd ≠ m := by
      rintro rfl
      simp [Wire.disconnect] at hm
    have hport : (w.disconnect fd (w.pollFds.eraseIdx index)).ports m = w.ports m := if_neg hne
    refine (h m (hport ▸ hm)).same (stream_snoc w.log _ m) (told_snoc_of_none w.log rfl) ?_
    intro hf
    unfold Wire.port at hf ⊢
    rwa [hport] at hf
  | poll => exact ⟨(h m hm).isPrefix, (h m hm).complete⟩

end Wire

namespace Server

variable {s : Server} {fd listenerFd : Fd} {password : Text} {es : List Event}

theorem Reachable.heeds (h : Reachable s) (hfd : s.core.Live fd) : s.wire.Heeds fd := by
  obtain ⟨listenerFd, password, hr⟩ := h.wire
  refine hr.invariant (I := fun w => ∀ m, (w.ports m).isSome → w.Heeds m) ?_
    (fun _ _ _ _ ih hs => Wire.Heeds.step ih hs) fd ((isSome_ports s fd).2 hfd)
  intro m hm
  simp [Server.wire, Server.start] at hm

/-- What a client has been sent and has pending, in terms of what the machine says to it. -/
theorem delivered_run (hrun : Transition.Run Step (start listenerFd password) es s)
    (hfd : (s.findClient fd).isSome) :
    ∃ lines, lines <+: transcript
        (Machine.said Core.respond (start listenerFd password).core (inputs s.log)) fd ∧
      sentTo s.log fd ++ (s.client fd).outputBuffer = lines.flatMap Line.bytes ∧
      ((s.client fd).disconnectRequested = false → lines = transcript
        (Machine.said Core.respond (start listenerFd password).core (inputs s.log)) fd) := by
  have hr : Reachable s := .of_run hrun
  have hlive := (live_iff s fd).2 hfd
  have hheeds := hr.heeds hlive
  obtain ⟨-, hsaid⟩ := replayed_run hrun
  rw [← hsaid, client_outputBuffer, client_disconnectRequested]
  exact ⟨stream s.log fd, hheeds.isPrefix, (hr.outbox hlive).conserved, hheeds.complete⟩

/-- **The server is the machine in front of a wire.**  Its core and all it has tried to queue are
those of the machine, and each client has been sent, or will be, the bytes of a first part of what
the machine says to it: of all of it, unless its disconnection is requested. -/
theorem server_refines (hrun : Transition.Run Step (start listenerFd password) es s) :
    s.core = Machine.after Core.respond (start listenerFd password).core (inputs s.log) ∧
      utterances s.log = Machine.said Core.respond (start listenerFd password).core (inputs s.log) ∧
      ∀ fd, (s.findClient fd).isSome → ∃ lines, lines <+: transcript
          (Machine.said Core.respond (start listenerFd password).core (inputs s.log)) fd ∧
        sentTo s.log fd ++ (s.client fd).outputBuffer = lines.flatMap Line.bytes ∧
        ((s.client fd).disconnectRequested = false → lines = transcript
          (Machine.said Core.respond (start listenerFd password).core (inputs s.log)) fd) := by
  obtain ⟨hcore, hsaid⟩ := replayed_run hrun
  exact ⟨hcore, hsaid, fun fd hfd => delivered_run hrun hfd⟩

theorem server_refines_session :
    (inputs session.log).length = 13 ∧
      session.core = Machine.after Core.respond (start 3 "pw".toList).core (inputs session.log) := by
  refine ⟨by decide +kernel, ?_⟩
  exact (server_refines (Transition.Run.of_foldlM session_steps)).1

end Server

end FtIrc
