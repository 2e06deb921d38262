import FtIrc.Keeping
import FtIrc.Parsing
import FtIrc.Lib.Framing

/-!
# The stream a client reads

What has been sent to a client and what is pending are together the lines accepted for it, each
with its terminator, and no line has a line feed inside; so the framing of `popLine` finds the lines
again.  A carriage return is another matter: the framing takes one off the end of a line only.
-/

namespace FtIrc

open Std

/-! ## Characters of a command -/

theorem ModeEchoes.chars {c : Channel} {change : ModeChange} {text : Text}
    (h : ModeEchoes c change text) : ∀ d ∈ text, d = change.mode ∨ d ∈ change.argument := by
  intro d hd
  cases h with
  | unknown => exact Or.inl (List.mem_singleton.1 hd)
  | _ => exact Or.inr hd

namespace Server

variable {s s' : Server} {e : Event} {A fd : Fd} {command : Command} {line : Text}

/-- What a handler repeats it has from the name or a parameter. -/
theorem Echoes.chars {text : Text} (h : s.Echoes A command text) :
    ∀ d ∈ text, d ∈ command.name ∨ ∃ p ∈ command.parameters, d ∈ p := by
  intro d hd
  have of_parameters {parameters : List Text} (hparams : command.parameters = parameters)
      (hmem : text ∈ parameters) : d ∈ command.name ∨ ∃ p ∈ command.parameters, d ∈ p :=
    Or.inr ⟨text, hparams ▸ hmem, hd⟩
  cases h with
  | unknown => exact Or.inl hd
  | ping _ _ _ hparams => exact of_parameters hparams (by simp)
  | quit _ _ _ hparams => exact of_parameters hparams (by simp)
  | cap _ _ _ hparams => exact of_parameters hparams (by simp)
  | user _ _ _ _ _ _ _ hparams => exact of_parameters hparams (by simp)
  | nick _ _ _ hparams => exact of_parameters hparams (by simp)
  | join _ _ _ _ hparams => exact of_parameters hparams (by simp)
  | privmsgTarget _ _ _ _ _ hparams => exact of_parameters hparams (by simp)
  | privmsgChannel _ _ _ _ _ _ _ hparams => exact of_parameters hparams (by simp)
  | privmsgUser _ _ _ _ _ _ hparams => exact of_parameters hparams (by simp)
  | topicChannel _ _ _ _ hparams => exact of_parameters hparams (by simp)
  | topic _ _ _ _ _ _ hparams => exact of_parameters hparams (by simp)
  | kickChannel _ _ _ _ _ hparams => exact of_parameters hparams (by simp)
  | kickTarget _ _ _ _ _ _ hparams => exact of_parameters hparams (by simp)
  | kickReason _ _ _ _ _ _ _ _ hparams => exact of_parameters hparams (by simp)
  | inviteTarget _ _ _ _ _ hparams => exact of_parameters hparams (by simp)
  | inviteChannel _ _ _ _ _ _ hparams => exact of_parameters hparams (by simp)
  | modeTarget _ _ _ _ hparams => exact of_parameters hparams (by simp)
  | mode target rest c₀ c before after change _ _ _ _ _ _ hchanges _ hechoes =>
    obtain ⟨modes, hmodes, hread⟩ := parseChannelModeChanges_spec hchanges change (by simp)
    rcases hechoes.chars d hd with rfl | hd
    · exact Or.inr ⟨modes, hmodes, hread.mode⟩
    · rcases hread.argument with hnil | hmem
      · rw [hnil] at hd
        cases hd
      · exact Or.inr ⟨_, hmem, hd⟩

/-- A character below the letters that a line has not is in nothing its handler repeats. -/
theorem utters_of_notMem {d : Char} (hd : d.toNat < 65) (hline : ∀ A line, e = .line A line → d ∉ line) :
    s.Utters (· ≠ d) e := by
  rintro A line rfl - text htext x hx rfl
  rcases htext.chars x hx with hname | ⟨p, hp, hxp⟩
  · exact hline A line rfl (Command.parse_name hd hname)
  · exact hline A line rfl (Command.parse_subset hp x hxp)

theorem ne_of_isPrintable {d : Char} (hd : d.toNat < 32) (c : Char) (h : isPrintable c = true) : c ≠ d := by
  rintro rfl
  unfold isPrintable at h
  rw [Bool.and_eq_true, decide_eq_true_eq] at h
  have : 32 ≤ c.toNat := h.1
  omega

/-- **No line that the server queues has a line feed.** -/
theorem Reachable.no_lineFeed (h : Reachable s) {m : Fd} {l : Line} {accepted : Bool}
    (hmem : .queued m l accepted ∈ s.log) : '\n' ∉ l.render := by
  obtain ⟨listenerFd, password, es, hrun⟩ := h
  have hrun' : Transition.Run (fun s e s' => Step s e s' ∧ s.Utters (· ≠ '\n') e)
      (Server.start listenerFd password) es s := by
    refine hrun.mono fun s e s' hs => ⟨hs, utters_of_notMem (by decide) ?_⟩
    rintro A line rfl hmem
    unfold Step Server.step at hs
    dsimp only at hs
    split at hs
    · next hline => exact hline.2 hmem
    · cases hs
  have hclean := (tidy_run (ne_of_isPrintable (by decide)) hrun').2.2 m l accepted hmem
  exact fun hlf => hclean '\n' hlf rfl

end Server

/-! ## Reading the stream back -/

namespace Client

/-- The complete lines of the input buffer, and the client without them. -/
def popLines : Nat → Client → List Text × Client
  | 0, c => ([], c)
  | turns + 1, c =>
    match c.popLine with
    | none => ([], c)
    | some (line, c') => (line :: (popLines turns c').1, (popLines turns c').2)

variable {c c' : Client}

theorem popLine_eq_none : c.popLine = none ↔ '\n' ∉ c.inputBuffer := by
  unfold popLine
  split
  · next h =>
    refine iff_of_true rfl fun hmem => ?_
    have := List.dropWhile_eq_nil_iff.1 h _ hmem
    simp at this
  · next h =>
    refine iff_of_false (by simp) (not_not.2 ?_)
    by_contra hmem
    have hall : c.inputBuffer.dropWhile (· != '\n') = [] :=
      List.dropWhile_eq_nil_iff.2 fun x hx => by
        rw [bne_iff_ne]
        rintro rfl
        exact hmem hx
    rw [hall] at h
    cases h

/-- A line is popped by its line feed. -/
theorem popLine_eq_some {line : Text} (h : c.popLine = some (line, c')) :
    ∃ frame, '\n' ∉ frame ∧ line = stripReturn frame ∧
      c.inputBuffer = frame ++ '\n' :: c'.inputBuffer ∧ c' = { c with inputBuffer := c'.inputBuffer } := by
  unfold popLine at h
  split at h
  · cases h
  next d rest hdrop =>
  cases h
  refine ⟨c.inputBuffer.takeWhile (· != '\n'), fun hmem => ?_, rfl, ?_, rfl⟩
  · have := List.mem_takeWhile_imp hmem
    simp at this
  · have hd : d = '\n' := by
      have hne : c.inputBuffer.dropWhile (· != '\n') ≠ [] := by rw [hdrop]; exact List.cons_ne_nil d rest
      have := List.head_dropWhile_not (· != '\n') hne
      simpa [hdrop] using this
    subst hd
    dsimp only
    rw [← hdrop, List.takeWhile_append_dropWhile]

/-- **Popping line after line reads the frames of the buffer.** -/
theorem popLines_eq {turns : Nat} (h : c.inputBuffer.length ≤ turns) :
    c.popLines turns = ((Framing.frames '\n' c.inputBuffer).1.map stripReturn,
      { c with inputBuffer := (Framing.frames '\n' c.inputBuffer).2 }) := by
  induction turns generalizing c with
  | zero =>
    have hnil : c.inputBuffer = [] := List.length_eq_zero_iff.1 (Nat.le_zero.1 h)
    rw [popLines, hnil, Framing.frames, ← hnil]
    rfl
  | succ turns ih =>
    rw [popLines]
    cases hpop : c.popLine with
    | none =>
      rw [Framing.frames_of_notMem (popLine_eq_none.1 hpop)]
      rfl
    | some popped =>
      obtain ⟨line, c'⟩ := popped
      obtain ⟨frame, hframe, hline, hinput, hc'⟩ := popLine_eq_some hpop
      have hlength : c'.inputBuffer.length ≤ turns := by
        rw [hinput, List.length_append, List.length_cons] at h
        omega
      dsimp only
      rw [ih hlength, hinput, Framing.frames_append hframe, hline, hc']
      rfl

end Client

theorem stripReturn_append (text : Text) : Client.stripReturn (text ++ ['\r']) = text := by
  unfold Client.stripReturn
  rw [List.getLast?_concat, if_pos rfl, List.dropLast_concat]

/-- **The lines are found again in the bytes they are put in.** -/
theorem popLines_stream {lines : List Line} (h : ∀ line ∈ lines, '\n' ∉ line.render) {turns : Nat}
    (hturns : (lines.flatMap Line.bytes).length ≤ turns) :
    (({} : Client).appendInput (lines.flatMap Line.bytes)).popLines turns = (lines.map Line.render, {}) := by
  have hbytes : lines.flatMap Line.bytes =
      (lines.map fun line => line.render ++ ['\r']).flatMap (· ++ ['\n']) := by
    rw [List.flatMap_map]
    refine List.flatMap_congr fun line _ => ?_
    unfold Line.bytes
    simp
  rw [Client.popLines_eq (c := ({} : Client).appendInput (lines.flatMap Line.bytes)) hturns]
  unfold Client.appendInput
  dsimp only
  rw [List.nil_append, hbytes, Framing.frames_flatMap]
  · rw [List.map_map]
    exact congrArg₂ Prod.mk (List.map_congr_left fun line _ => stripReturn_append _) rfl
  · intro frame hframe
    obtain ⟨line, hline, rfl⟩ := List.mem_map.1 hframe
    simpa using h line hline

theorem mem_stream {log : List Action} {m : Fd} {line : Line} (h : line ∈ stream log m) :
    .queued m line true ∈ log := by
  induction log using List.reverseRecOn with
  | nil => cases h
  | append_singleton log a ih =>
    rw [stream_snoc] at h
    have hold (h : line ∈ stream log m) : .queued m line true ∈ log ++ [a] :=
      List.mem_append_left _ (ih h)
    unfold readAction at h
    split at h
    · split at h
      · cases h
      · exact hold h
    · split at h
      · next hfd =>
        rcases List.mem_append.1 h with h | h
        · exact hold h
        · cases List.mem_singleton.1 h
          rw [hfd]
          exact List.mem_append_right _ (List.mem_singleton_self _)
      · exact hold h
    · exact hold h

/-! ## Room in the buffer -/

/-- The test of `queueRaw`, on the words of `std::size_t`. -/
def exceedsPendingOutput (size length : UInt64) : Bool :=
  decide (length > UInt64.ofNat maxPendingOutput) ||
    decide (size > UInt64.ofNat maxPendingOutput - length)

theorem toNat_maxPendingOutput : (UInt64.ofNat maxPendingOutput).toNat = maxPendingOutput := by decide

/-- **The subtraction never wraps around**: the test is what it is on numbers. -/
theorem exceedsPendingOutput_eq (size length : UInt64) :
    exceedsPendingOutput size length = decide (maxPendingOutput < size.toNat + length.toNat) ∧
    (¬ length > UInt64.ofNat maxPendingOutput →
      (UInt64.ofNat maxPendingOutput - length).toNat = maxPendingOutput - length.toNat) := by
  have hsub (h : ¬ length > UInt64.ofNat maxPendingOutput) :
      (UInt64.ofNat maxPendingOutput - length).toNat = maxPendingOutput - length.toNat := by
    rw [gt_iff_lt, UInt64.not_lt] at h
    rw [UInt64.toNat_sub_of_le _ _ h, toNat_maxPendingOutput]
  refine ⟨?_, hsub⟩
  unfold exceedsPendingOutput
  rw [← Bool.decide_or, decide_eq_decide]
  by_cases h : length > UInt64.ofNat maxPendingOutput
  · refine iff_of_true (Or.inl h) ?_
    rw [gt_iff_lt, UInt64.lt_iff_toNat_lt, toNat_maxPendingOutput] at h
    omega
  · have hsub := hsub h
    rw [or_iff_right h]
    rw [gt_iff_lt, UInt64.lt_iff_toNat_lt, toNat_maxPendingOutput] at h
    rw [gt_iff_lt, UInt64.lt_iff_toNat_lt, hsub]
    omega

namespace Server

variable {s s' : Server} {e : Event} {fd : Fd}

/-- All of the data is queued, or none of it and the client is to be disconnected. -/
theorem queueRaw_spec {client : Client} (hc : s.clients[fd]? = some client) (data : Text) :
    ((s.queueRaw fd data).2 = true → ∃ client', (s.queueRaw fd data).1.clients[fd]? = some client' ∧
      client'.outputBuffer = client.outputBuffer ++ data) ∧
    ((s.queueRaw fd data).2 = false → ∃ client', (s.queueRaw fd data).1.clients[fd]? = some client' ∧
      client'.outputBuffer = client.outputBuffer ∧ client'.disconnectRequested = true) ∧
    ((s.queueRaw fd data).2 = true ↔ client.disconnectRequested = false ∧
      (data.length = 0 ∨ client.outputBuffer.length + data.length ≤ maxPendingOutput)) := by
  have hclient : s.client fd = client := client_of_found hc
  have hmodify (f : Client → Client) : (s.modifyClient fd f).clients[fd]? = some (f client) := by
    unfold modifyClient
    rw [ExtTreeMap.getElem?_modify_self, hc]
    rfl
  unfold queueRaw
  rw [hclient]
  dsimp only
  split
  · next hflag => exact ⟨nofun, fun _ => ⟨client, hc, rfl, hflag⟩, by simp [hflag]⟩
  next hflag =>
  rw [Bool.not_eq_true] at hflag
  split
  · next hnil =>
    rw [List.length_eq_zero_iff] at hnil
    subst hnil
    exact ⟨fun _ => ⟨client, hc, (List.append_nil _).symm⟩, nofun, by simp [hflag]⟩
  next hne =>
  split
  · next hfull =>
    refine ⟨nofun, fun _ => ⟨_, hmodify _, rfl, rfl⟩, iff_of_false Bool.false_ne_true ?_⟩
    rintro ⟨-, hnil | hroom⟩
    · exact hne hnil
    · unfold Client.getOutputSize at hfull
      omega
  · next hroom =>
    refine ⟨fun _ => ⟨_, hmodify _, rfl⟩, nofun, iff_of_true rfl ⟨hflag, Or.inr ?_⟩⟩
    unfold Client.getOutputSize at hroom
    omega

/-- What was sent to a client and what is pending for it are the lines accepted for it. -/
theorem Reachable.buffered {fd : Fd} {client : Client} (h : Reachable s) (hc : s.clients[fd]? = some client) :
    sentTo s.log fd ++ client.outputBuffer = (stream s.log fd).flatMap Line.bytes ∧
      client.outputBuffer.length ≤ maxPendingOutput := by
  have hfd : s.core.Live fd := live_iff_mem.2 (ExtTreeMap.mem_iff_isSome_getElem?.2 (by rw [hc]; rfl))
  have hport : (s.wire.port fd).outputBuffer = client.outputBuffer := by
    rw [← client_outputBuffer, Server.client, hc]
    rfl
  have hsound := h.outbox hfd
  have hconserved : sentTo s.log fd ++ (s.wire.port fd).outputBuffer = (stream s.log fd).flatMap Line.bytes :=
    hsound.conserved
  have hbounded : (s.wire.port fd).outputBuffer.length ≤ maxPendingOutput := hsound.bounded
  rw [hport] at hconserved hbounded
  exact ⟨hconserved, hbounded⟩

/-- **The output of a client is the lines accepted for it, whole and in order.** -/
theorem output_stream (h : Reachable s) :
    (∀ (fd : Fd) (client : Client), s.clients[fd]? = some client →
      sentTo s.log fd ++ client.outputBuffer = (stream s.log fd).flatMap Line.bytes ∧
      (∀ turns, (sentTo s.log fd ++ client.outputBuffer).length ≤ turns →
        (({} : Client).appendInput (sentTo s.log fd ++ client.outputBuffer)).popLines turns =
          ((stream s.log fd).map Line.render, {})) ∧
      client.outputBuffer.length ≤ maxPendingOutput ∧
      ∀ data,
        ((s.queueRaw fd data).2 = true → ∃ client',
          (s.queueRaw fd data).1.clients[fd]? = some client' ∧
          client'.outputBuffer = client.outputBuffer ++ data) ∧
        ((s.queueRaw fd data).2 = false → ∃ client',
          (s.queueRaw fd data).1.clients[fd]? = some client' ∧
          client'.outputBuffer = client.outputBuffer ∧ client'.disconnectRequested = true)) ∧
    (∀ (fd : Fd) (line : Line) (accepted : Bool), .queued fd line accepted ∈ s.log →
      '\n' ∉ line.render) ∧
    ∀ size length : UInt64,
      exceedsPendingOutput size length = decide (maxPendingOutput < size.toNat + length.toNat) ∧
      (¬ length > UInt64.ofNat maxPendingOutput →
        (UInt64.ofNat maxPendingOutput - length).toNat = maxPendingOutput - length.toNat) := by
  refine ⟨fun fd client hc => ?_, fun fd line accepted hmem => h.no_lineFeed hmem, exceedsPendingOutput_eq⟩
  obtain ⟨hconserved, hbounded⟩ := h.buffered hc
  refine ⟨hconserved, fun turns hturns => ?_, hbounded, fun data => ?_⟩
  · rw [hconserved]
    refine popLines_stream (fun line hline => h.no_lineFeed (mem_stream hline)) ?_
    rwa [← hconserved]
  · obtain ⟨h1, h2, -⟩ := queueRaw_spec hc data
    exact ⟨h1, h2⟩

theorem output_stream_session :
    ∃ client, session.clients[5]? = some client ∧
      sentTo session.log 5 ++ client.outputBuffer = (stream session.log 5).flatMap Line.bytes := by
  have hc : (session.clients[5]?).isSome = true := by decide +kernel
  obtain ⟨client, hc⟩ := Option.isSome_iff_exists.1 hc
  exact ⟨client, hc, ((output_stream session_reachable).1 5 client hc).1⟩

/-! ## Carriage returns -/

/-- `al`, on 5, sends itself a message with a carriage return in the middle. -/
def injected : Server :=
  (session.step (.line 5 "PRIVMSG al :hi\rQUIT".toList)).getD session

theorem injected_reachable : Reachable injected := by
  have hsome : (session.step (.line 5 "PRIVMSG al :hi\rQUIT".toList)).isSome = true := by
    decide +kernel
  obtain ⟨s, hs⟩ := Option.isSome_iff_exists.1 hsome
  have heq : injected = s := by
    unfold injected
    rw [hs]
    rfl
  rw [heq]
  exact session_reachable.step hs

/-- **Where no handler repeats a carriage return, none is ever queued.** -/
theorem no_return_injected (listenerFd : Fd) (password : Text) (es : List Event) (s : Server)
    (hrun : Transition.Run (fun s e s' => Step s e s' ∧ s.Utters (· ≠ '\r') e)
      (Server.start listenerFd password) es s) :
    (∀ (fd : Fd) (line : Line) (accepted : Bool), .queued fd line accepted ∈ s.log →
      '\r' ∉ line.render ∧ '\n' ∉ line.render) ∧
    ∀ (fd : Fd) (client : Client), s.clients[fd]? = some client →
      ∃ lines : List Text, (∀ line ∈ lines, '\r' ∉ line ∧ '\n' ∉ line) ∧
        sentTo s.log fd ++ client.outputBuffer = lines.flatMap (· ++ "\r\n".toList) := by
  obtain ⟨hr, -, hclean⟩ := tidy_run (ne_of_isPrintable (by decide)) hrun
  have hlines (fd : Fd) (line : Line) (accepted : Bool) (hmem : .queued fd line accepted ∈ s.log) :
      '\r' ∉ line.render ∧ '\n' ∉ line.render :=
    ⟨fun hcr => hclean fd line accepted hmem '\r' hcr rfl, hr.no_lineFeed hmem⟩
  refine ⟨hlines, fun fd client hc => ⟨(stream s.log fd).map Line.render, ?_, ?_⟩⟩
  · intro text htext
    obtain ⟨line, hline, rfl⟩ := List.mem_map.1 htext
    exact hlines fd line true (mem_stream hline)
  · rw [(hr.buffered hc).1, List.flatMap_map]
    rfl

theorem no_return_injected_session :
    ∃ client, session.clients[5]? = some client ∧ ∃ lines : List Text,
      (∀ line ∈ lines, '\r' ∉ line ∧ '\n' ∉ line) ∧
        sentTo session.log 5 ++ client.outputBuffer = lines.flatMap (· ++ "\r\n".toList) := by
  have hc : (session.clients[5]?).isSome = true := by decide +kernel
  obtain ⟨client, hc⟩ := Option.isSome_iff_exists.1 hc
  have hrun := Transition.Run.of_foldlM session_steps
  refine ⟨client, hc, (no_return_injected 3 "pw".toList sessionEvents session
    (hrun.mono_events fun e he s s' hs => ⟨hs, utters_of_notMem (by decide) ?_⟩)).2 5 client hc⟩
  rintro A line rfl
  have hall : ∀ e ∈ sessionEvents, ∀ A line, e = .line A line → '\r' ∉ line := by
    simp only [sessionEvents, List.forall_mem_cons, Event.line.injEq, reduceCtorEq, false_imp_iff, implies_true,
      true_and, and_imp]
    simp
  exact hall _ he A line rfl

/-- A carriage return inside a message is queued to its reader. -/
theorem return_injected : ¬ ∀ s, Reachable s → ∀ (fd : Fd) (line : Line) (accepted : Bool),
    .queued fd line accepted ∈ s.log → '\r' ∉ line.render ∧ '\n' ∉ line.render := by
  intro hall
  have hqueued : (queuedTo 5 injected.log).any (fun line => line.render.contains '\r') = true := by
    decide +kernel
  obtain ⟨line, hline, hcr⟩ := List.any_eq_true.1 hqueued
  obtain ⟨accepted, hmem⟩ := mem_queuedTo.1 hline
  exact (hall injected injected_reachable 5 line accepted hmem).1 (List.contains_iff_mem.1 hcr)

end Server

end FtIrc
