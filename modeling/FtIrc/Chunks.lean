import FtIrc.Streams
import FtIrc.Passes

/-!
# Input in chunks

What arrives from a client is cut wherever the network cuts it.  Whatever the cuts, the lines
handled for the client are the frames of all it has sent (`Server.framing_independent`), as long
as none is too long.
-/

namespace FtIrc

open Std

/-- The complete lines handled for the client on `fd`. -/
def handedTo (fd : Fd) (actions : List Action) : List Text :=
  actions.filterMap fun
    | .completeLine x line => if x = fd then some line else none
    | _ => none

theorem handedTo_append (fd : Fd) (as bs : List Action) :
    handedTo fd (as ++ bs) = handedTo fd as ++ handedTo fd bs := List.filterMap_append

theorem handedTo_delivery {fd : Fd} {actions : List Action} (h : ∀ a ∈ actions, a.isDelivery = true) :
    handedTo fd actions = [] := by
  refine List.filterMap_eq_nil_iff.2 fun a ha => ?_
  have := h a ha
  cases a <;> first | rfl | cases this

namespace Wire

variable {w w' w'' : Wire} {fd : Fd} {lines more : List Text}

/-- From `w` to `w'` just `lines` are handled for the client on `fd`.  What it has sent and not
completed stays, and so does a request to disconnect it. -/
structure Hears (w w' : Wire) (fd : Fd) (lines : List Text) : Prop where
  log : ∃ actions, w'.log = w.log ++ actions ∧ handedTo fd actions = lines
  flag : (w.port fd).disconnectRequested = true → (w'.port fd).disconnectRequested = true
  input : (w'.port fd).inputBuffer = (w.port fd).inputBuffer

namespace Hears

theorem trans (h : w.Hears w' fd lines) (h' : w'.Hears w'' fd more) :
    w.Hears w'' fd (lines ++ more) := by
  obtain ⟨as, has, hlines⟩ := h.log
  obtain ⟨bs, hbs, hmore⟩ := h'.log
  refine ⟨⟨as ++ bs, by rw [hbs, has, List.append_assoc], ?_⟩, fun hflag => h'.flag (h.flag hflag),
    h'.input.trans h.input⟩
  rw [handedTo_append, hlines, hmore]

/-- Nothing has happened to the client. -/
theorem of_port (hlog : w'.log = w.log) (hport : w'.port fd = w.port fd) : w.Hears w' fd [] := by
  refine ⟨⟨[], by rw [hlog, List.append_nil], rfl⟩, fun h => ?_, congrArg Port.inputBuffer hport⟩
  rw [hport]
  exact h

theorem refl (w : Wire) (fd : Fd) : w.Hears w fd [] := of_port rfl rfl

theorem record (w : Wire) (fd : Fd) (a : Action) : w.Hears (w.record a) fd (handedTo fd [a]) :=
  ⟨⟨[a], rfl, rfl⟩, id, rfl⟩

theorem modify (w : Wire) (fd m : Fd) {f : Port → Port}
    (hflag : ∀ p, p.disconnectRequested = true → (f p).disconnectRequested = true)
    (hinput : ∀ p, (f p).inputBuffer = p.inputBuffer) : w.Hears (w.modify m f) fd [] :=
  ⟨⟨[], (List.append_nil _).symm, rfl⟩, flag_modify hflag, input_modify m fd hinput⟩

theorem deliver (w : Wire) (fd : Fd) (signals : List Signal) : w.Hears (w.deliver signals) fd [] := by
  obtain ⟨actions, hlog, hdelivery⟩ := w.log_deliver signals
  exact ⟨⟨actions, hlog, handedTo_delivery hdelivery⟩, w.deliver_flag fd signals, w.input_deliver signals fd⟩

theorem disconnect (w : Wire) {fd m : Fd} (hne : m ≠ fd) (pollFds : List PollFd) :
    w.Hears (w.disconnect m pollFds) fd [] := by
  have hport := w.port_disconnect_of_ne hne pollFds
  refine ⟨⟨[.removed m], rfl, rfl⟩, fun h => ?_, congrArg Port.inputBuffer hport⟩
  rw [hport]
  exact h

theorem connect (w : Wire) {fd m : Fd} (hne : m ≠ fd) : w.Hears (w.connect m) fd [] := by
  have hport : (w.connect m).port fd = w.port fd := by
    unfold port Wire.connect
    dsimp only
    rw [if_neg hne]
  refine ⟨⟨[.accepted m], rfl, rfl⟩, fun h => ?_, congrArg Port.inputBuffer hport⟩
  rw [hport]
  exact h

end Hears

/-- From `w` to `w'` the client on `fd` sends `data`, and the frames in front of what it has sent
are taken off and handled. -/
structure Takes (w w' : Wire) (fd : Fd) (data : Text) (frames : List Text) : Prop where
  noFeed : ∀ frame ∈ frames, '\n' ∉ frame
  input : (w.port fd).inputBuffer ++ data = frames.flatMap (· ++ ['\n']) ++ (w'.port fd).inputBuffer
  log : ∃ actions, w'.log = w.log ++ actions ∧ handedTo fd actions = frames.map Client.stripReturn
  flag : (w.port fd).disconnectRequested = true → (w'.port fd).disconnectRequested = true

theorem Hears.takes (h : w.Hears w' fd []) : w.Takes w' fd [] [] :=
  ⟨by simp, by rw [h.input, List.append_nil]; rfl, h.log, h.flag⟩

theorem Takes.trans {data data' : Text} {frames frames' : List Text} (h : w.Takes w' fd data frames)
    (h' : w'.Takes w'' fd data' frames') : w.Takes w'' fd (data ++ data') (frames ++ frames') := by
  obtain ⟨as, has, hframes⟩ := h.log
  obtain ⟨bs, hbs, hframes'⟩ := h'.log
  refine ⟨?_, ?_, ⟨as ++ bs, by rw [hbs, has, List.append_assoc], ?_⟩, fun hflag => h'.flag (h.flag hflag)⟩
  · intro frame hframe
    rcases List.mem_append.1 hframe with hframe | hframe
    · exact h.noFeed frame hframe
    · exact h'.noFeed frame hframe
  · rw [← List.append_assoc, h.input, List.append_assoc, h'.input, List.flatMap_append, List.append_assoc]
  · rw [handedTo_append, hframes, hframes', List.map_append]

/-- Every complete line is handled, unless the client is to be disconnected. -/
def Spent (w : Wire) (fd : Fd) : Prop :=
  (w.port fd).disconnectRequested = false → '\n' ∉ (w.port fd).inputBuffer

theorem Hears.spent (h : w.Hears w' fd []) (hspent : w.Spent fd) : w'.Spent fd := by
  intro hflag
  rw [h.input]
  refine hspent (Bool.eq_false_iff.2 fun hset => ?_)
  rw [h.flag hset] at hflag
  cases hflag

end Wire

namespace Server

variable {s s' : Server} {e : Event} {A fd : Fd} {i : Nat}

/-! ## What a step hears -/

theorem hears_handleCompleteLine (hr : Reachable s) (hA : s.core.Live A) (line : Text) (fd : Fd) :
    s.wire.Hears (s.handleCompleteLine A line).wire fd (handedTo fd [.completeLine A line]) := by
  rcases handleCompleteLine_spec hr.ok.membersLive hA line with ⟨-, -, hwire⟩ | ⟨-, signals, -, hwire⟩
  · rw [hwire]
    exact .record s.wire fd _
  · have hnoted := (Wire.Hears.record s.wire fd (.completeLine A line)).trans
      (.record _ fd (.dispatched A (Command.parse line)))
    rw [hwire]
    simpa [handedTo] using hnoted.trans (.deliver _ fd signals)

theorem hears_flushClientOutput (index : Nat) (sent : Option Nat) (fd : Fd) :
    s.wire.Hears (s.flushClientOutput index sent).1.wire fd [] := by
  have hfailed (m : Fd) (reason : Text) : s.wire.Hears (s.requestDisconnect m reason).wire fd [] := by
    rw [wire_requestDisconnect]
    exact (Wire.Hears.modify s.wire fd m (f := fun p =>
      { p with disconnectReason := reason, disconnectRequested := true }) (fun _ _ => rfl) fun _ => rfl).trans
        (.record _ fd (.disconnectRequested m reason))
  unfold flushClientOutput
  split
  · exact .refl s.wire fd
  next p _ =>
  split
  · exact .refl s.wire fd
  next client hc =>
  split
  · exact .of_port rfl rfl
  split
  · exact hfailed p.fd _
  · exact hfailed p.fd _
  · next length _ =>
    have hsent : s.wire.Hears ((s.modifyClient p.fd (·.consumeOutput length)).record
        (.sent p.fd (client.outputBuffer.take length))).wire fd [] := by
      rw [wire_consumeOutput hc length]
      exact (Wire.Hears.modify s.wire fd p.fd (f := fun q =>
        { q with outputBuffer := q.outputBuffer.drop length }) (fun _ h => h) fun _ => rfl).trans
          (.record _ fd (.sent p.fd _))
    dsimp only
    split
    · exact hsent
    · exact hsent.trans (.of_port rfl rfl)

/-- The step reads nothing from the client on `fd`, handles no line of it and does not remove it. -/
def Elsewhere (s : Server) (fd : Fd) (e : Event) : Prop :=
  e.input? ≠ some fd ∧ ∀ index, e = .remove index → s.fds[index]? ≠ some fd

/-- A step elsewhere leaves a client with what it has sent. -/
theorem Step.hears (hs : s.Step e s') (hr : Reachable s) (hfd : s.core.Live fd) (he : s.Elsewhere fd e) :
    s'.core.Live fd ∧ s.wire.Hears s'.wire fd [] := by
  unfold Step step at hs
  cases e with
  | poll revents =>
    cases hs
    exact ⟨hfd, .of_port rfl rfl⟩
  | accept result =>
    dsimp only at hs
    cases hok : s.acceptClient result with
    | error e => rw [hok] at hs; cases hs
    | ok s₁ =>
      rw [hok] at hs
      cases hs
      rcases acceptClient_spec hok with rfl | ⟨x, -, hnot, -, hcore, hwire⟩
      · exact ⟨hfd, .refl _ fd⟩
      · have hne : x ≠ fd := by
          rintro rfl
          exact hnot hfd
        rw [hcore, hwire]
        exact ⟨Core.live_connect.2 (Or.inr hfd), .connect _ hne⟩
  | receive x data =>
    have hne : x ≠ fd := fun h => he.1 (congrArg some h)
    obtain ⟨c, -, rfl⟩ := Option.map_eq_some_iff.1 hs
    have hport := wire_modifyClient s x (f := (·.appendInput data))
      (g := fun p => { p with inputBuffer := p.inputBuffer ++ data }) fun _ => rfl
    rw [core_modifyClient_port s x (f := (·.appendInput data)) fun _ => rfl, hport]
    exact ⟨hfd, .of_port rfl (Wire.port_modify_of_ne (w := s.wire) hne)⟩
  | pop x =>
    have hne : x ≠ fd := fun h => he.1 (congrArg some h)
    obtain ⟨⟨line, c'⟩, hpop, rfl⟩ := Option.map_eq_some_iff.1 hs
    refine ⟨((same_popped x c').live fd).2 hfd, ?_⟩
    rw [modifyClient_popped hpop, wire_modifyClient s x (f := fun c => { c with inputBuffer := c'.inputBuffer })
      (g := fun p => { p with inputBuffer := c'.inputBuffer }) fun _ => rfl]
    exact .of_port rfl (Wire.port_modify_of_ne (w := s.wire) hne)
  | line x line =>
    have hne : x ≠ fd := fun h => he.1 (congrArg some h)
    dsimp only at hs
    split at hs
    · next hx =>
      cases hs
      have hlive := (live_iff s x).2 hx.1
      refine ⟨((same_handleCompleteLine hr.ok.membersLive hlive line).live fd).2 hfd, ?_⟩
      have hheard := hears_handleCompleteLine hr hlive line fd
      rwa [show handedTo fd [.completeLine x line] = [] by simp [handedTo, hne]] at hheard
    · cases hs
  | flush index sent =>
    dsimp only at hs
    split at hs
    · cases hs
      rw [(quiet_flushClientOutput index sent).1]
      exact ⟨hfd, hears_flushClientOutput index sent fd⟩
    · cases hs
  | remove index =>
    have hne := he.2 index rfl
    dsimp only at hs
    split at hs
    · next hindex =>
      cases hs
      obtain ⟨p, recipients, hp, -, -, hcore, -, hwire⟩ :=
        hr.polled.removeClient hr.ok.membersLive hindex
      have hpfd : p.fd ≠ fd := by
        rintro rfl
        exact hne (getElem?_fds hp)
      rw [hcore, hwire]
      exact ⟨Core.live_disconnect.2 ⟨hpfd, hfd⟩,
        (Wire.Hears.deliver s.wire fd _).trans (.disconnect _ hpfd _)⟩
    · cases hs

def Away (fd : Fd) (s : Server) (e : Event) (s' : Server) : Prop := s.Step e s' ∧ s.Elsewhere fd e

theorem hears_run (hr : Reachable s) (hfd : s.core.Live fd) (h : Transition.Reachable (Away fd) s s') :
    (Reachable s' ∧ s'.core.Live fd) ∧ s.wire.Hears s'.wire fd [] := by
  refine h.invariant (I := fun s' => (Reachable s' ∧ s'.core.Live fd) ∧ s.wire.Hears s'.wire fd []) ?_ ?_
  · exact ⟨⟨hr, hfd⟩, .refl s.wire fd⟩
  · rintro s₁ e s₂ - ⟨⟨hr₁, hfd₁⟩, hheard⟩ ⟨hs, he⟩
    obtain ⟨hfd₂, hheard'⟩ := hs.hears hr₁ hfd₁ he
    exact ⟨⟨hr₁.step hs, hfd₂⟩, hheard.trans hheard'⟩

/-- Another client's input is elsewhere. -/
theorem InputRun.away {x : Fd} (h : InputRun x s s') (hne : x ≠ fd) : Transition.Reachable (Away fd) s s' := by
  obtain ⟨es, hes⟩ := h
  refine (hes.mono fun _ e _ ⟨hs, hx⟩ => ⟨hs, ?_, ?_⟩).reachable
  · rw [hx]
    exact fun h => hne (Option.some.inj h)
  · rintro index rfl
    cases hx

/-- Who is removed is gone, and no line of it is handled meanwhile. -/
theorem removed_index (hr : Reachable s) (hfd : s.core.Live fd) (hi : s.fds[i]? = some fd) :
    ¬ (s.removeClient i).core.Live fd ∧
      ∃ actions, (s.removeClient i).log = s.log ++ (actions ++ [.removed fd]) ∧ handedTo fd actions = [] := by
  have hindex := isClientIndex_iff.2 ⟨fd, hi, ((hr.polled.live fd).1 hfd).2⟩
  obtain ⟨p, recipients, hp, -, -, hcore, -, hwire⟩ := hr.polled.removeClient hr.ok.membersLive hindex
  obtain rfl : p.fd = fd := Option.some.inj ((getElem?_fds hp).symm.trans hi)
  obtain ⟨actions, hlog, hdelivery⟩ := s.wire.log_deliver (toAll recipients (s.quitLine p.fd))
  refine ⟨?_, actions, log_removed hwire hlog, handedTo_delivery hdelivery⟩
  rw [hcore, Core.live_disconnect]
  exact fun h => h.1 rfl

/-- What follows the reading in a turn is elsewhere, unless the client is removed. -/
theorem MuteRun.away (h : MuteRun s s') (hr : Reachable s) (hfd : s.core.Live fd) :
    ∃ actions, s'.log = s.log ++ actions ∧
      (.removed fd ∉ actions → Transition.Reachable (Away fd) s s') := by
  suffices Reachable s' ∧ ∃ actions, s'.log = s.log ++ actions ∧
      (.removed fd ∉ actions → Transition.Reachable (Away fd) s s') from this.2
  refine h.invariant (I := fun s' => Reachable s' ∧ ∃ actions, s'.log = s.log ++ actions ∧
    (.removed fd ∉ actions → Transition.Reachable (Away fd) s s')) ?_ ?_
  · exact ⟨hr, [], (List.append_nil _).symm, fun _ => .refl⟩
  · rintro s₁ e s₂ - ⟨hr₁, as, has, hrun⟩ ⟨hs, hmute⟩
    obtain ⟨bs, hbs, -⟩ := (hr₁.move hs).log
    refine ⟨hr₁.step hs, as ++ bs, by rw [hbs, has, List.append_assoc], fun hstays => ?_⟩
    rw [List.mem_append, not_or] at hstays
    refine (hrun hstays.1).step ⟨hs, by rw [hmute]; exact nofun, ?_⟩
    rintro index rfl hindex
    have hfd₁ := (hears_run hr hfd (hrun hstays.1)).1.2
    have hclient := isClientIndex_iff.2 ⟨fd, hindex, ((hr₁.polled.live fd).1 hfd₁).2⟩
    cases (step_remove hclient).symm.trans hs
    obtain ⟨-, removal, hremoved, -⟩ := removed_index hr₁ hfd₁ hindex
    rw [List.append_cancel_left (hbs.symm.trans hremoved)] at hstays
    exact hstays.2 (List.mem_append_right _ List.mem_cons_self)

/-! ## What a read takes -/

theorem client_inputBuffer (s : Server) (fd : Fd) :
    (s.client fd).inputBuffer = (s.wire.port fd).inputBuffer :=
  congrArg Port.inputBuffer (s.port_client fd)

theorem takes_appended (hfd : s.core.Live fd) (data : Text) :
    s.wire.Takes (s.modifyClient fd (·.appendInput data)).wire fd data [] := by
  have hport := congrArg Client.port (client_modifyClient hfd (·.appendInput data))
  rw [port_client] at hport
  refine ⟨by simp, ?_, ⟨[], (List.append_nil _).symm, rfl⟩, fun hflag => ?_⟩
  · rw [hport, ← client_inputBuffer]
    rfl
  · rw [hport]
    exact (client_disconnectRequested s fd).trans hflag

/-- The first line is the first frame. -/
theorem takes_handleFirst (hr : Reachable s) (hfd : s.core.Live fd) {line : Text} {client : Client}
    (hpop : (s.client fd).popLine = some (line, client)) :
    ∃ frame, s.wire.Takes (s.handleFirst fd line client).wire fd [] [frame] := by
  obtain ⟨frame, hframe, hline, hinput, hclient⟩ := Client.popLine_eq_some hpop
  have hlive := ((same_popped fd client).live fd).2 hfd
  have hheard := hears_handleCompleteLine (hr.step (step_pop hfd hpop)) hlive line fd
  have hport := congrArg Client.port (client_modifyClient hfd fun _ => client)
  rw [port_client] at hport
  obtain ⟨actions, hlog, hlines⟩ := hheard.log
  refine ⟨frame, by simpa using hframe, ?_, ⟨actions, hlog, ?_⟩, fun hflag => hheard.flag ?_⟩
  · rw [handleFirst, hheard.input, hport, ← client_inputBuffer, hinput]
    simp [Client.port]
  · rw [hlines, hline]
    simp [handedTo]
  · rw [hport, hclient]
    exact (client_disconnectRequested s fd).trans hflag

/-- **The lines of a read are frames**, all there are unless the client is to be disconnected. -/
theorem takes_handleLines (hr : Reachable s) (hfd : s.core.Live fd) (turns : Nat) :
    (∃ frames, s.wire.Takes (handleLines fd turns s).wire fd [] frames) ∧
      ((s.client fd).inputBuffer.length ≤ turns → (handleLines fd turns s).wire.Spent fd) := by
  induction turns generalizing s with
  | zero =>
    refine ⟨⟨[], (Wire.Hears.refl s.wire fd).takes⟩, fun hlength _ => ?_⟩
    rw [handleLines, ← client_inputBuffer, List.length_eq_zero_iff.1 (Nat.le_zero.1 hlength)]
    exact List.not_mem_nil
  | succ turns ih =>
    unfold handleLines
    cases hpop : (s.client fd).popLine with
    | none =>
      refine ⟨⟨[], (Wire.Hears.refl s.wire fd).takes⟩, fun _ _ => ?_⟩
      rw [← client_inputBuffer]
      exact Client.popLine_eq_none.1 hpop
    | some popped =>
      obtain ⟨line, client⟩ := popped
      obtain ⟨frame, hfirst⟩ := takes_handleFirst hr hfd hpop
      dsimp only
      split
      · next hflag =>
        refine ⟨⟨[frame], hfirst⟩, fun _ hunset => ?_⟩
        rw [client_disconnectRequested] at hflag
        rw [hflag] at hunset
        cases hunset
      · have hrest := ih (s := s.handleFirst fd line client)
          ((hr.step (step_pop hfd hpop)).step (step_handleFirst hfd hpop))
          (((same_handleFirst hr hfd hpop).live fd).2 hfd)
        obtain ⟨frames, hlater⟩ := hrest.1
        refine ⟨⟨frame :: frames, hfirst.trans hlater⟩, fun hlength => hrest.2 ?_⟩
        have hinput := congrArg List.length hfirst.input
        rw [← client_inputBuffer, ← client_inputBuffer] at hinput
        simp only [List.append_nil, List.flatMap_cons, List.flatMap_nil, List.length_append,
          List.length_singleton] at hinput
        omega

/-- **A receive that returns data**, seen from its client. -/
theorem takes_receive (hr : Reachable s) (hfd : s.core.Live fd) (hi : s.fds[i]? = some fd) {data : Text}
    (hdata : data ≠ []) {ok : Bool} (h : s.receiveFromClient i (some data) = (s', ok)) :
    (Reachable s' ∧ s'.core.Live fd) ∧ (∃ frames, s.wire.Takes s'.wire fd data frames) ∧
      s'.wire.Spent fd ∧ (ok = true ↔ (s'.wire.port fd).inputBuffer.length ≤ maxPendingInput) := by
  obtain ⟨p, hp, rfl⟩ : ∃ p, s.pollFds[i]? = some p ∧ p.fd = fd := by simpa [fds] using hi
  rw [receiveFromClient_eq hp ((live_iff s p.fd).1 hfd) hdata] at h
  cases h
  have hsame := same_appended (s := s) p data
  have hr' := hr.step (step_appended hfd data)
  have hlive := (hsame.live p.fd).2 hfd
  obtain ⟨⟨frames, hlines⟩, hspent⟩ := takes_handleLines hr' hlive
    ((s.appended p data).client p.fd).getInputSize
  refine ⟨⟨hr'.run (handleLines_input hr' hlive _).steps, ((same_handleLines hr' hlive _).live p.fd).2 hlive⟩,
    ⟨frames, ?_⟩, hspent le_rfl, ?_⟩
  · have htakes := (takes_appended hfd data).trans hlines
    rwa [List.append_nil] at htakes
  · rw [← client_inputBuffer, Bool.not_eq_true', decide_eq_false_iff_not]
    exact Nat.not_lt

/-! ## A stream in chunks -/

/-- `char buffer[1024]` of `receiveFromClient` -/
def receiveBuffer : Nat := 1024

/-- What happens to the server, seen from one client: some bytes of it arrive, with what
`receiveFromClient` returns, or there is a step elsewhere. -/
inductive Arrival where
  | chunk (data : Text) (ok : Bool)
  | elsewhere (e : Event)

namespace Arrival

def data : Arrival → Text
  | .chunk data _ => data
  | .elsewhere _ => []

/-- Unless `receiveFromClient` returns `false`. -/
def Succeeds : Arrival → Prop
  | .chunk _ ok => ok = true
  | .elsewhere _ => True

end Arrival

def Listens (fd : Fd) (s : Server) : Arrival → Server → Prop
  | .chunk data ok, s' => 0 < data.length ∧ data.length ≤ receiveBuffer ∧
      ∃ i, s.fds[i]? = some fd ∧ s.receiveFromClient i (some data) = (s', ok)
  | .elsewhere e, s' => Away fd s e s'

variable {a : Arrival} {as : List Arrival} {s₀ : Server}

theorem Listens.takes (h : Listens fd s a s') (hr : Reachable s) (hfd : s.core.Live fd) :
    (Reachable s' ∧ s'.core.Live fd) ∧ (∃ frames, s.wire.Takes s'.wire fd a.data frames) ∧
      (s.wire.Spent fd → s'.wire.Spent fd) := by
  cases a with
  | chunk data ok =>
    obtain ⟨hpos, -, i, hi, hreceive⟩ := h
    obtain ⟨hstate, htakes, hspent, -⟩ :=
      takes_receive hr hfd hi (List.length_pos_iff.1 hpos) hreceive
    exact ⟨hstate, htakes, fun _ => hspent⟩
  | elsewhere e =>
    obtain ⟨hlive, hheard⟩ := h.1.hears hr hfd h.2
    exact ⟨⟨hr.step h.1, hlive⟩, ⟨[], hheard.takes⟩, hheard.spent⟩

/-- A receive succeeds when what is stored after it is within the limit. -/
theorem Listens.succeeds (h : Listens fd s a s') (hr : Reachable s) (hfd : s.core.Live fd) :
    ((s'.wire.port fd).inputBuffer.length ≤ maxPendingInput → a.Succeeds) ∧
      (a.Succeeds → (s.wire.port fd).inputBuffer.length ≤ maxPendingInput →
        (s'.wire.port fd).inputBuffer.length ≤ maxPendingInput) := by
  cases a with
  | chunk data ok =>
    obtain ⟨hpos, -, i, hi, hreceive⟩ := h
    obtain ⟨-, -, -, hok⟩ := takes_receive hr hfd hi (List.length_pos_iff.1 hpos) hreceive
    exact ⟨hok.2, fun hsucceeds _ => hok.1 hsucceeds⟩
  | elsewhere e =>
    obtain ⟨-, hheard⟩ := h.1.hears hr hfd h.2
    exact ⟨fun _ => trivial, fun _ hstored => by rw [hheard.input]; exact hstored⟩

theorem Listens.data_length (h : Listens fd s a s') : a.data.length ≤ receiveBuffer := by
  cases a with
  | chunk data ok => exact h.2.1
  | elsewhere e => exact Nat.zero_le _

section Runs

variable (hr : Reachable s₀) (hfd : s₀.core.Live fd) (hempty : (s₀.wire.port fd).inputBuffer = [])
  (hrun : Transition.Run (Listens fd) s₀ as s)
include hr hfd hrun

theorem takes_run : (Reachable s ∧ s.core.Live fd) ∧
    (∃ frames, s₀.wire.Takes s.wire fd (as.flatMap Arrival.data) frames) ∧
      (s₀.wire.Spent fd → s.wire.Spent fd) := by
  induction hrun with
  | nil => exact ⟨⟨hr, hfd⟩, ⟨[], (Wire.Hears.refl s₀.wire fd).takes⟩, id⟩
  | snoc _ hs ih =>
    obtain ⟨⟨hr', hfd'⟩, ⟨frames, htakes⟩, hspent⟩ := ih
    obtain ⟨hstate, ⟨frames', htakes'⟩, hspent'⟩ := hs.takes hr' hfd'
    refine ⟨hstate, ⟨frames ++ frames', ?_⟩, fun h => hspent' (hspent h)⟩
    rw [List.flatMap_append, List.flatMap_singleton]
    exact htakes.trans htakes'

include hempty

/-- While no disconnect is requested, what is handled and what is stored are the frames of the
stream. -/
theorem frames_run (hflag : (s.wire.port fd).disconnectRequested = false) :
    s₀.wire.Takes s.wire fd (as.flatMap Arrival.data)
        (Framing.frames '\n' (as.flatMap Arrival.data)).1 ∧
      (s.wire.port fd).inputBuffer = (Framing.frames '\n' (as.flatMap Arrival.data)).2 := by
  obtain ⟨-, ⟨frames, htakes⟩, hspent⟩ := takes_run hr hfd hrun
  have hrest := hspent (fun _ => by rw [hempty]; exact List.not_mem_nil) hflag
  have hinput := htakes.input
  rw [hempty, List.nil_append] at hinput
  have hframes : Framing.frames '\n' (as.flatMap Arrival.data) =
      (frames, (s.wire.port fd).inputBuffer) := by
    rw [hinput]
    exact Framing.frames_flatMap_rest htakes.noFeed hrest
  rw [hframes]
  exact ⟨htakes, rfl⟩

/-- Nothing is refused when no line is too long. -/
theorem succeeds_run (hwithin : Framing.Within '\n' maxPendingInput (as.flatMap Arrival.data))
    (hflag : (s.wire.port fd).disconnectRequested = false) : ∀ a ∈ as, a.Succeeds := by
  induction hrun with
  | nil => exact fun _ h => absurd h List.not_mem_nil
  | @snoc as s a s' hrun hs ih =>
    obtain ⟨⟨hr', hfd'⟩, -, -⟩ := takes_run hr hfd hrun
    obtain ⟨-, ⟨_, htakes⟩, -⟩ := hs.takes hr' hfd'
    have hflag' : (s.wire.port fd).disconnectRequested = false :=
      Bool.eq_false_iff.2 fun hset => Bool.false_ne_true (hflag.symm.trans (htakes.flag hset))
    have hstored := (frames_run hr hfd hempty (hrun.snoc hs) hflag).2
    have hfits := hwithin.2
    rw [← hstored] at hfits
    rw [List.flatMap_append] at hwithin
    intro b hb
    rcases List.mem_append.1 hb with hb | hb
    · exact ih hwithin.of_append hflag' b hb
    · cases List.mem_singleton.1 hb
      exact (hs.succeeds hr' hfd').1 hfits

/-- While nothing is refused, what is stored is within the limit. -/
theorem stored_run (hok : ∀ a ∈ as, a.Succeeds) : (s.wire.port fd).inputBuffer.length ≤ maxPendingInput := by
  induction hrun with
  | nil =>
    rw [hempty]
    exact Nat.zero_le _
  | snoc hrun hs ih =>
    obtain ⟨⟨hr', hfd'⟩, -, -⟩ := takes_run hr hfd hrun
    exact (hs.succeeds hr' hfd').2 (hok _ (List.mem_append_right _ List.mem_cons_self))
      (ih fun a ha => hok a (List.mem_append_left _ ha))

/-- A line that is handled fits in what was stored and one more chunk. -/
theorem short_run (hok : ∀ a ∈ as.dropLast, a.Succeeds) :
    ∃ frames, s₀.wire.Takes s.wire fd (as.flatMap Arrival.data) frames ∧
      ∀ frame ∈ frames, frame.length < maxPendingInput + receiveBuffer := by
  induction hrun with
  | nil => exact ⟨[], (Wire.Hears.refl s₀.wire fd).takes, by simp⟩
  | @snoc as s a s' hrun hs ih =>
    rw [List.dropLast_concat] at hok
    obtain ⟨frames, htakes, hshort⟩ := ih fun a ha => hok a (List.mem_of_mem_dropLast ha)
    obtain ⟨⟨hr', hfd'⟩, -, -⟩ := takes_run hr hfd hrun
    obtain ⟨-, ⟨frames', htakes'⟩, -⟩ := hs.takes hr' hfd'
    refine ⟨frames ++ frames', ?_, fun frame hframe => ?_⟩
    · rw [List.flatMap_append, List.flatMap_singleton]
      exact htakes.trans htakes'
    · rcases List.mem_append.1 hframe with hframe | hframe
      · exact hshort frame hframe
      have hstored := stored_run hr hfd hempty hrun hok
      have hchunk := hs.data_length
      have hlength := congrArg List.length htakes'.input
      obtain ⟨before, behind, rfl⟩ := List.append_of_mem hframe
      simp only [List.flatMap_append, List.flatMap_cons, List.length_append, List.length_singleton] at hlength
      omega

end Runs

/-- **Framing does not depend on the chunks.** -/
theorem framing_independent (hr : Reachable s₀) (hfd : s₀.core.Live fd)
    (hempty : (s₀.client fd).inputBuffer = []) (hrun : Transition.Run (Listens fd) s₀ as s) :
    ∃ actions, s.log = s₀.log ++ actions ∧
      (Framing.Within '\n' maxPendingInput (as.flatMap Arrival.data) →
        (s.client fd).disconnectRequested = false →
        (∀ a ∈ as, a.Succeeds) ∧
        handedTo fd actions =
          (Framing.frames '\n' (as.flatMap Arrival.data)).1.map Client.stripReturn ∧
        (s.client fd).inputBuffer = (Framing.frames '\n' (as.flatMap Arrival.data)).2) ∧
      ((∀ a ∈ as.dropLast, a.Succeeds) →
        (∃ frames, frames <+: (Framing.frames '\n' (as.flatMap Arrival.data)).1 ∧
          handedTo fd actions = frames.map Client.stripReturn ∧
          ∀ frame ∈ frames, frame.length < 66560) ∧
        ((∀ a ∈ as, a.Succeeds) → (s.client fd).inputBuffer.length ≤ 65536)) := by
  rw [client_inputBuffer] at hempty
  obtain ⟨-, ⟨_, htakes⟩, -⟩ := takes_run hr hfd hrun
  obtain ⟨actions, hlog, -⟩ := htakes.log
  have hlines {frames : List Text} (h : s₀.wire.Takes s.wire fd (as.flatMap Arrival.data) frames) :
      handedTo fd actions = frames.map Client.stripReturn := by
    obtain ⟨_, hlog', hframes⟩ := h.log
    rw [← List.append_cancel_left (hlog.symm.trans hlog')] at hframes
    exact hframes
  refine ⟨actions, hlog, fun hwithin hflag => ?_, fun hok => ⟨?_, fun hall => ?_⟩⟩
  · rw [client_disconnectRequested] at hflag
    obtain ⟨hframes, hrest⟩ := frames_run hr hfd hempty hrun hflag
    exact ⟨succeeds_run hr hfd hempty hrun hwithin hflag, hlines hframes,
      (client_inputBuffer s fd).trans hrest⟩
  · obtain ⟨frames, hframes, hshort⟩ := short_run hr hfd hempty hrun hok
    refine ⟨frames, ?_, hlines hframes, hshort⟩
    have hinput := hframes.input
    rw [hempty, List.nil_append] at hinput
    rw [hinput, Framing.frames_flatMap_append hframes.noFeed]
    exact List.prefix_append _ _
  · rw [client_inputBuffer]
    exact stored_run hr hfd hempty hrun hall

/-- `eve` sends a line whose CR and LF arrive apart. -/
theorem framing_independent_session :
    ∃ s, Transition.Run (Listens 6) session
        [.chunk "PING x\r".toList true, .chunk "\nPI".toList true] s ∧
      ∃ actions, s.log = session.log ++ actions ∧ handedTo 6 actions = ["PING x".toList] ∧
        (s.client 6).inputBuffer = "PI".toList := by
  have hfacts : session.fds[3]? = some 6 ∧ (session.findClient 6).isSome = true ∧
      (session.client 6).inputBuffer = [] ∧
      (session.receiveFromClient 3 (some "PING x\r".toList)).2 = true ∧
      (session.receiveFromClient 3 (some "PING x\r".toList)).1.fds[3]? = some 6 ∧
      ((session.receiveFromClient 3 (some "PING x\r".toList)).1.receiveFromClient 3
        (some "\nPI".toList)).2 = true ∧
      (((session.receiveFromClient 3 (some "PING x\r".toList)).1.receiveFromClient 3
        (some "\nPI".toList)).1.client 6).disconnectRequested = false := by
    decide +kernel
  have hr := session_reachable
  generalize session = s₀ at *
  obtain ⟨hindex, hfound, hempty, hok, hindex', hok', hflag⟩ := hfacts
  have hfirst : Listens 6 s₀ (.chunk "PING x\r".toList true)
      (s₀.receiveFromClient 3 (some "PING x\r".toList)).1 :=
    ⟨by decide, by decide, 3, hindex, Prod.ext rfl hok⟩
  generalize (s₀.receiveFromClient 3 (some "PING x\r".toList)).1 = s₁ at *
  have hsecond : Listens 6 s₁ (.chunk "\nPI".toList true)
      (s₁.receiveFromClient 3 (some "\nPI".toList)).1 :=
    ⟨by decide, by decide, 3, hindex', Prod.ext rfl hok'⟩
  have hrun := (Transition.Run.single hfirst).snoc hsecond
  obtain ⟨actions, hlog, hframes, -⟩ :=
    framing_independent hr ((live_iff s₀ 6).2 hfound) hempty hrun
  have hbytes : Framing.frames '\n' ("PING x\r".toList ++ "\nPI".toList) =
      (["PING x\r".toList], "PI".toList) := by decide
  obtain ⟨-, hhanded, hrest⟩ := hframes (by
    show Framing.Within '\n' maxPendingInput ("PING x\r".toList ++ ("\nPI".toList ++ []))
    unfold Framing.Within
    rw [List.append_nil, hbytes]
    decide) hflag
  exact ⟨_, hrun, actions, hlog, hhanded.trans (by decide), hrest.trans (by decide)⟩

/-! ## The event loop -/

theorem listens_of_away (h : Transition.Reachable (Away fd) s s') : Transition.Reachable (Listens fd) s s' :=
  h.simulate id fun _ e _ _ hs => Transition.Reachable.refl.step (e := .elsewhere e) hs

end Server

/-- **A turn of the loop is a run of arrivals** for every client it does not remove. -/
theorem Loop.Turn.listens {l l' : Loop} {k : Kernel} {fd : Fd} (ht : l.Turn k l') (hr : l.server.Reachable)
    (hfd : l.server.core.Live fd)
    (hbuffer : ∀ data, k.received = some data → data.length ≤ Server.receiveBuffer) :
    ∃ actions, l'.server.log = l.server.log ++ actions ∧
      (.removed fd ∉ actions → Transition.Reachable (Server.Listens fd) l.server l'.server) := by
  rcases ht.cases hr with ⟨p, data, ⟨i, -, -, hreads⟩, hrest⟩ | ⟨-, hrun⟩
  swap
  · obtain ⟨actions, hlog, haway⟩ := hrun.away hr hfd
    exact ⟨actions, hlog, fun hstays => Server.listens_of_away (haway hstays)⟩
  have hi := Server.getElem?_fds hreads.entry
  have hreceive := Server.receiveFromClient_eq hreads.entry hreads.found hreads.nonempty
  have hstate := Server.takes_receive hr hreads.live hi hreads.nonempty hreceive
  obtain ⟨frames, htakes⟩ := hstate.2.1
  obtain ⟨as, has, -⟩ := htakes.log
  have hfd₁ := ((hreads.lines hr).1.live fd).2 hfd
  obtain ⟨bs, hbs, haway⟩ := hrest.away hstate.1.1 hfd₁
  have hread : Transition.Reachable (Server.Listens fd) l.server (l.server.afterLines p data) := by
    by_cases hp : p.fd = fd
    · subst hp
      exact Transition.Reachable.refl.step (e := .chunk data _)
        ⟨List.length_pos_iff.2 hreads.nonempty, hbuffer data hreads.received, i, hi, hreceive⟩
    · exact Server.listens_of_away ((hreads.input hr).away hp)
  refine ⟨as ++ bs, ?_, fun hstays => hread.trans (Server.listens_of_away (haway fun hmem =>
    hstays (List.mem_append_right _ hmem)))⟩
  rw [hbs, show (l.server.afterLines p data).log = _ from has, List.append_assoc]
  rfl

end FtIrc
