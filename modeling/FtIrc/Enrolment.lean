import FtIrc.Voices
import FtIrc.Sources
import FtIrc.Descriptors

/-!
# How a connection registers

`PASS`, `USER` and `NICK` each change one thing of an identity and complete it; no other
command touches it (`IdentityMove`).  What they have changed since the connection was accepted
can be read off the history (`Server.Enrolled`), and so can whether the client is registered.
-/

namespace FtIrc

open Std

/-! ## Identities -/

namespace Identity

variable (id : Identity)

def isReady : Bool := id.passwordAccepted && !id.nickname.isEmpty && id.hasUser

/-- `tryCompleteRegistration`, on an identity. -/
def complete : Identity :=
  if !id.registered && id.isReady then { id with registered := true } else id

variable {id}

theorem complete_field {β : Type} {g : Identity → β}
    (hg : ∀ id : Identity, g { id with registered := true } = g id) : g id.complete = g id := by
  unfold complete
  split
  · exact hg id
  · rfl

theorem isReady_complete : id.complete.isReady = id.isReady := complete_field fun _ => rfl

/-- A completed identity is registered as soon as it can be. -/
theorem registered_complete (h : id.registered = true → id.isReady = true) :
    id.complete.registered = id.complete.isReady := by
  rw [isReady_complete]
  unfold complete
  cases hreg : id.registered with
  | true => simpa [hreg] using (h hreg).symm
  | false => cases hready : id.isReady <;> simp [hreg]

end Identity

theorem Core.who_complete {κ : Core} {A : Fd} (hlive : κ.Live A) :
    (κ.complete A).who A = (κ.who A).complete := by
  unfold Core.complete Identity.complete
  change (if (!(κ.who A).registered && (κ.who A).isReady) = true then _ else κ).who A = _
  split
  · exact Core.who_modify_self κ A hlive
  · rfl

namespace Command

/-- A PASS with this password. -/
def IsPass (password : Text) (command : Command) : Prop :=
  command.name = "PASS".toList ∧ command.parameters.head? = some password

/-- A USER with parameters enough to be accepted. -/
def IsUser (command : Command) : Prop :=
  command.name = "USER".toList ∧ 4 ≤ command.parameters.length

/-- A NICK for this nickname. -/
def IsNick (nickname : Text) (command : Command) : Prop :=
  command.name = "NICK".toList ∧ command.parameters.head? = some nickname

end Command

/-- What a command makes of the identity of its own client. -/
inductive IdentityMove (password : Text) (command : Command) (id : Identity) : Identity → Prop
  | same : IdentityMove password command id id
  | pass : command.name = "PASS".toList → id.registered = false →
      command.parameters.head? = some password →
      IdentityMove password command id ({ id with passwordAccepted := true } : Identity).complete
  | user (username mode unused realname : Text) (rest : List Text) :
      command.name = "USER".toList → id.registered = false →
      command.parameters = username :: mode :: unused :: realname :: rest →
      IdentityMove password command id ({ id with
        username := username, realname := realname, hasUser := true } : Identity).complete
  | nick (nickname : Text) (rest : List Text) : command.name = "NICK".toList →
      command.parameters = nickname :: rest → Server.isValidNickname nickname = true →
      id.nickname ≠ nickname →
      IdentityMove password command id ({ id with nickname := nickname } : Identity).complete

theorem Effect.identityMove {κ κ' : Core} {A : Fd} {command : Command} {signals : List Signal}
    (he : Effect κ A command κ' signals) (hlive : κ.Live A) :
    IdentityMove κ.password command (κ.who A) (κ'.who A) := by
  cases he with
  | pass hname hreg hpass =>
    rw [Core.acceptPassword, Core.who_complete ((κ.live_modify A).2 hlive),
      Core.who_modify_self κ A hlive]
    exact .pass hname hreg hpass
  | user username mode unused realname rest hname hreg hparams =>
    rw [Core.setUser, Core.who_complete ((κ.live_modify A).2 hlive),
      Core.who_modify_self κ A hlive]
    exact .user username mode unused realname rest hname hreg hparams
  | nick nickname rest _ hname hparams hvalid _ hne =>
    have hlive' : (κ.rename A nickname).Live A := by
      unfold Core.Live
      rw [Core.identities_rename]
      exact (κ.live_modify A).2 hlive
    rw [Core.who_complete hlive', Core.who_rename, Core.who_modify_self κ A hlive]
    exact .nick nickname rest hname hparams hvalid hne
  | kick =>
    unfold Core.dropMember
    split <;> exact .same
  | mode _ _ _ _ _ _ _ _ _ _ _ _ hrun =>
    unfold Core.who
    rw [hrun.channels.1]
    exact .same
  | _ => exact .same

namespace IdentityMove

variable {password : Text} {command : Command} {id id' : Identity}

/-- Registration is never taken back, and fixes the user. -/
theorem registered (h : IdentityMove password command id id') (hreg : id.registered = true) :
    id'.registered = true ∧ id'.username = id.username ∧ id'.realname = id.realname := by
  cases h with
  | same => exact ⟨hreg, rfl, rfl⟩
  | pass _ hunreg => rw [hreg] at hunreg; cases hunreg
  | user _ _ _ _ _ _ hunreg => rw [hreg] at hunreg; cases hunreg
  | nick nickname =>
    have hdone : ({ id with nickname := nickname } : Identity).complete =
        { id with nickname := nickname } := by
      unfold Identity.complete
      simp [hreg]
    rw [hdone]
    exact ⟨hreg, rfl, rfl⟩

theorem passwordAccepted (h : IdentityMove password command id id') :
    (id.passwordAccepted = true → id'.passwordAccepted = true) ∧
    (id'.passwordAccepted = true → id.passwordAccepted = true ∨ command.IsPass password) := by
  cases h with
  | same => exact ⟨fun h => h, Or.inl⟩
  | pass hname _ hhead =>
    rw [Identity.complete_field (g := Identity.passwordAccepted) fun _ => rfl]
    exact ⟨fun _ => rfl, fun _ => Or.inr ⟨hname, hhead⟩⟩
  | user =>
    rw [Identity.complete_field (g := Identity.passwordAccepted) fun _ => rfl]
    exact ⟨fun h => h, Or.inl⟩
  | nick =>
    rw [Identity.complete_field (g := Identity.passwordAccepted) fun _ => rfl]
    exact ⟨fun h => h, Or.inl⟩

theorem hasUser (h : IdentityMove password command id id') :
    (id.hasUser = true → id'.hasUser = true) ∧
    (id'.hasUser = true → id.hasUser = true ∨ command.IsUser) := by
  cases h with
  | same => exact ⟨fun h => h, Or.inl⟩
  | pass =>
    rw [Identity.complete_field (g := Identity.hasUser) fun _ => rfl]
    exact ⟨fun h => h, Or.inl⟩
  | user _ _ _ _ _ hname _ hparams =>
    rw [Identity.complete_field (g := Identity.hasUser) fun _ => rfl]
    exact ⟨fun _ => rfl, fun _ => Or.inr ⟨hname, by rw [hparams]; simp⟩⟩
  | nick =>
    rw [Identity.complete_field (g := Identity.hasUser) fun _ => rfl]
    exact ⟨fun h => h, Or.inl⟩

theorem nickname (h : IdentityMove password command id id') :
    id'.nickname = id.nickname ∨ command.IsNick id'.nickname := by
  cases h with
  | same => exact Or.inl rfl
  | pass => exact Or.inl (Identity.complete_field (g := Identity.nickname) fun _ => rfl)
  | user => exact Or.inl (Identity.complete_field (g := Identity.nickname) fun _ => rfl)
  | nick nickname rest hname hparams =>
    rw [Identity.complete_field (g := Identity.nickname) fun _ => rfl]
    exact Or.inr ⟨hname, by rw [hparams]; rfl⟩

theorem settled (h : IdentityMove password command id id') (hid : id.registered = id.isReady) :
    id'.registered = id'.isReady := by
  have hready (hreg : id.registered = true) : (id.passwordAccepted = true ∧ id.nickname ≠ []) ∧
      id.hasUser = true := by
    rw [hid] at hreg
    simpa [Identity.isReady] using hreg
  cases h with
  | same => exact hid
  | pass _ hunreg => exact Identity.registered_complete fun hreg => by rw [hunreg] at hreg; cases hreg
  | user _ _ _ _ _ _ hunreg =>
    exact Identity.registered_complete fun hreg => by rw [hunreg] at hreg; cases hreg
  | nick nickname _ _ _ hvalid =>
    refine Identity.registered_complete fun hreg => ?_
    have hne := Core.ne_nil_of_isValidNickname hvalid
    simp [Identity.isReady, hready hreg, hne]

end IdentityMove

/-- The greeting is queued by the command that registers the client, and is all that it queues. -/
theorem Effect.greeting {κ κ' : Core} {A : Fd} {command : Command} {signals : List Signal}
    (he : Effect κ A command κ' signals) (hlive : κ.Live A) (hunreg : (κ.who A).registered = false)
    (hreg : (κ'.who A).registered = true) :
    ∃ target text, signals =
      [.line A (.numeric "001".toList target (.text text)),
        .line A (.numeric "376".toList target (.text ":End of MOTD command".toList))] := by
  have hwelcome {κ₁ : Core} (hlive₁ : κ₁.Live A) (hunreg₁ : (κ₁.who A).registered = false)
      (hreg₁ : ((κ₁.complete A).who A).registered = true) : ∃ target text, κ₁.welcome A =
      [.line A (.numeric "001".toList target (.text text)),
        .line A (.numeric "376".toList target (.text ":End of MOTD command".toList))] := by
    unfold Core.welcome
    split
    · exact ⟨_, _, rfl⟩
    · next hc =>
      unfold Core.complete at hreg₁
      rw [if_neg hc, hunreg₁] at hreg₁
      cases hreg₁
  have hsame (h : κ'.who A = κ.who A) : False := by
    rw [h, hunreg] at hreg
    cases hreg
  cases he with
  | pass =>
    refine hwelcome ((κ.live_modify A).2 hlive) ?_ hreg
    rw [Core.acceptPassword, Core.who_modify_self κ A hlive]
    exact hunreg
  | user =>
    refine hwelcome ((κ.live_modify A).2 hlive) ?_ hreg
    rw [Core.setUser, Core.who_modify_self κ A hlive]
    exact hunreg
  | nick nickname _ recipients _ _ _ _ _ _ hmem =>
    have hnobody : recipients = [] := List.eq_nil_iff_forall_not_mem.2 fun m hm => by
      rw [hmem, hunreg] at hm
      cases hm.1
    rw [hnobody, toAll_nil, List.nil_append]
    refine hwelcome ?_ ?_ hreg
    · unfold Core.Live
      rw [Core.identities_rename]
      exact (κ.live_modify A).2 hlive
    · rw [Core.who_rename, Core.who_modify_self κ A hlive]
      exact hunreg
  | kick =>
    unfold Core.dropMember at hsame
    split at hsame <;> exact (hsame rfl).elim
  | mode _ _ _ _ _ _ _ _ _ _ _ _ hrun =>
    unfold Core.who at hsame
    rw [hrun.channels.1] at hsame
    exact (hsame rfl).elim
  | _ => exact (hsame rfl).elim

/-! ## What has been given since the connection was accepted -/

/-- Since the present connection on `fd` was accepted, a command with `P` was dispatched for it. -/
def Given (fd : Fd) (P : Command → Prop) (log : List Action) : Prop :=
  ∃ command, .dispatched fd command ∈ sinceAccepted fd log ∧ P command

/-- The lines among `actions` that `SendWelcome` queues to the client on `fd`. -/
def greetings (fd : Fd) (actions : List Action) : List Line :=
  (queuedTo fd actions).filter Line.isWelcome

def Line.code : Line → Text
  | .numeric code _ _ => code
  | _ => []

/-- The codes of the lines of one `SendWelcome`. -/
def welcomeCodes : List Text := ["001".toList, "376".toList]

theorem greetings_append (fd : Fd) (as bs : List Action) :
    greetings fd (as ++ bs) = greetings fd as ++ greetings fd bs := by
  unfold greetings
  rw [queuedTo_append, List.filter_append]

section Given

variable {fd : Fd} {log actions : List Action} {P : Command → Prop}

theorem given_append (hacc : .accepted fd ∉ actions) :
    Given fd P (log ++ actions) ↔
      Given fd P log ∨ ∃ command, .dispatched fd command ∈ actions ∧ P command := by
  unfold Given
  rw [sinceAccepted_append hacc]
  constructor
  · rintro ⟨command, hmem, hP⟩
    rcases List.mem_append.1 hmem with hmem | hmem
    · exact Or.inl ⟨command, hmem, hP⟩
    · exact Or.inr ⟨command, hmem, hP⟩
  · rintro (⟨command, hmem, hP⟩ | ⟨command, hmem, hP⟩)
    · exact ⟨command, List.mem_append_left _ hmem, hP⟩
    · exact ⟨command, List.mem_append_right _ hmem, hP⟩

theorem given_append_of_notMem (hacc : .accepted fd ∉ actions)
    (hdisp : ∀ command, .dispatched fd command ∉ actions) :
    Given fd P (log ++ actions) ↔ Given fd P log := by
  rw [given_append hacc]
  refine or_iff_left ?_
  rintro ⟨command, hmem, -⟩
  exact hdisp command hmem

theorem not_given_accepted : ¬ Given fd P (log ++ [.accepted fd]) := by
  rintro ⟨command, hmem, -⟩
  rw [sinceAccepted_accepted] at hmem
  cases hmem

end Given

/-! ## PASS and USER from the line -/

namespace Server

variable {s s' : Server} {e : Event} {A fd : Fd} {line : Text}

theorem Step.dispatched (hs : s.Step (.line A line) s') (hvalid : (Command.parse line).valid = true) :
    s' = ((s.record (.completeLine A line)).record
      (.dispatched A (Command.parse line))).dispatchCommand A (Command.parse line) := by
  unfold Step Server.step at hs
  dsimp only at hs
  split at hs
  · cases hs
    unfold handleCompleteLine
    simp [hvalid]
  · cases hs

theorem dispatchCommand_pass {command : Command} (hname : command.name = "PASS".toList) :
    s.dispatchCommand fd command = s.handlePass fd command := by
  unfold dispatchCommand
  simp [hname]

theorem dispatchCommand_user {command : Command} (hname : command.name = "USER".toList) :
    s.dispatchCommand fd command = s.handleUser fd command := by
  unfold dispatchCommand
  simp [hname]

/-- The right password is accepted, or has been. -/
theorem passwordAccepted_handlePass {command : Command} (hlive : s.core.Live fd)
    (hreg : (s.core.who fd).registered = true → (s.core.who fd).passwordAccepted = true)
    (hhead : command.parameters.head? = some s.password) :
    ((s.handlePass fd command).core.who fd).passwordAccepted = true := by
  unfold handlePass
  split
  · next h =>
    rw [core_sendNumeric]
    exact hreg (by simpa using h)
  split
  · next hnil => rw [hnil] at hhead; cases hhead
  next password rest hparams =>
  rw [hparams, List.head?_cons, Option.some.injEq] at hhead
  split
  · next hne => exact absurd hhead hne
  have hcore : (s.modifyClient fd (·.setPasswordAccepted)).core = s.core.acceptPassword fd :=
    core_modifyClient s fd fun _ => rfl
  rw [(tryCompleteRegistration_spec _ fd).1, hcore, Core.acceptPassword,
    Core.who_complete ((s.core.live_modify fd).2 hlive), Core.who_modify_self _ fd hlive]
  exact Identity.complete_field (g := Identity.passwordAccepted) fun _ => rfl

theorem hasUser_handleUser {command : Command} (hlive : s.core.Live fd)
    (hreg : (s.core.who fd).registered = true → (s.core.who fd).hasUser = true)
    (hlength : 4 ≤ command.parameters.length) :
    ((s.handleUser fd command).core.who fd).hasUser = true := by
  unfold handleUser
  split
  · next h =>
    rw [core_sendNumeric]
    exact hreg (by simpa using h)
  split
  · next username mode unused realname rest hparams =>
    have hcore : (s.modifyClient fd (·.setUser username realname)).core =
        s.core.setUser fd username realname := core_modifyClient s fd fun _ => rfl
    rw [(tryCompleteRegistration_spec _ fd).1, hcore, Core.setUser,
      Core.who_complete ((s.core.live_modify fd).2 hlive), Core.who_modify_self _ fd hlive]
    exact Identity.complete_field (g := Identity.hasUser) fun _ => rfl
  · next hshort =>
    rcases hparams : command.parameters with _ | ⟨username, _ | ⟨mode, _ | ⟨unused, _ | ⟨realname, rest⟩⟩⟩⟩
    · simp [hparams] at hlength
    · simp [hparams] at hlength
    · simp [hparams] at hlength
    · simp [hparams] at hlength
    · exact absurd hparams (hshort _ _ _ _ _)

/-! ## Every step -/

/-- What the history says of the client on `fd`. -/
structure Enrolled (s : Server) (fd : Fd) : Prop where
  password : (s.core.who fd).passwordAccepted = true ↔ Given fd (Command.IsPass s.password) s.log
  nickname : (s.core.who fd).nickname ≠ [] → Given fd (Command.IsNick (s.core.who fd).nickname) s.log
  user : (s.core.who fd).hasUser = true ↔ Given fd Command.IsUser s.log
  settled : (s.core.who fd).registered = (s.core.who fd).isReady
  greeted : (greetings fd (sinceAccepted fd s.log)).map Line.code =
    if (s.core.who fd).registered then welcomeCodes else []

/-- Entries that concern other clients. -/
theorem Enrolled.append (h : s.Enrolled fd) {actions : List Action}
    (hwho : s'.core.who fd = s.core.who fd) (hpassword : s'.password = s.password)
    (hlog : s'.log = s.log ++ actions) (hacc : .accepted fd ∉ actions)
    (hdisp : ∀ command, .dispatched fd command ∉ actions) (hgreet : greetings fd actions = []) :
    s'.Enrolled fd := by
  refine ⟨?_, ?_, ?_, ?_, ?_⟩
  · rw [hwho, hpassword, hlog, given_append_of_notMem hacc hdisp]
    exact h.password
  · rw [hwho, hlog, given_append_of_notMem hacc hdisp]
    exact h.nickname
  · rw [hwho, hlog, given_append_of_notMem hacc hdisp]
    exact h.user
  · rw [hwho]
    exact h.settled
  · rw [hwho, hlog, sinceAccepted_append hacc, greetings_append, hgreet, List.append_nil]
    exact h.greeted

theorem Enrolled.connected (hwho : s.core.who fd = {}) {log : List Action}
    (hlog : s.log = log ++ [.accepted fd]) : s.Enrolled fd := by
  refine ⟨?_, ?_, ?_, ?_, ?_⟩
  · rw [hwho, hlog]
    exact iff_of_false Bool.false_ne_true not_given_accepted
  · rw [hwho]
    exact fun h => absurd rfl h
  · rw [hwho, hlog]
    exact iff_of_false Bool.false_ne_true not_given_accepted
  · rw [hwho]
    rfl
  · rw [hwho, hlog, sinceAccepted_accepted]
    rfl

theorem greetings_quiet {actions : List Action} (h : ∀ a ∈ actions, a.isQuiet = true) :
    greetings fd actions = [] := by
  have hnone : queuedTo fd actions = [] := List.eq_nil_iff_forall_not_mem.2 fun line hline => by
    obtain ⟨accepted, hmem⟩ := mem_queuedTo.1 hline
    cases h _ hmem
  unfold greetings
  rw [hnone, List.filter_nil]

/-- A QUIT line greets nobody. -/
theorem greetings_quits {p : Fd} {recipients : List Fd} {actions : List Action}
    (hqueued : queuedTo fd actions = linesFor fd (toAll recipients (s.quitLine p))) :
    FtIrc.greetings fd (actions ++ [.removed p]) = [] := by
  refine List.filter_eq_nil_iff.2 fun line hline => ?_
  rw [queuedTo_append, hqueued] at hline
  rcases List.mem_append.1 hline with hline | hline
  · obtain ⟨m, -, heq⟩ := List.mem_map.1 (mem_linesFor.1 hline)
    cases heq
    exact Bool.false_ne_true
  · cases hline

/-- **What a line of the client on `A` greets**: the client itself, if it registers it. -/
theorem Reachable.greetings (hr : Reachable s) (hs : s.Step (.line A line) s') :
    ∃ actions, s'.log = s.log ++ actions ∧ ∀ m, (FtIrc.greetings m actions).map Line.code =
      if m = A ∧ (s.core.who A).registered = false ∧ (s'.core.who A).registered = true then
        welcomeCodes else [] := by
  obtain ⟨actions, hlog, hsaid⟩ := hr.voiced hs
  refine ⟨actions, hlog, fun m => ?_⟩
  -- nothing greets unless the client on `A` registers
  have hnone (hnot : ¬ ((s.core.who A).registered = false ∧ (s'.core.who A).registered = true)) (m : Fd) :
      FtIrc.greetings m actions = [] := by
    refine List.filter_eq_nil_iff.2 fun l hl hwelcome => hnot ?_
    obtain ⟨accepted, hmem⟩ := mem_queuedTo.1 hl
    exact (hsaid m l accepted hmem).2.welcome hwelcome
  by_cases hgain : (s.core.who A).registered = false ∧ (s'.core.who A).registered = true
  swap
  · rw [hnone hgain, if_neg fun h => hgain h.2]
    rfl
  obtain ⟨hlive, ⟨-, hcore, -⟩ | ⟨hvalid, signals, heffect, hqueued⟩⟩ := hr.queued hs
  · rw [hcore, hgain.1] at hgain
    cases hgain.2
  obtain ⟨target, text, rfl⟩ := heffect.greeting hlive hgain.1 hgain.2
  obtain ⟨as, has, hlines⟩ := (hqueued m (by simp)).log
  rw [has, List.append_cancel_left_eq] at hlog
  subst hlog
  unfold FtIrc.greetings
  rw [hlines]
  by_cases hm : m = A
  · subst hm
    rw [if_pos ⟨rfl, hgain⟩]
    simp [linesFor, Line.isWelcome, Line.code, welcomeCodes]
  · rw [if_neg fun h => hm h.1]
    simp [linesFor, Ne.symm hm]

theorem Enrolled.disconnect (h : s.Enrolled fd) {p : PollFd} {recipients : List Fd}
    {pollFds : List PollFd} (hne : p.fd ≠ fd) (hcore : s'.core = s.core.disconnect p.fd)
    (hwire : s'.wire = (s.wire.deliver (toAll recipients (s.quitLine p.fd))).disconnect p.fd pollFds) :
    s'.Enrolled fd := by
  obtain ⟨actions, hlog, hdelivery⟩ := s.wire.log_deliver (toAll recipients (s.quitLine p.fd))
  obtain ⟨actions', hlog', hqueued⟩ := s.wire.log_deliver_queued (toAll recipients (s.quitLine p.fd))
  rw [hlog, List.append_cancel_left_eq] at hlog'
  subst hlog'
  have hwho : s'.core.who fd = s.core.who fd := by
    rw [hcore, Core.who_disconnect, if_neg hne]
  refine h.append hwho (congrArg Core.password hcore) (log_removed hwire hlog) ?_ ?_ ?_
  · intro hmem
    rcases List.mem_append.1 hmem with hmem | hmem
    · cases hdelivery _ hmem
    · cases List.mem_singleton.1 hmem
  · intro command hmem
    rcases List.mem_append.1 hmem with hmem | hmem
    · cases hdelivery _ hmem
    · cases List.mem_singleton.1 hmem
  · exact greetings_quits (hqueued fd)

/-- A command of the client on `A`. -/
theorem Reachable.enrolled_command (hr : Reachable s) (ih : ∀ x, s.core.Live x → s.Enrolled x)
    {signals : List Signal} (hs : s.Step (.line A line) s') (hA : s.core.Live A)
    (hvalid : (Command.parse line).valid = true)
    (heffect : Effect s.core A (Command.parse line) s'.core signals)
    (hwire : s'.wire = ((s.wire.record (.completeLine A line)).record
      (.dispatched A (Command.parse line))).deliver signals) (hfd : s.core.Live fd) :
    s'.Enrolled fd := by
  obtain ⟨actions, hlog, hdelivery⟩ := Wire.log_deliver
    ((s.wire.record (.completeLine A line)).record (.dispatched A (Command.parse line))) signals
  have hlog' := log_handled hwire hlog
  generalize hall : [.completeLine A line, .dispatched A (Command.parse line)] ++ actions = all at hlog'
  have hacc : .accepted fd ∉ all := by
    rw [← hall]
    intro hmem
    rcases List.mem_append.1 hmem with hmem | hmem
    · simp at hmem
    · cases hdelivery _ hmem
  have hdisp {x : Fd} {command : Command} (hmem : .dispatched x command ∈ all) :
      x = A ∧ command = Command.parse line := by
    rw [← hall] at hmem
    rcases List.mem_append.1 hmem with hmem | hmem
    · simpa using hmem
    · cases hdelivery _ hmem
  have hpassword : s'.password = s.password := heffect.fixed.2
  obtain ⟨more, hmore, hgreet⟩ := hr.greetings hs
  rw [hlog', List.append_cancel_left_eq] at hmore
  subst hmore
  have h := ih fd hfd
  by_cases hne : fd = A
  swap
  · refine h.append (heffect.who_of_ne (Ne.symm hne)) hpassword hlog' hacc
      (fun command hmem => hne (hdisp hmem).1) ?_
    have := hgreet fd
    rwa [if_neg fun hc => hne hc.1, List.map_eq_nil_iff] at this
  subst hne
  have hgiven {P : Command → Prop} :
      Given fd P s'.log ↔ Given fd P s.log ∨ P (Command.parse line) := by
    rw [hlog', given_append hacc]
    refine or_congr_right ⟨?_, fun hP => ⟨_, by rw [← hall]; simp, hP⟩⟩
    rintro ⟨command, hmem, hP⟩
    rwa [← (hdisp hmem).2]
  have hmove := heffect.identityMove hA
  have hready (hreg : (s.core.who fd).registered = true) := (hr.ok.identity fd).registered hreg
  have hs' := hs.dispatched hvalid
  refine ⟨?_, ?_, ?_, hmove.settled h.settled, ?_⟩
  · rw [hgiven, hpassword, ← h.password]
    constructor
    · exact hmove.passwordAccepted.2
    · rintro (hold | ⟨hname, hhead⟩)
      · exact hmove.passwordAccepted.1 hold
      · rw [hs', dispatchCommand_pass hname]
        exact passwordAccepted_handlePass hA (fun hreg => (hready hreg).1) hhead
  · intro hne
    rw [hgiven]
    rcases hmove.nickname with hkept | hnick
    · rw [hkept] at hne ⊢
      exact Or.inl (h.nickname hne)
    · exact Or.inr hnick
  · rw [hgiven, ← h.user]
    constructor
    · exact hmove.hasUser.2
    · rintro (hold | ⟨hname, hlength⟩)
      · exact hmove.hasUser.1 hold
      · rw [hs', dispatchCommand_user hname]
        exact hasUser_handleUser hA (fun hreg => (hready hreg).2.2) hlength
  · rw [hlog', sinceAccepted_append hacc, greetings_append, List.map_append, h.greeted, hgreet]
    cases hreg : (s.core.who fd).registered with
    | true => simp [(hmove.registered hreg).1]
    | false => cases (s'.core.who fd).registered <;> simp

theorem Reachable.enrolled_step (hr : Reachable s) (ih : ∀ x, s.core.Live x → s.Enrolled x)
    (hs : s.Step e s') (hfd : s'.core.Live fd) : s'.Enrolled fd := by
  cases hr.move hs with
  | quiet hcore hquiet =>
    rw [hcore] at hfd
    obtain ⟨actions, hlog, hq⟩ := hquiet.log
    have hno {a : Action} (ha : a.isQuiet = false) : a ∉ actions := fun hmem => by
      rw [hq a hmem] at ha
      cases ha
    exact (ih fd hfd).append (by rw [hcore]) (congrArg Core.password hcore) hlog (hno rfl)
      (fun _ => hno rfl) (greetings_quiet hq)
  | @connect x _ hnew hcore hwire =>
    have hlog : s'.log = s.log ++ [.accepted x] := congrArg Wire.log hwire
    by_cases hx : x = fd
    · subst hx
      refine .connected ?_ hlog
      rw [hcore]
      simp [Core.who, Core.connect]
    · rw [hcore, Core.live_connect] at hfd
      refine (ih fd (hfd.resolve_left hx)).append ?_
        (congrArg Core.password hcore) hlog ?_ ?_ rfl
      · rw [hcore, Core.who_connect hnew]
      · simpa using Ne.symm hx
      · simp
  | command signals hA hvalid heffect hwire =>
    rw [heffect.live] at hfd
    exact hr.enrolled_command ih hs hA hvalid heffect hwire hfd
  | @disconnect _ p _ recipients pollFds _ _ hcore _ hwire =>
    rw [hcore, Core.live_disconnect] at hfd
    exact (ih fd hfd.2).disconnect hfd.1 hcore hwire

theorem Reachable.enrolled (h : Reachable s) (hfd : s.core.Live fd) : s.Enrolled fd := by
  refine h.invariant (I := fun s => ∀ x, s.core.Live x → s.Enrolled x) ?_ ?_ fd hfd
  · intro listenerFd password x hx
    cases hx
  · exact fun s e s' hr ih hs x hx => hr.enrolled_step ih hs hx

/-- A step that handles no line greets nobody, and registers nobody. -/
theorem Reachable.greetings_step (hr : Reachable s) (hs : s.Step e s') :
    ∃ actions, s'.log = s.log ++ actions ∧ ∀ m, (FtIrc.greetings m actions).map Line.code =
      if (s.core.who m).registered = false ∧ (s'.core.who m).registered = true then
        welcomeCodes else [] := by
  have hsame {m : Fd} (h : s'.core.who m = s.core.who m) :
      ¬ ((s.core.who m).registered = false ∧ (s'.core.who m).registered = true) := by
    rintro ⟨hunreg, hreg⟩
    rw [h, hunreg] at hreg
    cases hreg
  cases hr.move hs with
  | quiet hcore hquiet =>
    obtain ⟨actions, hlog, hq⟩ := hquiet.log
    refine ⟨actions, hlog, fun m => ?_⟩
    rw [greetings_quiet hq, if_neg (hsame (by rw [hcore]))]
    rfl
  | @connect x _ hnew hcore hwire =>
    refine ⟨[.accepted x], congrArg Wire.log hwire, fun m => ?_⟩
    rw [if_neg (hsame (by rw [hcore, Core.who_connect hnew]))]
    rfl
  | @command A line _ signals hA hvalid heffect hwire =>
    obtain ⟨actions, hlog, hgreet⟩ := hr.greetings hs
    refine ⟨actions, hlog, fun m => (hgreet m).trans ?_⟩
    by_cases hm : m = A
    · subst hm
      simp
    · rw [if_neg fun h => hm h.1, if_neg (hsame (heffect.who_of_ne (Ne.symm hm)))]
  | @disconnect _ p _ recipients pollFds _ _ hcore _ hwire =>
    obtain ⟨actions, hlog, hqueued⟩ :=
      s.wire.log_deliver_queued (toAll recipients (s.quitLine p.fd))
    refine ⟨_, log_removed hwire hlog, fun m => ?_⟩
    · have hnone : FtIrc.greetings m (actions ++ [.removed p.fd]) = [] :=
        greetings_quits (hqueued m)
      rw [hnone, if_neg]
      · rfl
      · rintro ⟨hunreg, hreg⟩
        rw [hcore, Core.who_disconnect] at hreg
        split at hreg
        · cases hreg
        · rw [hunreg] at hreg
          cases hreg

/-- A step keeps a client that stays connected registered, and its user. -/
theorem Reachable.registered_step (hr : Reachable s) (hs : s.Step e s') (hlive : s'.core.Live fd)
    (hreg : (s.core.who fd).registered = true) :
    (s'.core.who fd).registered = true ∧ (s'.core.who fd).username = (s.core.who fd).username ∧
      (s'.core.who fd).realname = (s.core.who fd).realname := by
  have hsame (h : s'.core.who fd = s.core.who fd) : (s'.core.who fd).registered = true ∧
      (s'.core.who fd).username = (s.core.who fd).username ∧
      (s'.core.who fd).realname = (s.core.who fd).realname := by
    rw [h]
    exact ⟨hreg, rfl, rfl⟩
  cases hr.move hs with
  | quiet hcore => exact hsame (by rw [hcore])
  | connect hnew hcore => exact hsame (by rw [hcore, Core.who_connect hnew])
  | @command A _ _ _ hA _ heffect =>
    by_cases hfd : A = fd
    · subst hfd
      exact (heffect.identityMove hA).registered hreg
    · exact hsame (heffect.who_of_ne hfd)
  | disconnect _ _ _ _ hcore =>
    rw [hcore, Core.live_disconnect] at hlive
    exact hsame (by rw [hcore, Core.who_disconnect, if_neg hlive.1])

theorem Reachable.stays_registered (hr : Reachable s) {es : List Event}
    (hrun : Transition.Run (Transition.Within Step fun t => (t.findClient fd).isSome = true) s es s')
    (hreg : (s.core.who fd).registered = true) :
    (s'.core.who fd).registered = true ∧ (s'.core.who fd).username = (s.core.who fd).username ∧
      (s'.core.who fd).realname = (s.core.who fd).realname := by
  suffices h : Reachable s' ∧ (s'.core.who fd).registered = true ∧
      (s'.core.who fd).username = (s.core.who fd).username ∧
      (s'.core.who fd).realname = (s.core.who fd).realname from h.2
  induction hrun with
  | nil => exact ⟨hr, hreg, rfl, rfl⟩
  | snoc _ hs ih =>
    obtain ⟨hr₁, hreg₁, hu₁, hn₁⟩ := ih
    obtain ⟨hreg₂, hu₂, hn₂⟩ := hr₁.registered_step hs.1 ((live_iff _ _).2 hs.2.2) hreg₁
    exact ⟨hr₁.step hs.1, hreg₂, hu₂.trans hu₁, hn₂.trans hn₁⟩

/-- **Registration.**  A client is registered exactly when, since it was accepted, it has given
the password and a user and holds a nickname that a NICK gave it; it is greeted once, by the step
that registers it; and from then on it stays registered, with the user it had. -/
theorem registration_machine (h : Reachable s) :
    (∀ (fd : Fd) (client : Client), s.clients[fd]? = some client →
      (client.registered = true ↔ Given fd (Command.IsPass s.password) s.log ∧
        client.nickname ≠ [] ∧ Given fd Command.IsUser s.log) ∧
      (client.passwordAccepted = true ↔ Given fd (Command.IsPass s.password) s.log) ∧
      (client.nickname ≠ [] → isValidNickname client.nickname = true ∧
        Given fd (Command.IsNick client.nickname) s.log) ∧
      (client.hasUser = true ↔ Given fd Command.IsUser s.log) ∧
      (FtIrc.greetings fd (sinceAccepted fd s.log)).map Line.code =
        if client.registered then welcomeCodes else []) ∧
    (∀ (e : Event) (s' : Server), s.Step e s' → ∃ actions, s'.log = s.log ++ actions ∧
      ∀ fd, (FtIrc.greetings fd actions).map Line.code =
        if (s.client fd).registered = false ∧ (s'.client fd).registered = true then
          welcomeCodes else []) ∧
    (∀ (fd : Fd) (es : List Event) (s' : Server),
      Transition.Run (Transition.Within Step fun t => (t.findClient fd).isSome = true) s es s' →
      (s.client fd).registered = true → (s'.client fd).registered = true ∧
        (s'.client fd).username = (s.client fd).username ∧
        (s'.client fd).realname = (s.client fd).realname) := by
  refine ⟨?_, ?_, ?_⟩
  · intro fd client hc
    have hwho := who_of_client hc
    have he := h.enrolled (live_iff_mem.2 (ExtTreeMap.mem_iff_isSome_getElem?.2 (by rw [hc]; rfl)))
    have hvalid := (h.ok.identity fd).nickname
    obtain ⟨hpassword, hnickname, huser, hsettled, hgreeted⟩ := he
    rw [hwho] at hpassword hnickname huser hsettled hgreeted hvalid
    refine ⟨?_, hpassword, fun hne => ⟨hvalid hne, hnickname hne⟩, huser, hgreeted⟩
    rw [← hpassword, ← huser, show client.registered = client.identity.isReady from hsettled]
    simp [Identity.isReady, Client.identity, and_assoc]
  · intro e s' hs
    obtain ⟨actions, hlog, hgreet⟩ := h.greetings_step hs
    refine ⟨actions, hlog, fun fd => ?_⟩
    rw [client_registered, client_registered]
    exact hgreet fd
  · intro fd es s' hrun hreg
    have hfield (t : Server) := t.identity_client fd
    rw [client_registered] at hreg
    obtain ⟨h1, h2, h3⟩ := h.stays_registered hrun hreg
    rw [← hfield, ← hfield] at h2 h3
    rw [client_registered]
    exact ⟨h1, h2, h3⟩

/-- `al`, on 5, has given its nickname first and its password last. -/
theorem registration_machine_session :
    ∃ client, session.clients[5]? = some client ∧ client.registered = true ∧
      Given 5 (Command.IsPass session.password) session.log := by
  have hc : (session.clients[5]?).any (·.registered) = true := by decide +kernel
  obtain ⟨client, hc, hreg⟩ := (Option.any_eq_true _ _).1 hc
  exact ⟨client, hc, hreg,
    (((registration_machine session_reachable).1 5 client hc).1.1 hreg).1⟩

end Server

end FtIrc
