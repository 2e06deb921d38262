import FtIrc.Admission

/-!
# Who may change a channel

A line changes the modes, the operators or the members of a channel, deletes it or
invites to it only if its client is an operator there, and an operator has either created
the channel or been made one by an operator.
-/

namespace FtIrc

open Std

/-! ## Operator flags -/

theorem isMemberOperator_insert (c : Channel) (a m : Fd) (flag : Bool) :
    Channel.isMemberOperator { c with members := c.members.insert a flag } m =
      if a = m then flag else c.isMemberOperator m := by
  unfold Channel.isMemberOperator
  dsimp only
  rw [ExtTreeMap.getElem?_insert]
  simp only [Std.compare_eq_iff_eq]
  split <;> rfl

theorem isMemberOperator_erase (c : Channel) (a m : Fd) :
    Channel.isMemberOperator { c with members := c.members.erase a } m =
      if a = m then false else c.isMemberOperator m := by
  unfold Channel.isMemberOperator
  dsimp only
  rw [ExtTreeMap.getElem?_erase]
  simp only [Std.compare_eq_iff_eq]
  split <;> rfl

theorem isMemberOperator_joined {c : Channel} {fd : Fd} (nickname : Text)
    (h : c.hasMember fd = false) (m : Fd) :
    ((c.addMember fd false).removeInvite nickname).isMemberOperator m = c.isMemberOperator m := by
  rw [Channel.addMember_eq h]
  refine (isMemberOperator_insert c fd m false).trans ?_
  split
  · next he =>
    subst he
    cases hop : c.isMemberOperator fd with
    | false => rfl
    | true => rw [Server.isMemberOperator_hasMember hop] at h; cases h
  · rfl

theorem isMemberOperator_renameInvite (old nickname : Text) (c : Channel) (m : Fd) :
    (Server.renameInvite old nickname c).isMemberOperator m = c.isMemberOperator m := by
  rw [Core.renameInvite_kept]
  rfl

/-- A change of MODE that gives `m` the operator flag names `m`. -/
def ModeChange.Promotes (κ : Core) (change : ModeChange) (m : Fd) : Prop :=
  change.mode = 'o' ∧ change.adding = true ∧ κ.holder change.argument = some m

theorem ModeApplied.promotes {κ : Core} {change : ModeChange} {c c' : Channel} {m : Fd}
    (h : ModeApplied κ change c c') (hm : c.isMemberOperator m = false)
    (hm' : c'.isMemberOperator m = true) : change.Promotes κ m := by
  cases h with
  | setOperator target hmode hholder hmem =>
    have hset : c.setMemberOperator target change.adding =
        { c with members := c.members.insert target change.adding } := if_pos hmem
    rw [hset, isMemberOperator_insert] at hm'
    split at hm'
    · next he => exact ⟨hmode, hm', he ▸ hholder⟩
    · rw [hm] at hm'
      cases hm'
  | _ =>
    have h := hm.symm.trans hm'
    cases h

theorem ModeChain.promotes {κ : Core} {changes : List ModeChange} {c c' : Channel} {m : Fd}
    (h : ModeChain κ changes c c') (hm : c.isMemberOperator m = false)
    (hm' : c'.isMemberOperator m = true) : ∃ change ∈ changes, change.Promotes κ m := by
  induction h with
  | refl => rw [hm] at hm'; cases hm'
  | @tail c₁ _ _ hstep ih =>
    obtain ⟨change, hmem, happ⟩ := hstep
    cases hc₁ : c₁.isMemberOperator m with
    | true => exact ih hc₁
    | false => exact ⟨change, hmem, happ.promotes hc₁ hm'⟩

/-! ## Changes to a channel that exists -/

/-- A change that only an operator may make: the modes, an operator flag, another client's
membership, an invitation for another nickname than `nickname`, or the channel itself. -/
inductive Privileged (A : Fd) (nickname : Text) (c : Channel) : Option Channel → Prop
  | gone : Privileged A nickname c none
  | modes (c' : Channel) :
      ¬ (c'.inviteOnly = c.inviteOnly ∧ c'.topicRestricted = c.topicRestricted ∧
        c'.hasKey = c.hasKey ∧ c'.key = c.key ∧
        c'.hasUserLimit = c.hasUserLimit ∧ c'.userLimit = c.userLimit) →
      Privileged A nickname c (some c')
  | role (c' : Channel) (m : Fd) : m ∈ c.members → m ∈ c'.members →
      c'.isMemberOperator m ≠ c.isMemberOperator m → Privileged A nickname c (some c')
  | removal (c' : Channel) (m : Fd) : m ≠ A → m ∈ c.members → m ∉ c'.members →
      Privileged A nickname c (some c')
  | invitation (c' : Channel) (n : Text) : n ∉ c.invitedUsers → n ∈ c'.invitedUsers →
      n ≠ ircCaseFold nickname → Privileged A nickname c (some c')

/-- What is left alone by a change that takes no privilege. -/
theorem not_privileged {A : Fd} {nickname : Text} {c c' : Channel}
    (hmodes : c'.inviteOnly = c.inviteOnly ∧ c'.topicRestricted = c.topicRestricted ∧
      c'.hasKey = c.hasKey ∧ c'.key = c.key ∧
      c'.hasUserLimit = c.hasUserLimit ∧ c'.userLimit = c.userLimit)
    (hrole : ∀ m, c'.isMemberOperator m = c.isMemberOperator m)
    (hmem : ∀ m ∈ c.members, m ∈ c'.members)
    (hinv : ∀ n ∈ c'.invitedUsers, n ∈ c.invitedUsers ∨ n = ircCaseFold nickname) :
    ¬ Privileged A nickname c (some c') := by
  intro h
  cases h with
  | modes _ hne => exact hne hmodes
  | role _ m _ _ hne => exact hne (hrole m)
  | removal _ m _ hm hm' => exact hm' (hmem m hm)
  | invitation _ n hn hn' hne => exact (hinv n hn').elim hn hne

theorem mem_invitedUsers_renameInvite {old nickname n : Text} {c : Channel}
    (h : n ∈ (Server.renameInvite old nickname c).invitedUsers) :
    n ∈ c.invitedUsers ∨ n = ircCaseFold nickname := by
  unfold Server.renameInvite at h
  split at h
  · unfold Channel.addInvite Channel.removeInvite at h
    dsimp only at h
    rw [ExtTreeSet.mem_insert, Std.compare_eq_iff_eq] at h
    rcases h with h | h
    · exact Or.inr h.symm
    · exact Or.inl (ExtTreeSet.mem_of_mem_erase h)
  · exact Or.inl h

/-- The command is `name` and its first parameter names the channel under `key`. -/
def Command.Names (command : Command) (name key : Text) : Prop :=
  command.name = name ∧ ∃ target rest, command.parameters = target :: rest ∧
    ircCaseFold target = key

namespace ChannelMove

variable {κ κ' : Core} {A : Fd} {command : Command} {key : Text} {x y : Option Channel}
  {c c' : Channel}

theorem operator (h : ChannelMove κ κ' A command key x y) (hx : x = some c)
    (hpriv : Privileged A (κ'.who A).nickname c y) : c.isMemberOperator A = true := by
  cases h with
  | same =>
    subst hx
    exact absurd hpriv (not_privileged ⟨rfl, rfl, rfl, rfl, rfl, rfl⟩ (fun _ => rfl)
      (fun _ hm => hm) fun _ hn => Or.inl hn)
  | rename _ nickname _ _ _ _ hnick =>
    cases hx
    rw [hnick] at hpriv
    have hkept := Core.renameInvite_kept (κ.who A).nickname nickname c
    exact absurd hpriv (not_privileged (by rw [hkept]; exact ⟨rfl, rfl, rfl, rfl, rfl, rfl⟩)
      (isMemberOperator_renameInvite _ _ c) (fun _ hm => mem_renameInvite.2 hm)
      fun _ hn => mem_invitedUsers_renameInvite hn)
  | create => cases hx
  | join _ _ _ _ _ _ _ hmem =>
    cases hx
    refine absurd hpriv (not_privileged ?_ (isMemberOperator_joined _ hmem)
      (fun m hm => ((Server.joined_spec _ hmem).2.2.2 m).2 (Or.inr hm)) ?_)
    · rw [Channel.addMember_eq hmem]
      exact ⟨rfl, rfl, rfl, rfl, rfl, rfl⟩
    · intro n hn
      rw [Channel.addMember_eq hmem] at hn
      exact Or.inl (ExtTreeSet.mem_of_mem_erase hn)
  | topic =>
    cases hx
    exact absurd hpriv (not_privileged ⟨rfl, rfl, rfl, rfl, rfl, rfl⟩ (fun _ => rfl)
      (fun _ hm => hm) fun _ hn => Or.inl hn)
  | kick _ _ _ _ _ _ _ _ hop => cases hx; exact hop
  | invite _ _ _ _ _ _ _ _ hop => cases hx; exact hop
  | mode _ _ _ _ _ _ _ _ hop => cases hx; exact hop

theorem topic_changed (h : ChannelMove κ κ' A command key x y) (hx : x = some c)
    (hy : y = some c') (hne : c'.topic ≠ c.topic) :
    c.isMemberOperator A = true ∨
      A ∈ c.members ∧ (c.topicRestricted = true → c.isMemberOperator A = true) := by
  cases h with
  | same => rw [hx] at hy; cases hy; exact absurd rfl hne
  | rename => cases hx; cases hy; rw [Core.renameInvite_kept] at hne; exact absurd rfl hne
  | create => cases hx
  | join _ _ _ _ _ _ _ hmem =>
    cases hx; cases hy
    rw [Channel.addMember_eq hmem] at hne
    exact absurd rfl hne
  | topic _ _ _ _ _ _ _ hmem hop =>
    cases hx
    exact Or.inr ⟨(Server.hasMember_iff c A).1 hmem, hop⟩
  | kick _ _ _ _ _ _ _ _ hop => cases hx; exact Or.inl hop
  | invite _ _ _ _ _ _ _ _ hop => cases hx; exact Or.inl hop
  | mode _ _ _ _ _ _ _ _ hop => cases hx; exact Or.inl hop

/-- A client loses its membership to a KICK that names the channel. -/
theorem removed (h : ChannelMove κ κ' A command key x y) (hx : x = some c) {m : Fd}
    (hm : m ∈ c.members) (hm' : ∀ c', y = some c' → m ∉ c'.members) :
    command.Names "KICK".toList key := by
  cases h with
  | same => exact absurd hm (hm' c hx)
  | rename => cases hx; exact absurd (mem_renameInvite.2 hm) (hm' _ rfl)
  | create => cases hx
  | join _ _ _ _ _ _ _ hmem =>
    cases hx
    exact absurd (((Server.joined_spec _ hmem).2.2.2 m).2 (Or.inr hm)) (hm' _ rfl)
  | topic => cases hx; exact (hm' _ rfl hm).elim
  | kick channelName targetNick rest _ _ hname hparams hkey =>
    exact ⟨hname, channelName, targetNick :: rest, hparams, hkey⟩
  | invite => cases hx; exact (hm' _ rfl hm).elim
  | mode _ _ _ _ _ _ _ _ _ _ hchain =>
    cases hx
    exact absurd ((hchain.mem_members m).2 hm) (hm' _ rfl)

/-- Of a client that stays, the operator flag is changed by a MODE that names the channel. -/
theorem role_changed (h : ChannelMove κ κ' A command key x y) (hx : x = some c)
    (hy : y = some c') {m : Fd} (hm' : m ∈ c'.members)
    (hne : c'.isMemberOperator m ≠ c.isMemberOperator m) : command.Names "MODE".toList key := by
  cases h with
  | same => rw [hx] at hy; cases hy; exact absurd rfl hne
  | rename => cases hx; cases hy; exact absurd (isMemberOperator_renameInvite _ _ c m) hne
  | create => cases hx
  | join _ _ _ _ _ _ _ hmem =>
    cases hx; cases hy
    exact absurd (isMemberOperator_joined _ hmem m) hne
  | topic => cases hx; cases hy; exact absurd rfl hne
  | kick _ _ _ _ target =>
    cases hx
    rw [mem_of_kept hy] at hm' hne
    refine absurd ((isMemberOperator_erase c target m).trans ?_) hne
    rw [if_neg (Core.mem_removeMember.1 hm').1]
  | invite => cases hx; cases hy; exact absurd rfl hne
  | mode target rest _ _ _ hname hparams hkey => exact ⟨hname, target, rest, hparams, hkey⟩

end ChannelMove

/-! ## Becoming an operator -/

namespace Server

def OperatorOf (fd : Fd) (key : Text) (s : Server) : Prop :=
  ∃ c, s.channels[key]? = some c ∧ c.isMemberOperator fd = true

/-- The lines that make the client on `fd` an operator of the channel under `key`: the
JOIN that creates the channel, and a MODE with `+o` for `fd` from an operator. -/
inductive Grants (s : Server) (fd : Fd) (key : Text) : Event → Prop
  | create (line channelName : Text) (rest : List Text) :
      Command.parse line = ⟨true, "JOIN".toList, channelName :: rest⟩ →
      ircCaseFold channelName = key → s.channels[key]? = none → Grants s fd key (.line fd line)
  | mode (A : Fd) (line target : Text) (rest : List Text) (changes : List ModeChange)
      (change : ModeChange) :
      Command.parse line = ⟨true, "MODE".toList, target :: rest⟩ → ircCaseFold target = key →
      OperatorOf A key s → parseChannelModeChanges (target :: rest) = some changes →
      change ∈ changes → change.mode = 'o' → change.adding = true →
      s.findClientByNickname change.argument = some fd → Grants s fd key (.line A line)

variable {s s' : Server} {fd : Fd} {key : Text} {e : Event}

theorem grants_of_channelMove {A : Fd} {line : Text} {κ' : Core} {x y : Option Channel}
    {c' : Channel} (hvalid : (Command.parse line).valid = true)
    (h : ChannelMove s.core κ' A (Command.parse line) key x y) (hx : s.channels[key]? = x)
    (hy : y = some c') (hnot : ∀ c, x = some c → c.isMemberOperator fd = false)
    (hop : c'.isMemberOperator fd = true) : Grants s fd key (.line A line) := by
  have absurd' {c : Channel} {P : Prop} (hc : x = some c) (h : c.isMemberOperator fd = true) : P := by
    rw [hnot c hc] at h
    cases h
  cases h with
  | same => exact absurd' hy hop
  | rename =>
    cases hy
    rw [isMemberOperator_renameInvite] at hop
    exact absurd' rfl hop
  | create channelName rest hname hparams hkey =>
    cases hy
    have hfd : A = fd := by
      by_contra hne
      refine Bool.false_ne_true (Eq.trans ?_ hop)
      exact ((isMemberOperator_insert { name := channelName } A fd true).trans (if_neg hne)).symm
    subst hfd
    exact .create line channelName rest (by rw [← hvalid, ← hname, ← hparams]) hkey hx
  | join _ _ _ _ _ _ _ hmem =>
    cases hy
    rw [isMemberOperator_joined _ hmem] at hop
    exact absurd' rfl hop
  | topic => cases hy; exact absurd' rfl hop
  | kick _ _ _ c target =>
    rw [mem_of_kept hy] at hop
    have hflag := (isMemberOperator_erase c target fd).symm.trans hop
    split at hflag
    · cases hflag
    · exact absurd' rfl hflag
  | invite => cases hy; exact absurd' rfl hop
  | mode target rest changes c _ hname hparams hkey hopA hchanges hchain =>
    cases hy
    obtain ⟨change, hmem, hmode, hadd, hholder⟩ := hchain.promotes (hnot c rfl) hop
    rw [hparams] at hchanges
    exact .mode A line target rest changes change (by rw [← hvalid, ← hname, ← hparams]) hkey
      ⟨c, hx, hopA⟩ hchanges hmem hmode hadd ((findClientByNickname_eq s _).trans hholder)

/-- A step makes an operator only by such a line. -/
theorem Move.grants (hmove : s.Move e s') (hok : s.core.Ok) (hnot : ¬ OperatorOf fd key s)
    (hop : OperatorOf fd key s') : Grants s fd key e := by
  obtain ⟨c', hc', hop⟩ := hop
  have hnot' (c : Channel) (hc : s.channels[key]? = some c) : c.isMemberOperator fd = false := by
    by_contra h
    exact hnot ⟨c, hc, by simpa using h⟩
  have hsame (hchannels : s'.channels = s.channels) : Grants s fd key e := by
    rw [hchannels] at hc'
    rw [hnot' c' hc'] at hop
    cases hop
  cases hmove with
  | quiet hcore => exact hsame (congrArg Core.channels hcore)
  | connect _ hcore => exact hsame (congrArg Core.channels hcore)
  | command signals hlive hvalid heffect =>
    exact grants_of_channelMove hvalid (heffect.channelMove hok hlive key) rfl hc' hnot' hop
  | @disconnect _ p _ _ _ _ _ hcore =>
    have hchannels : s'.channels = (s.core.disconnect p.fd).channels := congrArg Core.channels hcore
    rw [hchannels, Core.getElem?_disconnect] at hc'
    obtain ⟨c, hc, hpurge⟩ := Option.bind_eq_some_iff.1 hc'
    obtain ⟨rfl, -⟩ := Core.purgeChannel_eq_some.1 hpurge
    have hflag := (isMemberOperator_erase c p.fd fd).symm.trans hop
    split at hflag
    · cases hflag
    · rw [hnot' c hc] at hflag
      cases hflag

/-- While a client is an operator somewhere, its connection is not removed. -/
theorem Move.not_removed (hmove : s.Move e s') (hop : OperatorOf fd key s') :
    ∃ actions, s'.log = s.log ++ actions ∧ .removed fd ∉ actions := by
  have hdelivery {actions : List Action} (h : ∀ a ∈ actions, a.isDelivery = true) :
      .removed fd ∉ actions := fun hmem => by cases h _ hmem
  cases hmove with
  | quiet _ hquiet =>
    obtain ⟨actions, hlog, hq⟩ := hquiet.log
    exact ⟨actions, hlog, fun hmem => by cases hq _ hmem⟩
  | connect _ _ hwire => exact ⟨_, congrArg Wire.log hwire, by simp⟩
  | @command A line _ signals _ _ _ hwire =>
    obtain ⟨actions, hlog, hd⟩ := Wire.log_deliver _ signals
    exact ⟨_, log_handled hwire hlog, by simpa using hdelivery hd⟩
  | @disconnect _ p _ recipients _ _ _ hcore _ hwire =>
    obtain ⟨actions, hlog, hd⟩ := Wire.log_deliver s.wire (toAll recipients (s.quitLine p.fd))
    refine ⟨_, log_removed hwire hlog, ?_⟩
    · intro hmem
      rcases List.mem_append.1 hmem with hmem | hmem
      · exact hdelivery hd hmem
      obtain ⟨c', hc', hop⟩ := hop
      have hchannels : s'.channels = (s.core.disconnect p.fd).channels :=
        congrArg Core.channels hcore
      rw [hchannels, Core.getElem?_disconnect] at hc'
      obtain ⟨c, -, hpurge⟩ := Option.bind_eq_some_iff.1 hc'
      obtain ⟨rfl, -⟩ := Core.purgeChannel_eq_some.1 hpurge
      cases List.mem_singleton.1 hmem
      have hflag := (isMemberOperator_erase c p.fd p.fd).symm.trans hop
      rw [if_pos rfl] at hflag
      cases hflag

theorem run_not_removed {es : List Event} (h : Reachable s)
    (hrun : Transition.Run (Transition.Within Step (OperatorOf fd key)) s es s') :
    ∃ actions, s'.log = s.log ++ actions ∧ .removed fd ∉ actions := by
  suffices Reachable s' ∧ ∃ actions, s'.log = s.log ++ actions ∧ .removed fd ∉ actions from this.2
  induction hrun with
  | nil => exact ⟨h, [], (List.append_nil _).symm, List.not_mem_nil⟩
  | snoc _ hs ih =>
    obtain ⟨hr, as, has, hnot⟩ := ih
    obtain ⟨bs, hbs, hnot'⟩ := (hr.move hs.1).not_removed hs.2.2
    refine ⟨hr.step hs.1, as ++ bs, by rw [hbs, has, List.append_assoc], ?_⟩
    rw [List.mem_append, not_or]
    exact ⟨hnot, hnot'⟩

/-- **Only operators change a channel, and only operators and founders make operators.**
The last part is about whole runs: an operator was made one by some step, has been one
since, and its connection has not been removed since. -/
theorem authorization {listenerFd : Fd} {password : Text} {es : List Event}
    (hrun : Transition.Run Step (start listenerFd password) es s) :
    (∀ (A : Fd) (line key : Text) (c : Channel) (s' : Server), s.Step (.line A line) s' →
      s.channels[key]? = some c →
      (Privileged A (s'.client A).nickname c s'.channels[key]? → c.isMemberOperator A = true) ∧
      (∀ c', s'.channels[key]? = some c' → c'.topic ≠ c.topic →
        A ∈ c.members ∧ (c.topicRestricted = true → c.isMemberOperator A = true)) ∧
      (∀ m ∈ c.members, m ≠ A → (∀ c', s'.channels[key]? = some c' → m ∉ c'.members) →
        (Command.parse line).Names "KICK".toList key) ∧
      (∀ c' m, s'.channels[key]? = some c' → m ∈ c'.members →
        c'.isMemberOperator m ≠ c.isMemberOperator m → m ∈ c.members →
        (Command.parse line).Names "MODE".toList key)) ∧
    (∀ (fd : Fd) (key : Text), OperatorOf fd key s →
      ∃ es₁ s₁ e s₂ es₂ actions, es = es₁ ++ e :: es₂ ∧
        Transition.Run Step (start listenerFd password) es₁ s₁ ∧ ¬ OperatorOf fd key s₁ ∧
        s₁.Step e s₂ ∧ Grants s₁ fd key e ∧ OperatorOf fd key s₂ ∧
        Transition.Run (Transition.Within Step (OperatorOf fd key)) s₂ es₂ s ∧
        s.log = s₂.log ++ actions ∧ .removed fd ∉ actions) := by
  have h := Reachable.of_run hrun
  constructor
  · intro A line key c s' hs hc
    have hmove : s'.core = s.core ∨
        ChannelMove s.core s'.core A (Command.parse line) key s.channels[key]? s'.channels[key]? := by
      cases h.move hs with
      | quiet hcore => exact Or.inl hcore
      | command signals hlive _ heffect => exact Or.inr (heffect.channelMove h.ok hlive key)
    have hmove : ChannelMove s.core s'.core A (Command.parse line) key (some c)
        s'.channels[key]? := by
      rcases hmove with hcore | hmove
      · rw [show s'.channels = s.channels from congrArg Core.channels hcore, hc]
        exact .same _
      · rw [← hc]
        exact hmove
    refine ⟨?_, ?_, ?_, ?_⟩
    · intro hpriv
      rw [client_nickname] at hpriv
      exact hmove.operator rfl hpriv
    · intro c' hc' hne
      rcases hmove.topic_changed rfl hc' hne with hop | hmem
      · exact ⟨(hasMember_iff c A).1 (isMemberOperator_hasMember hop), fun _ => hop⟩
      · exact hmem
    · intro m hm _ hm'
      exact hmove.removed rfl hm hm'
    · intro c' m hc' hm' hne _
      exact hmove.role_changed rfl hc' hm' hne
  · intro fd key hop
    have hstart : ¬ OperatorOf fd key (start listenerFd password) := by
      rintro ⟨c, hc, -⟩
      simp [start] at hc
    obtain ⟨es₁, s₁, e, s₂, es₂, rfl, hrun₁, hnot, hs, hop₂, hsince⟩ := hrun.gained hstart hop
    have h₁ := Reachable.of_run hrun₁
    obtain ⟨actions, hlog, hkept⟩ := run_not_removed (h₁.step hs) hsince
    exact ⟨es₁, s₁, e, s₂, es₂, actions, rfl, hrun₁, hnot, hs,
      (h₁.move hs).grants h₁.ok hnot hop₂, hop₂, hsince, hlog, hkept⟩

theorem authorization_session :
    OperatorOf 4 "#c".toList session ∧
    ∃ es₁ s₁ e s₂ es₂ actions, sessionEvents = es₁ ++ e :: es₂ ∧
      Transition.Run Step (start 3 "pw".toList) es₁ s₁ ∧ ¬ OperatorOf 4 "#c".toList s₁ ∧
      s₁.Step e s₂ ∧ Grants s₁ 4 "#c".toList e ∧ OperatorOf 4 "#c".toList s₂ ∧
      Transition.Run (Transition.Within Step (OperatorOf 4 "#c".toList)) s₂ es₂ session ∧
      session.log = s₂.log ++ actions ∧ .removed 4 ∉ actions := by
  have hop : (session.channels["#c".toList]?).any (·.isMemberOperator 4) = true := by
    decide +kernel
  have hop : OperatorOf 4 "#c".toList session := (Option.any_eq_true _ _).1 hop
  exact ⟨hop, (authorization (Transition.Run.of_foldlM session_steps)).2 4 "#c".toList hop⟩

end Server

end FtIrc
