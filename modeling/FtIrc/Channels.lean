import FtIrc.Invariant

/-!
# What a command does to one channel

`ChannelMove` lists the ways the channel stored under one key can change when a line is
handled, with the checks that precede each.  Everything about members, operators, modes,
topics and invitations is read off these cases.
-/

namespace FtIrc

open Std

/-- From `c` to `c'` by some of `changes`. -/
def ModeChain (κ : Core) (changes : List ModeChange) : Channel → Channel → Prop :=
  Relation.ReflTransGen fun c c' => ∃ change ∈ changes, ModeApplied κ change c c'

inductive ChannelMove (κ κ' : Core) (fd : Fd) (command : Command) (key : Text) :
    Option Channel → Option Channel → Prop
  | same (x : Option Channel) : ChannelMove κ κ' fd command key x x
  | rename (c : Channel) (nickname : Text) (rest : List Text) :
      command.name = "NICK".toList → command.parameters = nickname :: rest →
      (κ.who fd).nickname ≠ [] → (κ'.who fd).nickname = nickname →
      ChannelMove κ κ' fd command key (some c)
        (some (Server.renameInvite (κ.who fd).nickname nickname c))
  | create (channelName : Text) (rest : List Text) :
      command.name = "JOIN".toList → command.parameters = channelName :: rest →
      ircCaseFold channelName = key → (κ.who fd).registered = true →
      ChannelMove κ κ' fd command key none
        (some (({ name := channelName } : Channel).addMember fd true))
  | join (channelName : Text) (rest : List Text) (c : Channel) :
      command.name = "JOIN".toList → command.parameters = channelName :: rest →
      ircCaseFold channelName = key → (κ.who fd).registered = true → c.hasMember fd = false →
      (c.inviteOnly = true → c.isInvited (κ.who fd).nickname = true) →
      (c.hasKey = true → rest.head?.getD [] = c.key) →
      (c.hasUserLimit = true → c.getMemberCount < c.userLimit) →
      ChannelMove κ κ' fd command key (some c)
        (some ((c.addMember fd false).removeInvite (κ.who fd).nickname))
  | topic (channelName newTopic : Text) (rest : List Text) (c : Channel) :
      command.name = "TOPIC".toList → command.parameters = channelName :: newTopic :: rest →
      ircCaseFold channelName = key → c.hasMember fd = true →
      (c.topicRestricted = true → c.isMemberOperator fd = true) →
      ChannelMove κ κ' fd command key (some c) (some (c.setTopic newTopic))
  | kick (channelName targetNick : Text) (rest : List Text) (c : Channel) (target : Fd) :
      command.name = "KICK".toList → command.parameters = channelName :: targetNick :: rest →
      ircCaseFold channelName = key → c.isMemberOperator fd = true →
      κ.holder targetNick = some target → c.hasMember target = true →
      ChannelMove κ κ' fd command key (some c)
        (if (c.removeMember target).empty then none else some (c.removeMember target))
  | invite (targetNick channelName : Text) (rest : List Text) (c : Channel) (target : Fd) :
      command.name = "INVITE".toList → command.parameters = targetNick :: channelName :: rest →
      ircCaseFold channelName = key → c.isMemberOperator fd = true →
      κ.holder targetNick = some target → c.hasMember target = false →
      ChannelMove κ κ' fd command key (some c) (some (c.addInvite targetNick))
  | mode (target : Text) (rest : List Text) (changes : List ModeChange) (c c' : Channel) :
      command.name = "MODE".toList → command.parameters = target :: rest →
      ircCaseFold target = key → c.isMemberOperator fd = true →
      Server.parseChannelModeChanges command.parameters = some changes →
      ModeChain κ changes c c' → ChannelMove κ κ' fd command key (some c) (some c')

/-! ## MODE -/

/-- A mode change looks at nothing of the core but the nickname lookup. -/
theorem ModeApplied.congr {κ κ' : Core} {change : ModeChange} {c c' : Channel}
    (h : ModeApplied κ change c c') (hholder : ∀ n, κ'.holder n = κ.holder n) :
    ModeApplied κ' change c c' := by
  cases h with
  | inviteOnly h₁ h₂ => exact .inviteOnly h₁ h₂
  | topicRestricted h₁ h₂ => exact .topicRestricted h₁ h₂
  | setKey h₁ h₂ h₃ h₄ => exact .setKey h₁ h₂ h₃ h₄
  | removeKey h₁ h₂ h₃ => exact .removeKey h₁ h₂ h₃
  | setOperator target h₁ h₂ h₃ h₄ => exact .setOperator target h₁ ((hholder _).trans h₂) h₃ h₄
  | setUserLimit limit h₁ h₂ h₃ h₄ => exact .setUserLimit limit h₁ h₂ h₃ h₄
  | removeUserLimit h₁ h₂ h₃ => exact .removeUserLimit h₁ h₂ h₃

theorem ModeChain.mono {κ : Core} {changes changes' : List ModeChange} {c c' : Channel}
    (h : ModeChain κ changes c c') (hsub : changes ⊆ changes') : ModeChain κ changes' c c' :=
  Relation.ReflTransGen.mono (fun _ _ ⟨change, hmem, happ⟩ => ⟨change, hsub hmem, happ⟩) _ _ h

/-- What a MODE line leaves alone, and how the channel it names changes. -/
theorem ModeRun.channels {κ κ' : Core} {fd : Fd} {key : Text} {changes : List ModeChange}
    {signals : List Signal} (h : ModeRun fd key κ changes κ' signals) :
    κ'.identities = κ.identities ∧ κ'.nicknameIndex = κ.nicknameIndex ∧
    (∀ k, key ≠ k → κ'.channels[k]? = κ.channels[k]?) ∧
    ∀ c, κ.channels[key]? = some c →
      ∃ c', κ'.channels[key]? = some c' ∧ ModeChain κ changes c c' := by
  induction h with
  | nil => exact ⟨rfl, rfl, fun _ _ => rfl, fun c hc => ⟨c, hc, .refl⟩⟩
  | refused _ _ _ ih =>
    obtain ⟨h1, h2, h3, h4⟩ := ih
    refine ⟨h1, h2, h3, fun c hc => ?_⟩
    obtain ⟨c', hc', hchain⟩ := h4 c hc
    exact ⟨c', hc', hchain.mono (List.subset_cons_self _ _)⟩
  | unchanged _ ih =>
    obtain ⟨h1, h2, h3, h4⟩ := ih
    refine ⟨h1, h2, h3, fun c hc => ?_⟩
    obtain ⟨c', hc', hchain⟩ := h4 c hc
    exact ⟨c', hc', hchain.mono (List.subset_cons_self _ _)⟩
  | @applied κ _ _ _ _ c c₁ hc hmode _ ih =>
    obtain ⟨h1, h2, h3, h4⟩ := ih
    refine ⟨h1, h2, ?_, ?_⟩
    · intro k hk
      rw [h3 k hk, Core.getElem?_setChannel, if_neg hk]
    · intro d hd
      rw [hc] at hd
      cases hd
      obtain ⟨c', hc', hchain⟩ := h4 c₁ (by rw [Core.getElem?_setChannel, if_pos rfl])
      refine ⟨c', hc', .head ⟨_, List.mem_cons_self, hmode⟩ ?_⟩
      refine Relation.ReflTransGen.mono ?_ _ _ hchain
      rintro a b ⟨change, hmem, happ⟩
      exact ⟨change, List.mem_cons_of_mem _ hmem, happ.congr fun _ => rfl⟩

theorem ModeChain.mem_members {κ : Core} {changes : List ModeChange} {c c' : Channel}
    (h : ModeChain κ changes c c') (x : Fd) : x ∈ c'.members ↔ x ∈ c.members := by
  induction h with
  | refl => exact Iff.rfl
  | tail _ hstep ih =>
    obtain ⟨_, -, happ⟩ := hstep
    exact (happ.mem_members x).trans ih

theorem ModeChain.name {κ : Core} {changes : List ModeChange} {c c' : Channel}
    (h : ModeChain κ changes c c') : c'.name = c.name ∧ c'.topic = c.topic := by
  induction h with
  | refl => exact ⟨rfl, rfl⟩
  | tail _ hstep ih =>
    obtain ⟨_, -, happ⟩ := hstep
    exact ⟨happ.name.1.trans ih.1, happ.name.2.trans ih.2⟩

/-! ## Every command -/

namespace Core

variable {κ : Core} {fd : Fd}

@[simp] theorem channels_complete : (κ.complete fd).channels = κ.channels := by
  unfold complete
  split <;> rfl

@[simp] theorem nicknameIndex_complete : (κ.complete fd).nicknameIndex = κ.nicknameIndex := by
  unfold complete
  split <;> rfl

@[simp] theorem live_complete {x : Fd} : (κ.complete fd).Live x ↔ κ.Live x := by
  unfold complete
  split
  · exact κ.live_modify fd
  · exact Iff.rfl

theorem who_complete_of_ne {x : Fd} (h : fd ≠ x) : (κ.complete fd).who x = κ.who x := by
  unfold complete
  split
  · exact who_modify_of_ne κ fd h
  · rfl

/-- Only the registration itself is news. -/
theorem who_complete_field {β : Type} {g : Identity → β}
    (h : ∀ id : Identity, g { id with registered := true } = g id) (x : Fd) :
    g ((κ.complete fd).who x) = g (κ.who x) := by
  unfold complete
  split
  · exact who_modify_field κ fd (f := ({ · with registered := true })) h x
  · rfl

theorem nickname_complete (x : Fd) : ((κ.complete fd).who x).nickname = (κ.who x).nickname :=
  who_complete_field (g := Identity.nickname) (fun _ => rfl) x

theorem nickname_rename (hlive : κ.Live fd) (nickname : Text) :
    ((κ.rename fd nickname).who fd).nickname = nickname := by
  rw [who_rename, who_modify_self κ fd hlive]

/-- `removeMemberFromChannel`, seen from the key of the channel. -/
theorem getElem?_dropMember {key : Text} {c : Channel} (hkey : ircCaseFold c.name = key) (m : Fd)
    (k : Text) :
    (κ.dropMember m key c).channels[k]? =
      if key = k then (if (c.removeMember m).empty then none else some (c.removeMember m))
      else κ.channels[k]? := by
  unfold dropMember
  split
  · simp only [ExtTreeMap.getElem?_erase, Std.compare_eq_iff_eq, hkey]
  · exact getElem?_setChannel _ _ _ _

end Core

theorem Effect.channelMove {κ κ' : Core} {fd : Fd} {command : Command} {signals : List Signal}
    (he : Effect κ fd command κ' signals) (hok : κ.Ok) (hlive : κ.Live fd) (key : Text) :
    ChannelMove κ κ' fd command key κ.channels[key]? κ'.channels[key]? := by
  have hset {name : Text} {c₁ : Channel} {x : Option Channel}
      (hx : κ.channels[ircCaseFold name]? = x)
      (hmove : ircCaseFold name = key →
        ChannelMove κ (κ.setChannel (ircCaseFold name) c₁) fd command key x (some c₁)) :
      ChannelMove κ (κ.setChannel (ircCaseFold name) c₁) fd command key κ.channels[key]?
        (κ.setChannel (ircCaseFold name) c₁).channels[key]? := by
    rw [Core.getElem?_setChannel]
    split
    · next hk => subst hk; rw [hx]; exact hmove rfl
    · exact .same _
  cases he with
  | silent => exact .same _
  | reply => exact .same _
  | quit => exact .same _
  | pass => rw [Core.channels_complete]; exact .same _
  | user => rw [Core.channels_complete]; exact .same _
  | nick nickname rest _ hname hparams =>
    rw [Core.channels_complete, Core.getElem?_rename]
    cases hc : κ.channels[key]? with
    | none => exact .same _
    | some c =>
      rw [Option.map_some]
      split
      · exact .same _
      · next hne =>
        exact .rename c nickname rest hname hparams hne
          (by rw [Core.nickname_complete, Core.nickname_rename hlive])
  | create channelName rest hname hparams hreg _ hnone =>
    exact hset hnone fun hk => .create channelName rest hname hparams hk hreg
  | join channelName rest c hname hparams hreg _ hc hmem hinv hkey hlim =>
    exact hset hc fun hk => .join channelName rest c hname hparams hk hreg hmem hinv hkey hlim
  | privmsgChannel => exact .same _
  | privmsgUser => exact .same _
  | topic channelName newTopic rest c hname hparams _ hc hmem hop =>
    exact hset hc fun hk => .topic channelName newTopic rest c hname hparams hk hmem hop
  | kick channelName targetNick rest c target hname hparams _ hc hop hholder hmem =>
    rw [Core.getElem?_dropMember (hok.channel _ c hc).key]
    split
    · next hk =>
      subst hk
      rw [hc]
      exact .kick channelName targetNick rest c target hname hparams rfl hop hholder hmem
    · exact .same _
  | invite targetNick channelName rest c target hname hparams _ hholder hc hop hmem =>
    exact hset hc fun hk => .invite targetNick channelName rest c target hname hparams hk hop hholder hmem
  | mode target rest c changes _ _ hname hparams _ hc hop hchanges hrun =>
    obtain ⟨-, -, hother, hthis⟩ := hrun.channels
    by_cases hk : ircCaseFold target = key
    · subst hk
      obtain ⟨c', hc', hchain⟩ := hthis c hc
      rw [hc, hc']
      exact .mode target rest changes c c' hname hparams rfl hop hchanges hchain
    · rw [hother key hk]
      exact .same _

/-- A command connects and removes nobody. -/
theorem Effect.live {κ κ' : Core} {A : Fd} {command : Command} {signals : List Signal}
    (he : Effect κ A command κ' signals) (x : Fd) : κ'.Live x ↔ κ.Live x := by
  cases he with
  | pass => exact Core.live_complete.trans (κ.live_modify A)
  | user => exact Core.live_complete.trans (κ.live_modify A)
  | nick nickname =>
    rw [Core.live_complete]
    unfold Core.Live
    rw [Core.identities_rename]
    exact κ.live_modify A
  | kick =>
    unfold Core.dropMember
    split <;> exact Iff.rfl
  | mode _ _ _ _ _ _ _ _ _ _ _ _ hrun => unfold Core.Live; rw [hrun.channels.1]
  | _ => exact Iff.rfl

namespace Server

variable {s s' : Server} {e : Event}

/-- **What a step does to a channel that is there after it.** -/
theorem Reachable.channel_cases (h : Reachable s) (hs : s.Step e s') {key : Text} {c' : Channel}
    (hc' : s'.channels[key]? = some c') :
    s.channels[key]? = some c' ∨
    (∃ fd c, s.channels[key]? = some c ∧ c' = Core.purged fd (s.core.who fd).nickname c) ∨
    ∃ A line, e = .line A line ∧ (Command.parse line).valid = true ∧
      ChannelMove s.core s'.core A (Command.parse line) key s.channels[key]? (some c') := by
  have hsame (hcore : s'.core.channels = s.core.channels) : s.channels[key]? = some c' := by
    rw [← hc']
    exact congrArg (·[key]?) hcore.symm
  cases h.move hs with
  | quiet hcore => exact Or.inl (hsame (congrArg Core.channels hcore))
  | connect _ hcore => exact Or.inl (hsame (by rw [hcore]; rfl))
  | @command A line _ signals hA hvalid heffect =>
    have hmove := heffect.channelMove h.ok hA key
    rw [show s'.core.channels[key]? = some c' from hc'] at hmove
    exact Or.inr (Or.inr ⟨A, line, rfl, hvalid, hmove⟩)
  | @disconnect _ p _ _ _ _ _ hcore =>
    have hchannels : s'.channels = (s.core.disconnect p.fd).channels := congrArg Core.channels hcore
    rw [hchannels, Core.getElem?_disconnect] at hc'
    obtain ⟨c, hc, hpurge⟩ := Option.bind_eq_some_iff.1 hc'
    exact Or.inr (Or.inl ⟨p.fd, c, hc, (Core.purgeChannel_eq_some.1 hpurge).1⟩)

end Server

end FtIrc
