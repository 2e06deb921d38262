import FtIrc.Admission
import FtIrc.Stores

/-!
# Channels over a run

A channel that has lost its last operator never gets one again: its settings are frozen for as
long as it exists, nobody is thrown out, and behind `+i` its members and invitations together
only dwindle (`Server.leaderless_frozen`).  A user limit bounds the members at every moment, not
only at each JOIN (`Server.limit_respected`).
-/

namespace FtIrc

open Std

/-! ## Sizes -/

namespace Channel

variable {c c' : Channel} {fd : Fd}

/-- Members and invitations together. -/
def places (c : Channel) : Nat := c.members.size + c.invitedUsers.size

theorem size_uninvite {nickname : Text} (h : c.isInvited nickname = true) :
    (c.invitedUsers.erase (ircCaseFold nickname)).size + 1 = c.invitedUsers.size := by
  have herase := c.invitedUsers.size_erase (k := ircCaseFold nickname)
  have hmem : ircCaseFold nickname ∈ c.invitedUsers := ExtTreeSet.mem_iff_contains.2 h
  have hpos : c.invitedUsers.size ≠ 0 := fun hzero =>
    ExtTreeSet.not_mem_empty (ExtTreeSet.eq_empty_iff_size_eq_zero.2 hzero ▸ hmem)
  rw [show c.invitedUsers.contains (ircCaseFold nickname) = true from h, if_pos rfl] at herase
  omega

theorem size_renameInvite (old nickname : Text) (c : Channel) :
    (Server.renameInvite old nickname c).invitedUsers.size ≤ c.invitedUsers.size := by
  unfold Server.renameInvite
  split
  · next hinvited =>
    show ((c.invitedUsers.erase (ircCaseFold old)).insert (ircCaseFold nickname)).size ≤ _
    have hinsert := (c.invitedUsers.erase (ircCaseFold old)).size_insert_le (k := ircCaseFold nickname)
    have herase := size_uninvite hinvited
    omega
  · exact Nat.le_refl _

theorem members_renameInvite (old nickname : Text) (c : Channel) :
    (Server.renameInvite old nickname c).members = c.members := by
  unfold Server.renameInvite
  split <;> rfl

/-- A JOIN by invitation turns the invitation into a member. -/
theorem places_join {nickname : Text} (hm : c.hasMember fd = false)
    (hinvited : c.isInvited nickname = true) :
    ((c.addMember fd false).removeInvite nickname).places = c.places := by
  have hcount : ((c.addMember fd false).removeInvite nickname).members.size = c.members.size + 1 :=
    (Server.joined_spec nickname hm).2.1
  have herase : ((c.addMember fd false).removeInvite nickname).invitedUsers.size + 1 =
      c.invitedUsers.size := by
    rw [addMember_eq hm]
    exact size_uninvite hinvited
  unfold places
  omega

theorem places_purged (fd : Fd) (nickname : Text) (c : Channel) :
    (Core.purged fd nickname c).places ≤ c.places := by
  unfold places Core.purged
  dsimp only
  have hmembers := c.members.size_erase_le (k := fd)
  split
  · omega
  · have hinvited := c.invitedUsers.size_erase_le (k := ircCaseFold nickname)
    omega

/-! ## Channels without an operator -/

def Leaderless (c : Channel) : Prop := ∀ m, c.isMemberOperator m = false

/-- What a channel without an operator keeps. -/
structure Inherits (c c' : Channel) : Prop where
  leaderless : c.Leaderless → c'.Leaderless
  name : c'.name = c.name
  inviteOnly : c'.inviteOnly = c.inviteOnly
  topicRestricted : c'.topicRestricted = c.topicRestricted
  key : c'.hasKey = c.hasKey ∧ c'.key = c.key
  userLimit : c'.hasUserLimit = c.hasUserLimit ∧ c'.userLimit = c.userLimit
  topic : c.topicRestricted = true → c'.topic = c.topic
  places : c.inviteOnly = true → c'.places ≤ c.places

theorem Inherits.refl (c : Channel) : c.Inherits c :=
  ⟨id, rfl, rfl, rfl, ⟨rfl, rfl⟩, ⟨rfl, rfl⟩, fun _ => rfl, fun _ => Nat.le_refl _⟩

theorem Inherits.trans {c'' : Channel} (h : c.Inherits c') (h' : c'.Inherits c'') : c.Inherits c'' where
  leaderless := fun hc => h'.leaderless (h.leaderless hc)
  name := h'.name.trans h.name
  inviteOnly := h'.inviteOnly.trans h.inviteOnly
  topicRestricted := h'.topicRestricted.trans h.topicRestricted
  key := ⟨h'.key.1.trans h.key.1, h'.key.2.trans h.key.2⟩
  userLimit := ⟨h'.userLimit.1.trans h.userLimit.1, h'.userLimit.2.trans h.userLimit.2⟩
  topic ht := (h'.topic (h.topicRestricted.trans ht)).trans (h.topic ht)
  places hi := (h'.places (h.inviteOnly.trans hi)).trans (h.places hi)

theorem inherits_rename (old nickname : Text) (c : Channel) :
    c.Inherits (Server.renameInvite old nickname c) := by
  have hsize := size_renameInvite old nickname c
  have hmembers := members_renameInvite old nickname c
  unfold Server.renameInvite at *
  split
  · next hinvited =>
    rw [if_pos hinvited] at hsize
    exact ⟨id, rfl, rfl, rfl, ⟨rfl, rfl⟩, ⟨rfl, rfl⟩, fun _ => rfl,
      fun _ => Nat.add_le_add_left hsize _⟩
  · exact .refl c

theorem inherits_join {nickname : Text} (hm : c.hasMember fd = false)
    (hinvited : c.inviteOnly = true → c.isInvited nickname = true) :
    c.Inherits ((c.addMember fd false).removeInvite nickname) := by
  have hplaces := fun hi => places_join hm (hinvited hi)
  rw [addMember_eq hm] at hplaces ⊢
  refine ⟨fun hc m => ?_, rfl, rfl, rfl, ⟨rfl, rfl⟩, ⟨rfl, rfl⟩, fun _ => rfl, fun hi => (hplaces hi).le⟩
  show ((c.members.insert fd false)[m]?).getD false = false
  rw [ExtTreeMap.getElem?_insert]
  split
  · rfl
  · exact hc m

theorem inherits_purged (fd : Fd) (nickname : Text) (c : Channel) :
    c.Inherits (Core.purged fd nickname c) := by
  refine ⟨fun hc m => ?_, rfl, rfl, rfl, ⟨rfl, rfl⟩, ⟨rfl, rfl⟩, fun _ => rfl,
    fun _ => places_purged fd nickname c⟩
  show ((c.members.erase fd)[m]?).getD false = false
  rw [ExtTreeMap.getElem?_erase]
  split
  · rfl
  · exact hc m

end Channel

/-- Only a JOIN, a change of nickname or an unrestricted TOPIC touches a channel without an
operator, and nobody is thrown out. -/
theorem ChannelMove.inherits {κ κ' : Core} {A : Fd} {command : Command} {key : Text}
    {x x' : Option Channel} {c c' : Channel} (h : ChannelMove κ κ' A command key x x')
    (hx : x = some c) (hx' : x' = some c') (hc : c.Leaderless) :
    c.Inherits c' ∧ ∀ m ∈ c.members, m ∈ c'.members := by
  have hno {P : Prop} (hop : c.isMemberOperator A = true) : P := by
    rw [hc A] at hop
    cases hop
  cases h with
  | same =>
    cases hx.symm.trans hx'
    exact ⟨.refl c, fun _ hm => hm⟩
  | rename d nickname =>
    cases hx
    cases hx'
    exact ⟨Channel.inherits_rename _ _ c, fun m hm => by rw [Channel.members_renameInvite]; exact hm⟩
  | create => cases hx
  | join channelName rest d _ _ _ _ hm hinvited =>
    cases hx
    cases hx'
    refine ⟨Channel.inherits_join hm hinvited, fun m hmem => ?_⟩
    exact ((Server.joined_spec _ hm).2.2.2 m).2 (Or.inr hmem)
  | topic channelName newTopic rest d _ _ _ _ hop =>
    cases hx
    cases hx'
    exact ⟨⟨id, rfl, rfl, rfl, ⟨rfl, rfl⟩, ⟨rfl, rfl⟩, fun ht => hno (hop ht), fun _ => Nat.le_refl _⟩,
      fun _ hm => hm⟩
  | kick _ _ _ d _ _ _ _ hop => cases hx; exact hno hop
  | invite _ _ _ d _ _ _ _ hop => cases hx; exact hno hop
  | mode _ _ _ d _ _ _ _ hop => cases hx; exact hno hop

theorem ModeApplied.size {κ : Core} {change : ModeChange} {c c' : Channel}
    (h : ModeApplied κ change c c') : c'.members.size = c.members.size := by
  cases h with
  | setOperator target _ _ hm =>
    unfold Channel.setMemberOperator
    rw [if_pos hm]
    show (c.members.insert target change.adding).size = _
    exact ExtTreeMap.size_insert.trans (if_pos hm)
  | _ => rfl

theorem ModeChain.size {κ : Core} {changes : List ModeChange} {c c' : Channel}
    (h : ModeChain κ changes c c') : c'.members.size = c.members.size := by
  induction h with
  | refl => rfl
  | tail _ hstep ih =>
    obtain ⟨_, -, happ⟩ := hstep
    exact happ.size.trans ih

/-- A command adds at most one member to a channel, and none to a full one. -/
theorem ChannelMove.count {κ κ' : Core} {A : Fd} {command : Command} {key : Text}
    {x x' : Option Channel} {c c' : Channel} {limit : Nat} (h : ChannelMove κ κ' A command key x x')
    (hx : x = some c) (hx' : x' = some c') (hlimit : c.hasUserLimit = true ∧ c.userLimit ≤ limit) :
    c'.getMemberCount ≤ max c.getMemberCount limit := by
  have hle {d : Channel} (hd : d.members.size ≤ c.members.size) :
      d.getMemberCount ≤ max c.getMemberCount limit := hd.trans (Nat.le_max_left _ _)
  cases h with
  | same =>
    cases hx.symm.trans hx'
    exact hle (Nat.le_refl _)
  | rename d nickname =>
    cases hx
    cases hx'
    refine hle ?_
    rw [Channel.members_renameInvite]
  | create => cases hx
  | join channelName rest d _ _ _ _ hm _ _ hroom =>
    cases hx
    cases hx'
    have hcount := (Server.joined_spec (κ.who A).nickname hm).2.1
    have := hroom hlimit.1
    have := hlimit.2
    omega
  | topic => cases hx; cases hx'; exact hle (Nat.le_refl _)
  | kick _ _ _ d target =>
    cases hx
    rw [mem_of_kept hx']
    exact hle c.members.size_erase_le
  | invite => cases hx; cases hx'; exact hle (Nat.le_refl _)
  | mode _ _ _ d d' _ _ _ _ _ hchain =>
    cases hx
    cases hx'
    exact hle hchain.size.le

namespace Server

variable {s s' : Server} {e : Event} {key : Text} {c c' : Channel}

/-- The connection on `m` was removed between `s` and `s'`. -/
def TakenOff (m : Fd) (s s' : Server) : Prop :=
  ∃ actions, s'.log = s.log ++ actions ∧ .removed m ∈ actions

/-- **What a step leaves of a channel without an operator.** -/
theorem Reachable.leaderless_step (hr : Reachable s) (hs : s.Step e s') (hc : s.channels[key]? = some c)
    (hc' : s'.channels[key]? = some c') (h : c.Leaderless) :
    c.Inherits c' ∧ ∀ m ∈ c.members, m ∈ c'.members ∨ TakenOff m s s' := by
  have hsame (hchannels : s'.channels = s.channels) :
      c.Inherits c' ∧ ∀ m ∈ c.members, m ∈ c'.members ∨ TakenOff m s s' := by
    rw [hchannels, hc] at hc'
    cases hc'
    exact ⟨.refl c, fun _ hm => Or.inl hm⟩
  cases hr.move hs with
  | quiet hcore => exact hsame (congrArg Core.channels hcore)
  | connect _ hcore => exact hsame (congrArg Core.channels hcore)
  | command _ hlive _ heffect =>
    obtain ⟨hinherits, hmembers⟩ := (heffect.channelMove hr.ok hlive key).inherits hc hc' h
    exact ⟨hinherits, fun m hm => Or.inl (hmembers m hm)⟩
  | @disconnect _ p _ recipients _ _ _ hcore _ hwire =>
    have hchannels : s'.channels = (s.core.disconnect p.fd).channels := congrArg Core.channels hcore
    rw [hchannels, Core.getElem?_disconnect, show s.core.channels[key]? = some c from hc] at hc'
    obtain ⟨rfl, -⟩ := Core.purgeChannel_eq_some.1 hc'
    refine ⟨Channel.inherits_purged _ _ c, fun m hm => ?_⟩
    by_cases hmp : p.fd = m
    · subst hmp
      obtain ⟨actions, hlog, -⟩ := Wire.log_deliver s.wire (toAll recipients (s.quitLine p.fd))
      exact Or.inr ⟨_, log_removed hwire hlog, by simp⟩
    · left
      show m ∈ c.members.erase p.fd
      rw [ExtTreeMap.mem_erase]
      exact ⟨by simpa using hmp, hm⟩

/-- The channel stored under `key` is there. -/
def Exists (key : Text) (s : Server) : Prop := ∃ c, s.channels[key]? = some c

/-- **A channel without an operator is frozen** for as long as it exists: it gets no operator, keeps
its modes, key, limit and, behind `+t`, its topic, and each member until the connection is removed.
Behind `+i` its members and invitations together never become more. -/
theorem leaderless_frozen (hr : Reachable s) {es : List Event}
    (hrun : Transition.Run (Transition.Within Step (Exists key)) s es s')
    (hc : s.channels[key]? = some c) (h : c.Leaderless) :
    ∃ c', s'.channels[key]? = some c' ∧ c'.Leaderless ∧ c.Inherits c' ∧
      ∀ m ∈ c.members, m ∈ c'.members ∨ TakenOff m s s' := by
  suffices hall : Reachable s' ∧ (∃ actions, s'.log = s.log ++ actions) ∧
      ∃ c', s'.channels[key]? = some c' ∧ c'.Leaderless ∧ c.Inherits c' ∧
        ∀ m ∈ c.members, m ∈ c'.members ∨ TakenOff m s s' from hall.2.2
  induction hrun with
  | nil => exact ⟨hr, ⟨[], (List.append_nil _).symm⟩, c, hc, h, .refl c, fun _ hm => Or.inl hm⟩
  | @snoc es s₁ e s₂ _ hs ih =>
    obtain ⟨hr₁, ⟨as, has⟩, c₁, hc₁, h₁, hinherits, hmembers⟩ := ih
    obtain ⟨hs, -, c₂, hc₂⟩ := hs
    obtain ⟨bs, hbs, -⟩ := (hr₁.move hs).log
    obtain ⟨hinherits', hmembers'⟩ := hr₁.leaderless_step hs hc₁ hc₂ h₁
    refine ⟨hr₁.step hs, ⟨as ++ bs, by rw [hbs, has, List.append_assoc]⟩, c₂, hc₂,
      hinherits'.leaderless h₁, hinherits.trans hinherits', fun m hm => ?_⟩
    rcases hmembers m hm with hm | ⟨cs, hcs, hmem⟩
    · rcases hmembers' m hm with hm | ⟨cs, hcs, hmem⟩
      · exact Or.inl hm
      · exact Or.inr ⟨as ++ cs, by rw [hcs, has, List.append_assoc], List.mem_append_right _ hmem⟩
    · exact Or.inr ⟨cs ++ bs, by rw [hbs, hcs, List.append_assoc], List.mem_append_left _ hmem⟩

theorem leaderless_frozen_session :
    ∃ s s' c c', s.Reachable ∧ Exists "#c".toList s ∧ s.channels["#c".toList]? = some c ∧ c.Leaderless ∧
      s.Step (.line 5 "TOPIC #c :free".toList) s' ∧ s'.channels["#c".toList]? = some c' ∧ c.Inherits c' ∧
      c'.topic = "free".toList := by
  have hview : ((session.steps [.line 5 "JOIN #c".toList, .remove 1]).bind fun s =>
      (s.step (.line 5 "TOPIC #c :free".toList)).map fun s' =>
        ((s.channels["#c".toList]?).map fun c => c.members.toList,
          (s'.channels["#c".toList]?).map fun c => c.topic)) =
      some (some [(5, false)], some "free".toList) := by decide +kernel
  have hr := session_reachable
  generalize session = s₀ at *
  obtain ⟨s, hs, hview⟩ := Option.bind_eq_some_iff.1 hview
  obtain ⟨s', hs', hview⟩ := Option.map_eq_some_iff.1 hview
  rw [Prod.mk.injEq] at hview
  obtain ⟨c, hc, hmembers⟩ := Option.map_eq_some_iff.1 hview.1
  obtain ⟨c', hc', htopic⟩ := Option.map_eq_some_iff.1 hview.2
  have hleaderless : c.Leaderless := by
    intro m
    unfold Channel.isMemberOperator
    cases hm : c.members[m]? with
    | none => rfl
    | some flag =>
      have hmem := ExtTreeMap.mem_toList_iff_getElem?_eq_some.2 hm
      rw [hmembers, List.mem_singleton] at hmem
      rw [(Prod.mk.inj hmem).2]
      rfl
  obtain ⟨d, hd, -, hinherits, -⟩ := leaderless_frozen (hr.steps hs)
    (Transition.Run.single ⟨hs', ⟨c, hc⟩, ⟨c', hc'⟩⟩) hc hleaderless
  rw [hc'] at hd
  cases hd
  exact ⟨s, s', c, c', hr.steps hs, ⟨c, hc⟩, hc, hleaderless, hs', hc', hinherits, htopic⟩

/-! ## User limits -/

/-- The channel stored under `key` has a user limit of at most `limit`. -/
def LimitedTo (key : Text) (limit : Nat) (s : Server) : Prop :=
  ∃ c, s.channels[key]? = some c ∧ c.hasUserLimit = true ∧ c.userLimit ≤ limit

/-- **A user limit is respected at every moment**: however it is set meanwhile, up to `limit`, and
whoever comes and goes, there are never more members than `limit` or than there were at first. -/
theorem limit_respected (hr : Reachable s) {limit : Nat} {es : List Event}
    (hrun : Transition.Run (Transition.Within Step (LimitedTo key limit)) s es s')
    (hc : s.channels[key]? = some c) (hc' : s'.channels[key]? = some c') :
    c'.getMemberCount ≤ max c.getMemberCount limit := by
  suffices hall : Reachable s' ∧ ∀ c', s'.channels[key]? = some c' →
      c'.getMemberCount ≤ max c.getMemberCount limit from hall.2 c' hc'
  clear hc'
  induction hrun with
  | nil =>
    refine ⟨hr, fun d hd => ?_⟩
    rw [hc] at hd
    cases hd
    exact Nat.le_max_left _ _
  | @snoc es s₁ e s₂ _ hs ih =>
    obtain ⟨hr₁, hcount⟩ := ih
    obtain ⟨hs, ⟨c₁, hc₁, hlimit⟩, -⟩ := hs
    refine ⟨hr₁.step hs, fun c₂ hc₂ => ?_⟩
    have hfirst := hcount c₁ hc₁
    rcases hr₁.channel_cases hs hc₂ with hsame | ⟨fd, d, hd, rfl⟩ | ⟨A, line, -, -, hmove⟩
    · exact hcount c₂ hsame
    · rw [hc₁] at hd
      cases hd
      exact (c₁.members.size_erase_le).trans hfirst
    · have hsecond := hmove.count hc₁ rfl hlimit
      omega

theorem limit_respected_session :
    ∃ s s' c c', s.Reachable ∧ LimitedTo "#c".toList 2 s ∧ s.Step (.line 5 "JOIN #c".toList) s' ∧
      s.channels["#c".toList]? = some c ∧ s'.channels["#c".toList]? = some c' ∧
      c'.getMemberCount ≤ max c.getMemberCount 2 := by
  have hview : ((session.step (.line 4 "MODE #c +l 2".toList)).bind fun s =>
      (s.step (.line 5 "JOIN #c".toList)).map fun s' =>
        ((s.channels["#c".toList]?).map fun c => (c.hasUserLimit, c.userLimit),
          (s'.channels["#c".toList]?).map fun c => (c.hasUserLimit, c.userLimit))) =
      some (some (true, 2), some (true, 2)) := by decide +kernel
  have hr := session_reachable
  generalize session = s₀ at *
  obtain ⟨s, hs, hview⟩ := Option.bind_eq_some_iff.1 hview
  obtain ⟨s', hs', hview⟩ := Option.map_eq_some_iff.1 hview
  rw [Prod.mk.injEq] at hview
  obtain ⟨c, hc, hlimit⟩ := Option.map_eq_some_iff.1 hview.1
  obtain ⟨c', hc', hlimit'⟩ := Option.map_eq_some_iff.1 hview.2
  rw [Prod.mk.injEq] at hlimit hlimit'
  have hs₁ : LimitedTo "#c".toList 2 s := ⟨c, hc, hlimit.1, hlimit.2.le⟩
  refine ⟨s, s', c, c', hr.step hs, hs₁, hs', hc, hc', ?_⟩
  exact limit_respected (hr.step hs)
    (Transition.Run.single ⟨hs', hs₁, ⟨c', hc', hlimit'.1, hlimit'.2.le⟩⟩) hc hc'

end Server

end FtIrc
