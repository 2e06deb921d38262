import FtIrc.Handlers.Registration

/-!
# The effects of the channel and message handlers
-/

namespace FtIrc

open Std

namespace Server

variable (s : Server) (fd : Fd) (command : Command)

theorem hasMember_iff (c : Channel) (m : Fd) : c.hasMember m = true ↔ m ∈ c.members :=
  ExtTreeMap.mem_iff_contains.symm

theorem filter_none (fds : List Fd) : fds.filter (some · ≠ none) = fds := by simp

/-- A relay to every member. -/
theorem wire_broadcast (channel : Channel) (line : Line)
    (h : ∀ m ∈ channel.members, s.core.Live m) :
    (s.broadcastToChannel channel line).wire =
      s.wire.deliver (toAll channel.members.keys line) := by
  rw [wire_broadcastToChannel s channel line none h, filter_none]

theorem isMemberOperator_hasMember {c : Channel} {m : Fd} (h : c.isMemberOperator m = true) :
    c.hasMember m = true := by
  rw [hasMember_iff, ExtTreeMap.mem_iff_isSome_getElem?]
  unfold Channel.isMemberOperator at h
  cases hm : c.members[m]? with
  | none => rw [hm] at h; cases h
  | some flag => rfl

/-! ## JOIN -/

theorem announceJoin_spec (channel : Channel) (h : ∀ m ∈ channel.members, s.core.Live m) :
    (s.announceJoin fd channel).core = s.core ∧
      (s.announceJoin fd channel).wire = s.wire.deliver (s.core.joinSignals fd channel) := by
  unfold announceJoin Core.joinSignals Core.joinReplies
  dsimp only
  rw [client_source]
  cases htopic : channel.hasTopic with
  | true =>
    rw [if_pos rfl, if_pos rfl, sendChannelNames_eq _ _ _ (by simpa using h)]
    refine ⟨by simp, ?_⟩
    simp only [wire_sendNumeric, core_sendNumeric, core_broadcastToChannel,
      wire_broadcast s channel _ h, Wire.deliver_append]
    rfl
  | false =>
    rw [if_neg (by decide), if_neg (by decide), sendChannelNames_eq _ _ _ (by simpa using h)]
    refine ⟨by simp, ?_⟩
    simp only [wire_sendNumeric, core_sendNumeric, core_broadcastToChannel,
      wire_broadcast s channel _ h, Wire.deliver_append]
    rfl

theorem becomes_announced {E : Core → List Signal → Prop} (key : Text) (channel : Channel)
    (h : ∀ m ∈ channel.members, s.core.Live m)
    (hE : E (s.core.setChannel key channel) (s.core.joinSignals fd channel)) :
    s.Becomes ((s.setChannel key channel).announceJoin fd channel) E := by
  obtain ⟨hc, hw⟩ := (s.setChannel key channel).announceJoin_spec fd channel h
  refine ⟨_, ?_, hw⟩
  rw [hc]
  exact hE

theorem mem_addMember {c : Channel} {m x : Fd} {flag : Bool}
    (h : x ∈ (c.addMember m flag).members) : x = m ∨ x ∈ c.members := by
  unfold Channel.addMember at h
  split at h
  · exact Or.inr h
  · rw [ExtTreeMap.mem_insert, Std.compare_eq_iff_eq] at h
    rcases h with rfl | h
    · exact Or.inl rfl
    · exact Or.inr h

theorem handleJoin_effect (hlive : s.core.MembersLive) (hfd : s.core.Live fd)
    (hname : command.name = "JOIN".toList) :
    s.Becomes (s.handleJoin fd command) (Effect s.core fd command) := by
  unfold handleJoin
  dsimp only
  split
  · exact becomes_numeric _ _ _ _ _
  next hreg =>
  simp only [client_registered, Bool.not_eq_true', Bool.not_eq_false] at hreg
  split
  · exact becomes_numeric _ _ _ _ _
  next channelName rest hparams =>
  split
  · exact becomes_numeric _ _ _ _ _
  next htarget =>
  simp only [Bool.not_eq_true', Bool.not_eq_false] at htarget
  split
  · next hnone =>
    apply becomes_announced
    · intro m hm
      rcases mem_addMember hm with rfl | hm
      · exact hfd
      · exact absurd hm ExtTreeMap.not_mem_empty
    · exact .create channelName rest hname hparams hreg htarget hnone
  · next c hsome =>
    split
    · exact becomes_silent _ _ _
    next hmember =>
    split
    · exact becomes_numeric _ _ _ _ _
    next hinvite =>
    split
    · exact becomes_numeric _ _ _ _ _
    next hkey =>
    split
    · exact becomes_numeric _ _ _ _ _
    next hlimit =>
    rw [client_nickname] at hinvite ⊢
    apply becomes_announced
    · intro m hm
      rcases mem_addMember hm with rfl | hm
      · exact hfd
      · exact hlive _ c hsome m hm
    · refine .join channelName rest c hname hparams hreg htarget hsome (by simpa using hmember)
        ?_ ?_ ?_
      · intro h
        simpa [h] using hinvite
      · intro h
        simpa [h] using hkey
      · intro h
        simpa [h] using hlimit

/-! ## PRIVMSG, TOPIC, KICK, INVITE -/

theorem handlePrivmsg_effect (hlive : s.core.MembersLive)
    (hname : command.name = "PRIVMSG".toList) :
    s.Becomes (s.handlePrivmsg fd command) (Effect s.core fd command) := by
  unfold handlePrivmsg
  dsimp only
  split
  · exact becomes_numeric _ _ _ _ _
  next hreg =>
  simp only [client_registered, Bool.not_eq_true', Bool.not_eq_false] at hreg
  split
  · exact becomes_numeric _ _ _ _ _
  · exact becomes_numeric _ _ _ _ _
  next targetName text rest hparams =>
  split
  · next htarget =>
    split
    · exact becomes_numeric _ _ _ _ _
    next c hsome =>
    split
    · exact becomes_numeric _ _ _ _ _
    next hmember =>
    refine ⟨_, ?_, wire_broadcastToChannel s c _ (some fd) (hlive _ c hsome)⟩
    rw [core_broadcastToChannel, client_source]
    exact .privmsgChannel targetName text rest c hname hparams hreg htarget hsome
      (by simpa using hmember)
  · next htarget =>
    rw [findClientByNickname_eq]
    split
    · exact becomes_numeric _ _ _ _ _
    next target hholder =>
    refine ⟨[.line target _], ?_, wire_queueLine _ _ _⟩
    rw [core_queueLine, client_source, client_nickname]
    exact .privmsgUser targetName text rest target hname hparams hreg (by simpa using htarget)
      hholder

theorem handleTopic_effect (hlive : s.core.MembersLive) (hname : command.name = "TOPIC".toList) :
    s.Becomes (s.handleTopic fd command) (Effect s.core fd command) := by
  unfold handleTopic
  dsimp only
  split
  · exact becomes_numeric _ _ _ _ _
  next hreg =>
  simp only [client_registered, Bool.not_eq_true', Bool.not_eq_false] at hreg
  split
  · exact becomes_numeric _ _ _ _ _
  next channelName rest hparams =>
  split
  · exact becomes_numeric _ _ _ _ _
  next c hsome =>
  split
  · exact becomes_numeric _ _ _ _ _
  next hmember =>
  split
  · split <;> exact becomes_numeric _ _ _ _ _
  next newTopic rest =>
  split
  · exact becomes_numeric _ _ _ _ _
  next hrestricted =>
  refine ⟨_, ?_, wire_broadcast (s.setChannel _ _) (c.setTopic newTopic) _ (hlive _ c hsome)⟩
  rw [core_broadcastToChannel, client_source]
  refine .topic channelName newTopic rest c hname hparams hreg hsome (by simpa using hmember) ?_
  intro h
  simpa [h] using hrestricted

theorem removeMember_spec (key : Text) (c : Channel) (m : Fd) :
    (s.removeMemberFromChannel key c m).core = s.core.dropMember m key c ∧
      (s.removeMemberFromChannel key c m).wire = s.wire := by
  unfold removeMemberFromChannel Core.dropMember
  dsimp only
  split <;> exact ⟨rfl, rfl⟩

theorem handleKick_effect (hlive : s.core.MembersLive) (hname : command.name = "KICK".toList) :
    s.Becomes (s.handleKick fd command) (Effect s.core fd command) := by
  unfold handleKick
  dsimp only
  split
  · exact becomes_numeric _ _ _ _ _
  next hreg =>
  simp only [client_registered, Bool.not_eq_true', Bool.not_eq_false] at hreg
  split
  · next channelName targetNick rest hparams =>
    split
    · exact becomes_numeric _ _ _ _ _
    next c hsome =>
    split
    · exact becomes_numeric _ _ _ _ _
    split
    · exact becomes_numeric _ _ _ _ _
    next hop =>
    split
    · exact becomes_numeric _ _ _ _ _
    next target htarget =>
    rw [findClientByNickname_eq, Option.filter_eq_some_iff] at htarget
    obtain ⟨hc, hw⟩ := removeMember_spec
      (s.broadcastToChannel c (.relay (s.client fd).source
        (.kick channelName targetNick (rest.head?.getD (s.client fd).nickname))))
      (ircCaseFold channelName) c target
    rw [core_broadcastToChannel] at hc
    rw [wire_broadcast s c _ (hlive _ c hsome)] at hw
    refine ⟨_, ?_, hw⟩
    rw [hc, client_source, client_nickname]
    exact .kick channelName targetNick rest c target hname hparams hreg hsome (by simpa using hop)
      htarget.1 htarget.2
  · exact becomes_numeric _ _ _ _ _

theorem handleInvite_effect (hname : command.name = "INVITE".toList) :
    s.Becomes (s.handleInvite fd command) (Effect s.core fd command) := by
  unfold handleInvite
  dsimp only
  split
  · exact becomes_numeric _ _ _ _ _
  next hreg =>
  simp only [client_registered, Bool.not_eq_true', Bool.not_eq_false] at hreg
  split
  · next targetNick channelName rest hparams =>
    rw [findClientByNickname_eq]
    split
    · exact becomes_numeric _ _ _ _ _
    next target hholder =>
    split
    · exact becomes_numeric _ _ _ _ _
    next c hsome =>
    split
    · exact becomes_numeric _ _ _ _ _
    split
    · exact becomes_numeric _ _ _ _ _
    next hop =>
    split
    · exact becomes_numeric _ _ _ _ _
    next hmember =>
    have heffect : Effect s.core fd command _ _ := .invite targetNick channelName rest c target
      hname hparams hreg hholder hsome (by simpa using hop) (by simpa using hmember)
    have hcore : (((s.setChannel (ircCaseFold channelName) (c.addInvite targetNick)).sendNumeric fd
        "341".toList (.text (targetNick ++ " ".toList ++ channelName))).queueLine target
        (.relay (s.client fd).source (.invite targetNick channelName))).core =
        s.core.setChannel (ircCaseFold channelName) (c.addInvite targetNick) := by
      rw [core_queueLine, core_sendNumeric, core_setChannel]
    refine ⟨_, hcore ▸ heffect, ?_⟩
    rw [wire_queueLine, wire_sendNumeric, client_source]
    rfl
  · exact becomes_numeric _ _ _ _ _

end Server

end FtIrc
