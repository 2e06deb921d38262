import FtIrc.Handlers.Conversation

/-!
# The effects of MODE, and of every command
-/

namespace FtIrc

open Std

theorem mem_setMemberOperator {c : Channel} {m x : Fd} {enabled : Bool} :
    x ∈ (c.setMemberOperator m enabled).members ↔ x ∈ c.members := by
  unfold Channel.setMemberOperator
  split
  · next h =>
    rw [Server.hasMember_iff] at h
    rw [ExtTreeMap.mem_insert, Std.compare_eq_iff_eq]
    constructor
    · rintro (rfl | hx)
      · exact h
      · exact hx
    · exact Or.inr
  · exact Iff.rfl

/-- A mode change keeps the members. -/
theorem ModeApplied.mem_members {κ : Core} {change : ModeChange} {c c' : Channel}
    (h : ModeApplied κ change c c') (x : Fd) : x ∈ c'.members ↔ x ∈ c.members := by
  cases h with
  | setOperator => exact mem_setMemberOperator
  | _ => exact Iff.rfl

theorem setMemberOperator_name (c : Channel) (fd : Fd) (enabled : Bool) :
    (c.setMemberOperator fd enabled).name = c.name := by
  unfold Channel.setMemberOperator
  split <;> rfl

theorem setMemberOperator_topic (c : Channel) (fd : Fd) (enabled : Bool) :
    (c.setMemberOperator fd enabled).topic = c.topic := by
  unfold Channel.setMemberOperator
  split <;> rfl

/-- A mode change keeps the name and the topic. -/
theorem ModeApplied.name {κ : Core} {change : ModeChange} {c c' : Channel}
    (h : ModeApplied κ change c c') : c'.name = c.name ∧ c'.topic = c.topic := by
  cases h with
  | setOperator => exact ⟨setMemberOperator_name _ _ _, setMemberOperator_topic _ _ _⟩
  | _ => exact ⟨rfl, rfl⟩

theorem Core.membersLive_setChannel {κ : Core} (hlive : κ.MembersLive) (key : Text) {c : Channel}
    (hc : ∀ m ∈ c.members, κ.Live m) : (κ.setChannel key c).MembersLive := by
  intro k c₁ hk m hm
  unfold setChannel at hk
  simp only [ExtTreeMap.getElem?_insert, Std.compare_eq_iff_eq] at hk
  split at hk
  · cases hk
    exact hc m hm
  · exact hlive k c₁ hk m hm

namespace Server

variable (s : Server) (fd : Fd) (key : Text) (change : ModeChange)

/-- From `s` to `s'` by one change of a MODE line, in front of any later changes. -/
def ModeStep (s' : Server) : Prop :=
  s'.core.MembersLive ∧ ∃ signals, s'.wire = s.wire.deliver signals ∧
    ∀ changes κ' later, ModeRun fd key s'.core changes κ' later →
      ModeRun fd key s.core (change :: changes) κ' (signals ++ later)

theorem modeStep_unchanged (hlive : s.core.MembersLive) : s.ModeStep fd key change s :=
  ⟨hlive, [], rfl, fun _ _ _ h => .unchanged h⟩

theorem modeStep_refused (hlive : s.core.MembersLive) (numeric text : Text) :
    s.ModeStep fd key change (s.sendNumeric fd numeric (.text text)) := by
  refine ⟨by rw [core_sendNumeric]; exact hlive, [.line fd _], wire_sendNumeric _ _ _ _, ?_⟩
  intro changes κ' later h
  rw [core_sendNumeric] at h
  exact .refused _ rfl h

theorem modeStep_applied (hlive : s.core.MembersLive) {c c' : Channel}
    (hc : s.core.channels[key]? = some c) (h : ModeApplied s.core change c c') :
    s.ModeStep fd key change ((s.setChannel key c').broadcastModeChange fd c' change) := by
  have hmembers : ∀ m ∈ c'.members, s.core.Live m := fun m hm =>
    hlive key c hc m ((h.mem_members m).1 hm)
  unfold broadcastModeChange
  refine ⟨?_, _, wire_broadcast (s.setChannel key c') c' _ hmembers, ?_⟩
  · rw [core_broadcastToChannel]
    exact Core.membersLive_setChannel hlive key hmembers
  · intro changes κ' later hrun
    rw [core_broadcastToChannel] at hrun
    rw [client_source]
    exact .applied hc h hrun

section Change

variable {s fd key change} {c : Channel} (hlive : s.core.MembersLive) (hc : s.core.channels[key]? = some c)

include hlive hc

theorem applyInviteOnlyMode_step (hmode : change.mode = 'i') :
    s.ModeStep fd key change (s.applyInviteOnlyMode fd key c change) := by
  unfold applyInviteOnlyMode
  split
  · exact s.modeStep_unchanged fd key change hlive
  · next hne => exact s.modeStep_applied fd key change hlive hc (.inviteOnly hmode hne)

theorem applyTopicRestrictedMode_step (hmode : change.mode = 't') :
    s.ModeStep fd key change (s.applyTopicRestrictedMode fd key c change) := by
  unfold applyTopicRestrictedMode
  split
  · exact s.modeStep_unchanged fd key change hlive
  · next hne => exact s.modeStep_applied fd key change hlive hc (.topicRestricted hmode hne)

theorem applyKeyMode_step (hmode : change.mode = 'k') :
    s.ModeStep fd key change (s.applyKeyMode fd key c change) := by
  unfold applyKeyMode
  split
  · next hadding =>
    split
    · exact s.modeStep_refused fd key change hlive _ _
    next harg =>
    split
    · exact s.modeStep_unchanged fd key change hlive
    next hsame =>
    refine s.modeStep_applied fd key change hlive hc (.setKey hmode hadding (fun h => harg (by rw [h]; rfl)) ?_)
    rintro ⟨hkey, heq⟩
    exact hsame (by rw [hkey, heq]; simp)
  · next hadding =>
    split
    · exact s.modeStep_unchanged fd key change hlive
    · next hkey =>
      exact s.modeStep_applied fd key change hlive hc
        (.removeKey hmode (by simpa using hadding) (by simpa using hkey))

theorem applyOperatorMode_step (hmode : change.mode = 'o') :
    s.ModeStep fd key change (s.applyOperatorMode fd key c change) := by
  unfold applyOperatorMode
  rw [findClientByNickname_eq]
  split
  · exact s.modeStep_refused fd key change hlive _ _
  next target htarget =>
  split
  · exact s.modeStep_refused fd key change hlive _ _
  next hmember =>
  split
  · exact s.modeStep_unchanged fd key change hlive
  · next hne =>
    exact s.modeStep_applied fd key change hlive hc
      (.setOperator target hmode htarget (by simpa using hmember) hne)

theorem applyUserLimitMode_step (hmode : change.mode = 'l') :
    s.ModeStep fd key change (s.applyUserLimitMode fd key c change) := by
  unfold applyUserLimitMode
  split
  · next hadding =>
    split
    · exact s.modeStep_refused fd key change hlive _ _
    next limit hparse =>
    split
    · exact s.modeStep_unchanged fd key change hlive
    next hsame =>
    refine s.modeStep_applied fd key change hlive hc (.setUserLimit limit hmode hadding hparse ?_)
    rintro ⟨hlimit, heq⟩
    exact hsame (by rw [hlimit, heq]; simp)
  · next hadding =>
    split
    · exact s.modeStep_unchanged fd key change hlive
    · next hlimit =>
      exact s.modeStep_applied fd key change hlive hc
        (.removeUserLimit hmode (by simpa using hadding) (by simpa using hlimit))

end Change

theorem applyChannelModeChange_step (hlive : s.core.MembersLive) :
    s.ModeStep fd key change (s.applyChannelModeChange fd key change) := by
  unfold applyChannelModeChange
  split
  · exact s.modeStep_unchanged fd key change hlive
  next c hc =>
  split
  · next hmode => exact applyInviteOnlyMode_step hlive hc hmode
  split
  · next hmode => exact applyTopicRestrictedMode_step hlive hc hmode
  split
  · next hmode => exact applyKeyMode_step hlive hc hmode
  split
  · next hmode => exact applyOperatorMode_step hlive hc hmode
  split
  · next hmode => exact applyUserLimitMode_step hlive hc hmode
  · exact s.modeStep_refused fd key change hlive _ _

theorem applyChanges_run (hlive : s.core.MembersLive) (changes : List ModeChange) :
    ∃ signals,
      ModeRun fd key s.core changes
        (changes.foldl (fun s change => s.applyChannelModeChange fd key change) s).core signals ∧
      (changes.foldl (fun s change => s.applyChannelModeChange fd key change) s).wire =
        s.wire.deliver signals := by
  induction changes generalizing s with
  | nil => exact ⟨[], .nil _, rfl⟩
  | cons change changes ih =>
    obtain ⟨hlive₁, now, hnow, hrun⟩ := s.applyChannelModeChange_step fd key change hlive
    obtain ⟨later, hlater, hwire⟩ := ih (s.applyChannelModeChange fd key change) hlive₁
    refine ⟨now ++ later, hrun _ _ _ hlater, ?_⟩
    rw [List.foldl_cons, hwire, hnow, Wire.deliver_append]

theorem handleMode_effect (command : Command) (hlive : s.core.MembersLive)
    (hname : command.name = "MODE".toList) :
    s.Becomes (s.handleMode fd command) (Effect s.core fd command) := by
  unfold handleMode
  split
  · exact becomes_numeric _ _ _ _ _
  next hreg =>
  simp only [client_registered, Bool.not_eq_true', Bool.not_eq_false] at hreg
  split
  · exact becomes_numeric _ _ _ _ _
  next target rest hparams =>
  split
  · exact becomes_silent _ _ _
  split
  · exact becomes_numeric _ _ _ _ _
  next c hsome =>
  split
  · exact becomes_silent _ _ _
  split
  · exact becomes_numeric _ _ _ _ _
  next hop =>
  split
  · exact becomes_silent _ _ _
  next changes hchanges =>
  obtain ⟨signals, hrun, hwire⟩ := s.applyChanges_run fd (ircCaseFold target) hlive changes
  exact ⟨signals, .mode target rest c changes _ _ hname hparams hreg hsome (by simpa using hop)
    hchanges hrun, hwire⟩

/-- What holds after each handler holds after `dispatchCommand`. -/
theorem dispatchCommand_cases (command : Command) {P : Server → Prop}
    (ping : command.name = "PING".toList → P (s.handlePing fd command))
    (quit : command.name = "QUIT".toList → P (s.handleQuit fd command))
    (cap : command.name = "CAP".toList → P (s.handleCap fd command))
    (pass : command.name = "PASS".toList → P (s.handlePass fd command))
    (user : command.name = "USER".toList → P (s.handleUser fd command))
    (nick : command.name = "NICK".toList → P (s.handleNick fd command))
    (privmsg : command.name = "PRIVMSG".toList → P (s.handlePrivmsg fd command))
    (join : command.name = "JOIN".toList → P (s.handleJoin fd command))
    (topic : command.name = "TOPIC".toList → P (s.handleTopic fd command))
    (kick : command.name = "KICK".toList → P (s.handleKick fd command))
    (invite : command.name = "INVITE".toList → P (s.handleInvite fd command))
    (mode : command.name = "MODE".toList → P (s.handleMode fd command))
    (unknown : command.name ∉ ["PING".toList, "QUIT".toList, "CAP".toList, "PASS".toList, "USER".toList,
      "NICK".toList, "PRIVMSG".toList, "JOIN".toList, "TOPIC".toList, "KICK".toList, "INVITE".toList,
      "MODE".toList] → P (s.handleUnknownCommand fd command)) :
    P (s.dispatchCommand fd command) := by
  unfold dispatchCommand
  by_cases hping : command.name = "PING".toList
  · rw [if_pos hping]
    exact ping hping
  rw [if_neg hping]
  by_cases hquit : command.name = "QUIT".toList
  · rw [if_pos hquit]
    exact quit hquit
  rw [if_neg hquit]
  by_cases hcap : command.name = "CAP".toList
  · rw [if_pos hcap]
    exact cap hcap
  rw [if_neg hcap]
  by_cases hpass : command.name = "PASS".toList
  · rw [if_pos hpass]
    exact pass hpass
  rw [if_neg hpass]
  by_cases huser : command.name = "USER".toList
  · rw [if_pos huser]
    exact user huser
  rw [if_neg huser]
  by_cases hnick : command.name = "NICK".toList
  · rw [if_pos hnick]
    exact nick hnick
  rw [if_neg hnick]
  by_cases hprivmsg : command.name = "PRIVMSG".toList
  · rw [if_pos hprivmsg]
    exact privmsg hprivmsg
  rw [if_neg hprivmsg]
  by_cases hjoin : command.name = "JOIN".toList
  · rw [if_pos hjoin]
    exact join hjoin
  rw [if_neg hjoin]
  by_cases htopic : command.name = "TOPIC".toList
  · rw [if_pos htopic]
    exact topic htopic
  rw [if_neg htopic]
  by_cases hkick : command.name = "KICK".toList
  · rw [if_pos hkick]
    exact kick hkick
  rw [if_neg hkick]
  by_cases hinvite : command.name = "INVITE".toList
  · rw [if_pos hinvite]
    exact invite hinvite
  rw [if_neg hinvite]
  by_cases hmode : command.name = "MODE".toList
  · rw [if_pos hmode]
    exact mode hmode
  rw [if_neg hmode]
  refine unknown ?_
  simp only [List.mem_cons, List.not_mem_nil, or_false, not_or]
  exact ⟨hping, hquit, hcap, hpass, huser, hnick, hprivmsg, hjoin, htopic, hkick, hinvite, hmode⟩

/-- **Every command has one of the listed effects.** -/
theorem dispatchCommand_effect (command : Command) (hlive : s.core.MembersLive)
    (hfd : s.core.Live fd) :
    s.Becomes (s.dispatchCommand fd command) (Effect s.core fd command) := by
  refine s.dispatchCommand_cases fd command (P := fun s' => s.Becomes s' (Effect s.core fd command))
    ?_ ?_ ?_ ?_ ?_ ?_ ?_ ?_ ?_ ?_ ?_ ?_ ?_
  · exact fun _ => s.handlePing_effect fd command
  · exact s.handleQuit_effect fd command
  · exact fun _ => s.handleCap_effect fd command
  · exact s.handlePass_effect fd command
  · exact s.handleUser_effect fd command
  · exact s.handleNick_effect fd command hlive hfd
  · exact s.handlePrivmsg_effect fd command hlive
  · exact s.handleJoin_effect fd command hlive hfd
  · exact s.handleTopic_effect fd command hlive
  · exact s.handleKick_effect fd command hlive
  · exact s.handleInvite_effect fd command
  · exact s.handleMode_effect fd command hlive
  · exact fun _ => s.handleUnknownCommand_effect fd command

end Server

end FtIrc
