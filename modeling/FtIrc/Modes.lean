import FtIrc.Relays
import FtIrc.Settings

/-!
# What a MODE line leaves

A MODE line that is accepted writes settings of one channel.  The last acceptable change of a
setting wins, the changes that are announced lead to the same channel when they are replayed,
and the line handled a second time changes nothing.
-/

namespace FtIrc

open Std

/-! ## Keys and limits that are not set -/

theorem ModeApplied.cleared {κ : Core} {change : ModeChange} {c c' : Channel}
    (happ : ModeApplied κ change c c') (h : c.Cleared) : c'.Cleared := by
  cases happ with
  | inviteOnly => exact h.write (.inviteOnly _)
  | topicRestricted => exact h.write (.topicRestricted _)
  | setKey => exact h.write (.key (some _))
  | removeKey => exact h.write (.key none)
  | setOperator target => exact h.write (.operator target _)
  | setUserLimit limit => exact h.write (.userLimit (some limit))
  | removeUserLimit => exact h.write (.userLimit none)

theorem ModeChain.cleared {κ : Core} {changes : List ModeChange} {c c' : Channel}
    (hchain : ModeChain κ changes c c') (h : c.Cleared) : c'.Cleared := by
  induction hchain with
  | refl => exact h
  | tail _ hstep ih =>
    obtain ⟨_, -, happ⟩ := hstep
    exact happ.cleared ih

namespace Server

variable {s s' s'' : Server} {e : Event} {A : Fd} {line target : Text} {rest : List Text} {c : Channel}
  {changes effective : List ModeChange}

theorem Reachable.cleared (h : Reachable s) :
    ∀ (key : Text) (c : Channel), s.channels[key]? = some c → c.Cleared := by
  refine h.invariant (I := fun s => ∀ (key : Text) (c : Channel), s.channels[key]? = some c → c.Cleared) ?_ ?_
  · intro listenerFd password key c hc
    have hnone : (Server.start listenerFd password).channels[key]? = none := ExtTreeMap.getElem?_empty
    cases hnone.symm.trans hc
  intro s e s' hr ih hs key c' hc'
  rcases hr.channel_cases hs hc' with hsame | ⟨fd, c, hc, rfl⟩ | ⟨A, line, rfl, -, hmove⟩
  · exact ih key c' hsame
  · exact ⟨(ih key c hc).key, (ih key c hc).userLimit⟩
  generalize hx : s.channels[key]? = x at hmove
  generalize hy : some c' = y at hmove
  cases hmove with
  | same => exact ih key c' (hx.trans hy.symm)
  | rename c =>
    cases hy
    rw [Core.renameInvite_kept]
    exact ⟨(ih key c hx).key, (ih key c hx).userLimit⟩
  | create =>
    cases hy
    exact ⟨fun _ => rfl, fun _ => rfl⟩
  | join _ _ c _ _ _ _ hmem =>
    cases hy
    rw [Channel.addMember_eq hmem]
    exact ⟨(ih key c hx).key, (ih key c hx).userLimit⟩
  | topic _ _ _ c =>
    cases hy
    exact ⟨(ih key c hx).key, (ih key c hx).userLimit⟩
  | kick _ _ _ c =>
    split at hy
    · cases hy
    · cases hy
      exact ⟨(ih key c hx).key, (ih key c hx).userLimit⟩
  | invite _ _ _ c =>
    cases hy
    exact ⟨(ih key c hx).key, (ih key c hx).userLimit⟩
  | mode _ _ _ c _ _ _ _ _ _ hchain =>
    cases hy
    exact hchain.cleared (ih key c hx)

/-! ## Replaying what is announced -/

/-- A change that alters the channel writes a setting that has another value. -/
theorem apply_ne {κ : Core} {change : ModeChange} (h : c.apply κ change ≠ c) :
    ∃ w, change.writes κ c = some w ∧ c.apply κ change = c.write w := by
  unfold Channel.apply at h ⊢
  cases hw : change.writes κ c with
  | none => rw [hw] at h; exact absurd rfl h
  | some w =>
    rw [hw, Option.elim_some] at h
    rw [Option.elim_some]
    unfold Channel.revise at h ⊢
    split at h
    · exact absurd rfl h
    · next hne => exact ⟨w, rfl, if_neg hne⟩

theorem Effective.replay {fd : Fd} {key : Text} (h : Effective fd key s changes effective)
    (hc : s.core.channels[key]? = some c) :
    changes.foldl (Channel.apply s.core) c =
      (effective.filterMap (·.writes s.core c)).foldl Channel.write c ∧
    ∀ change ∈ effective, (change.writes s.core c).isSome = true := by
  have hafter (t : Server) (b : Channel) (change : ModeChange) (hb : t.core.channels[key]? = some b) :
      (t.applyChannelModeChange fd key change).core.channels[key]? = some (b.apply t.core change) := by
    rw [core_applyChannelModeChange hb, Core.getElem?_setChannel, if_pos rfl]
  induction h generalizing c with
  | nil => exact ⟨rfl, fun change hchange => absurd hchange List.not_mem_nil⟩
  | @idle s change changes effective hsame _ ih =>
    have happly : c.apply s.core change = c :=
      Option.some.inj ((hafter s c change hc).symm.trans (hsame.trans hc))
    have hcore : (s.applyChannelModeChange fd key change).core = s.core := by
      rw [core_applyChannelModeChange hc, happly, Core.setChannel_self hc]
    rw [hcore] at ih
    rw [List.foldl_cons, happly]
    exact ih hc
  | @applied s change changes effective hne _ ih =>
    have hnot : c.apply s.core change ≠ c := fun heq =>
      hne ((hafter s c change hc).trans ((congrArg some heq).trans hc.symm))
    obtain ⟨w, hw, happly⟩ := apply_ne hnot
    have hlater (later : ModeChange) :
        later.writes (s.applyChannelModeChange fd key change).core (c.apply s.core change) =
          later.writes s.core c := by
      rw [core_applyChannelModeChange hc]
      exact later.writes_congr (κ := s.core) (Channel.apply_kept s.core c change).2.2.2
    obtain ⟨hfold, hall⟩ := ih (hafter s c change hc)
    simp only [hlater] at hfold hall
    refine ⟨?_, List.forall_mem_cons.2 ⟨by rw [hw]; rfl, hall⟩⟩
    rw [List.foldl_cons, List.filterMap_cons_some hw, List.foldl_cons, ← happly, ← hfold]
    have happlies : Channel.apply (s.applyChannelModeChange fd key change).core = Channel.apply s.core := by
      rw [core_applyChannelModeChange hc]
      rfl
    rw [happlies]

/-! ## The same line again -/

theorem core_handleMode_of_not_operator {command : Command} (hparams : command.parameters = target :: rest)
    (hc : s.findChannel target = some c) (hop : c.isMemberOperator A = false) :
    (s.handleMode A command).core = s.core := by
  unfold handleMode
  rw [hparams]
  dsimp only
  rw [hc]
  split
  · exact core_sendNumeric _ _ _ _
  split
  · rfl
  dsimp only
  split
  · rfl
  · rw [hop]
    exact core_sendNumeric _ _ _ _

/-- The core that a MODE line of an operator leaves. -/
theorem Step.core_mode (hs : s.Step (.line A line) s') (h : s.core.Ok)
    (hparse : Command.parse line = ⟨true, "MODE".toList, target :: rest⟩)
    (hc : s.findChannel target = some c) (hop : c.isMemberOperator A = true)
    (hchanges : parseChannelModeChanges (target :: rest) = some changes) :
    s'.core = s.core.setChannel (ircCaseFold target) (changes.foldl (Channel.apply s.core) c) := by
  obtain ⟨t, hcore, -, -, rfl⟩ := hs.handled (by rw [hparse])
  rw [hparse, dispatchCommand_mode rfl, handleMode_operator (hcore ▸ h) rfl
    ((findChannel_congr hcore target).trans hc) hop hchanges, core_applyChannelModeChanges (by rw [hcore]; exact hc),
    hcore]

/-- An operator's MODE line, handled again. -/
theorem Reachable.mode_twice (h : Reachable s) (hs : s.Step (.line A line) s')
    (hparse : Command.parse line = ⟨true, "MODE".toList, target :: rest⟩)
    (hc : s.findChannel target = some c) (hop : c.isMemberOperator A = true)
    (hchanges : parseChannelModeChanges (target :: rest) = some changes)
    (hs' : s'.Step (.line A line) s'') : s''.core = s'.core := by
  have hcore := hs.core_mode h.ok hparse hc hop hchanges
  have hc' : s'.findChannel target = some (changes.foldl (Channel.apply s.core) c) := by
    rw [findChannel_eq, hcore, Core.getElem?_setChannel, if_pos rfl]
  have happlies : Channel.apply s'.core = Channel.apply s.core := by
    rw [hcore]
    rfl
  cases hop' : (changes.foldl (Channel.apply s.core) c).isMemberOperator A with
  | true =>
    rw [hs'.core_mode (h.step hs).ok hparse hc' hop' hchanges, happlies,
      Channel.foldl_apply_twice (h.cleared _ c hc)]
    exact Core.setChannel_self hc'
  | false =>
    obtain ⟨t, htcore, -, -, rfl⟩ := hs'.handled (by rw [hparse])
    rw [hparse, dispatchCommand_mode rfl, core_handleMode_of_not_operator rfl
      ((findChannel_congr htcore target).trans hc') hop', htcore]

/-- **The last acceptable change of each mode wins, and what is announced replays it.** -/
theorem mode_semantics (h : Reachable s) (hs : s.Step (.line A line) s')
    (hparse : Command.parse line = ⟨true, "MODE".toList, target :: rest⟩)
    (hc : s.findChannel target = some c) (hop : c.isMemberOperator A = true)
    (hchanges : parseChannelModeChanges (target :: rest) = some changes) :
    ∃ c', s'.findChannel target = some c' ∧
      (∀ setting, c'.read setting =
        (Writes.last ModeWrite.setting ModeWrite.value (changes.filterMap (·.writes s.core c)) setting).getD
          (c.read setting)) ∧
      (∃ effective, Effective A (ircCaseFold target) s changes effective ∧
        s.Relayed s' A (· ∈ c.members)
          (effective.map fun change => .relay (s.client A).source (.mode c.name change)) ∧
        c' = (effective.filterMap (·.writes s.core c)).foldl Channel.write c ∧
        ∀ change ∈ effective, (change.writes s.core c).isSome = true) ∧
      (∀ m, m ∈ c'.members ↔ m ∈ c.members) ∧ c'.name = c.name ∧ c'.topic = c.topic ∧
      c'.invitedUsers = c.invitedUsers ∧
      (∀ key, ircCaseFold target ≠ key → s'.channels[key]? = s.channels[key]?) ∧
      s'.nicknameIndex = s.nicknameIndex ∧
      ∀ s'', s'.Step (.line A line) s'' → s''.core = s'.core := by
  have hcore := hs.core_mode h.ok hparse hc hop hchanges
  obtain ⟨effective, heffective⟩ := exists_effective s A (ircCaseFold target) changes
  obtain ⟨hreplay, hall⟩ := heffective.replay hc
  obtain ⟨hname, htopic, hinvited, hmembers⟩ := Channel.foldl_apply_kept (κ := s.core) (c := c) changes
  refine ⟨changes.foldl (Channel.apply s.core) c, ?_, Channel.read_foldl_apply changes,
    ⟨effective, heffective, ?_, hreplay, hall⟩, hmembers, hname, htopic, hinvited, fun key hkey => ?_, ?_,
    fun s'' => h.mode_twice hs hparse hc hop hchanges⟩
  · rw [findChannel_eq, hcore, Core.getElem?_setChannel, if_pos rfl]
  · exact h.mode_relayed hs (by rw [hparse]) (by rw [hparse]) (by rw [hparse]) hc hop (by rw [hparse]; exact hchanges)
      heffective
  · refine (congrArg (fun κ : Core => κ.channels[key]?) hcore).trans ?_
    rw [Core.getElem?_setChannel, if_neg hkey]
    rfl
  · exact congrArg Core.nicknameIndex hcore

/-- `bob`, on 4, sets two limits on `#c`, and clears the flag in between. -/
theorem mode_semantics_session :
    ∃ s' c', session.Step (.line 4 "MODE #C +l-i+l 5 7".toList) s' ∧
      s'.findChannel "#C".toList = some c' ∧ c'.read .userLimit = .limit (some 7) ∧
      c'.read .inviteOnly = .enabled false := by
  have hview : (session.step (.line 4 "MODE #C +l-i+l 5 7".toList)).isSome = true ∧
      (session.findChannel "#C".toList).any (·.isMemberOperator 4) = true := by decide +kernel
  have hr := session_reachable
  generalize session = s at *
  obtain ⟨s', hs⟩ := Option.isSome_iff_exists.1 hview.1
  obtain ⟨c, hc, hop⟩ := (Option.any_eq_true _ _).1 hview.2
  obtain ⟨c', hc', hread, -⟩ := mode_semantics hr hs
    (show Command.parse "MODE #C +l-i+l 5 7".toList = ⟨true, "MODE".toList,
      ["#C".toList, "+l-i+l".toList, "5".toList, "7".toList]⟩ by decide) hc hop
    (show parseChannelModeChanges _ = some
      [⟨true, 'l', true, "5".toList⟩, ⟨false, 'i', false, []⟩, ⟨true, 'l', true, "7".toList⟩] by decide)
  exact ⟨s', c', hs, hc', (hread _).trans rfl, (hread _).trans rfl⟩

end Server

end FtIrc
