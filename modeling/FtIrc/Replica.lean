import FtIrc.Agreement

/-!
# The settings of a channel, at a distance

The topic and the modes of a channel are told to its members by the TOPIC and MODE relays only.
From the terms at one time and the events that are relayed to a member the terms at any later
time can be told (`Server.settings_view`): each event has all that the command changed, and the
events come in the order of the changes.  They are taken as the events the lines were rendered
from; from the text alone not every argument of a mode can be read back.
-/

namespace FtIrc

open Std

/-! ## What an event changes -/

structure Terms where
  topic : Text
  inviteOnly : Bool
  topicRestricted : Bool
  key : Option Text
  userLimit : Option Nat
deriving DecidableEq

def Channel.terms (c : Channel) : Terms where
  topic := c.topic
  inviteOnly := c.inviteOnly
  topicRestricted := c.topicRestricted
  key := if c.hasKey then some c.key else none
  userLimit := if c.hasUserLimit then some c.userLimit else none

namespace Terms

variable (terms : Terms)

/-- The terms after an announced mode change. -/
def change (change : ModeChange) : Terms :=
  if change.mode = 'i' then { terms with inviteOnly := change.adding }
  else if change.mode = 't' then { terms with topicRestricted := change.adding }
  else if change.mode = 'k' then
    { terms with key := if change.adding then some change.argument else none }
  else if change.mode = 'l' then
    { terms with
      userLimit := if change.adding then Server.parsePositiveUserLimit change.argument else none }
  else terms

/-- The terms after the event a line about the channel was rendered from. -/
def hear : Line → Terms
  | .relay _ (.topic _ topic) => { terms with topic := topic }
  | .relay _ (.mode _ change) => terms.change change
  | _ => terms

end Terms

namespace Line

/-- A line that tells a setting. -/
def isNotice : Line → Bool
  | .relay _ (.topic ..) => true
  | .relay _ (.mode ..) => true
  | _ => false

end Line

section Hearing

variable {terms : Terms} {lines : List Line} {line : Line}

theorem Terms.hear_other (h : line.isNotice = false) : terms.hear line = terms := by
  cases line with
  | relay source event => cases event <;> first | rfl | cases h
  | _ => rfl

theorem Terms.hear_others (h : ∀ line ∈ lines, line.isNotice = false) :
    lines.foldl Terms.hear terms = terms := by
  induction lines with
  | nil => rfl
  | cons line lines ih =>
    rw [List.foldl_cons, hear_other (h line List.mem_cons_self)]
    exact ih fun l hl => h l (List.mem_cons_of_mem _ hl)

end Hearing

/-! ## MODE -/

section Mode

variable {κ κ' : Core} {fd A : Fd} {key target : Text} {change : ModeChange} {c c' : Channel}

/-- The relay tells the change that was applied. -/
theorem ModeApplied.terms (h : ModeApplied κ change c c') : c'.terms = c.terms.change change := by
  cases h with
  | inviteOnly hmode =>
    simp only [Terms.change, hmode, if_true]
    rfl
  | topicRestricted hmode =>
    simp only [Terms.change, hmode, Char.reduceEq, if_true, if_false]
    rfl
  | setKey hmode hadding =>
    simp only [Terms.change, hmode, hadding, Char.reduceEq, if_true, if_false]
    rfl
  | removeKey hmode hadding =>
    simp only [Terms.change, hmode, hadding, Char.reduceEq, if_true, if_false, Bool.false_eq_true]
    rfl
  | setOperator member hmode _ hmem =>
    simp only [Terms.change, hmode, Char.reduceEq, if_false]
    rw [Channel.setMemberOperator_eq ((Server.hasMember_iff c member).1 hmem)]
    rfl
  | setUserLimit limit hmode hadding hlimit =>
    simp only [Terms.change, hmode, hadding, hlimit, Char.reduceEq, if_true, if_false]
    rfl
  | removeUserLimit hmode hadding =>
    simp only [Terms.change, hmode, hadding, Char.reduceEq, if_true, if_false, Bool.false_eq_true]
    rfl

theorem ModeRun.terms {changes : List ModeChange} {signals : List Signal}
    (h : ModeRun fd target κ changes κ' signals)
    (hname : ∀ d, κ.channels[target]? = some d → ircCaseFold d.name = target)
    (hc : κ.channels[key]? = some c) (hc' : κ'.channels[key]? = some c') (hA : A ∈ c.members) :
    c'.terms = (remarks key A signals).foldl Terms.hear c.terms := by
  induction h generalizing c with
  | nil =>
    rw [hc] at hc'
    cases hc'
    rfl
  | @refused _ _ _ _ signals line hreply _ ih =>
    show _ = (remarks key A ([.line fd line] ++ signals)).foldl _ _
    rw [remarks_append, remarks_line (Line.isAbout_of_isReply hreply)]
    exact ih hname hc hc' hA
  | unchanged _ ih => exact ih hname hc hc' hA
  | @applied κ _ change _ signals d d' hd happ _ ih =>
    have hfold : ircCaseFold d'.name = target := by
      rw [happ.name.1]
      exact hname d hd
    have hname' : ∀ b, (κ.setChannel target d').channels[target]? = some b →
        ircCaseFold b.name = target := by
      intro b hb
      rw [Core.getElem?_setChannel, if_pos rfl] at hb
      cases hb
      exact hfold
    rw [remarks_append, List.foldl_append]
    by_cases hkey : target = key
    · subst hkey
      rw [hd] at hc
      cases hc
      have hmem : A ∈ d'.members := (happ.mem_members A).2 hA
      rw [remarks_toAll ExtTreeMap.nodup_keys fun _ => ExtTreeMap.mem_keys.2 hmem]
      have hheard : ([Line.relay (κ.who fd).source (.mode d'.name change)].filter
          (Line.isAbout target)).foldl Terms.hear d.terms = d'.terms := by
        rw [happ.terms]
        simp [Line.isAbout, Relay.about, hfold, Terms.hear]
      rw [hheard]
      exact ih hname' (by rw [Core.getElem?_setChannel, if_pos rfl]) hc' hmem
    · rw [remarks_toAll_of_other (by simp [Line.isAbout, Relay.about, hfold, hkey])]
      exact ih hname' (by rw [Core.getElem?_setChannel, if_neg hkey]; exact hc) hc' hA

end Mode

/-! ## Every command -/

theorem ChannelMove.terms {κ κ' : Core} {fd : Fd} {command : Command} {key : Text}
    {x x' : Option Channel} {c c' : Channel} (h : ChannelMove κ κ' fd command key x x')
    (hx : x = some c) (hx' : x' = some c') (htopic : command.name ≠ "TOPIC".toList)
    (hmode : command.name ≠ "MODE".toList) : c'.terms = c.terms := by
  cases h with
  | same =>
    cases hx.symm.trans hx'
    rfl
  | rename d nickname =>
    cases hx
    cases hx'
    unfold Server.renameInvite
    split <;> rfl
  | create => cases hx
  | join channelName rest d _ _ _ _ hm =>
    cases hx
    cases hx'
    rw [Channel.addMember_eq hm]
    rfl
  | topic _ _ _ d hname => exact absurd hname htopic
  | kick _ _ _ d target =>
    cases hx
    rw [mem_of_kept hx']
    rfl
  | invite =>
    cases hx
    cases hx'
    rfl
  | mode _ _ _ d d' hname => exact absurd hname hmode

namespace Server

variable {s s' : Server} {e : Event} {fd A : Fd} {command : Command} {key name : Text}
  {c c' : Channel}

/-- Only TOPIC and MODE tell a setting. -/
theorem notice_of_effect {κ' : Core} {signals : List Signal} (he : Effect s.core fd command κ' signals)
    (htopic : command.name ≠ "TOPIC".toList) (hmode : command.name ≠ "MODE".toList) :
    ∀ line ∈ remarks key A signals, line.isNotice = false := by
  intro line hline
  have hmem := mem_linesFor.1 (List.mem_of_mem_filter hline)
  cases line with
  | relay source event =>
    obtain ⟨-, htold⟩ := told he hmem
    cases htold with
    | topic _ _ _ _ hname => exact absurd hname htopic
    | mode _ _ _ _ _ _ _ hname => exact absurd hname hmode
    | _ => rfl
  | _ => rfl

/-- **A member reads what a command does to the settings of its channel.** -/
theorem terms_effect {κ' : Core} {signals : List Signal} (he : Effect s.core fd command κ' signals)
    (hok : s.core.Ok) (hlive : s.core.Live fd) (hc : s.core.channels[key]? = some c)
    (hc' : κ'.channels[key]? = some c') (hA : A ∈ c.members) :
    c'.terms = (remarks key A signals).foldl Terms.hear c.terms := by
  have hother {verb : Text} (hname : command.name = verb) (htopic : verb ≠ "TOPIC".toList)
      (hmode : verb ≠ "MODE".toList) :
      c'.terms = (remarks key A signals).foldl Terms.hear c.terms := by
    rw [← hname] at htopic hmode
    rw [Terms.hear_others (notice_of_effect he htopic hmode)]
    exact (he.channelMove hok hlive key).terms hc hc' htopic hmode
  have hkept (hsame : c' = c) (hnothing : remarks key A signals = []) :
      c'.terms = (remarks key A signals).foldl Terms.hear c.terms := by
    rw [hsame, hnothing]
    rfl
  cases he with
  | silent => exact hkept (Option.some.inj (hc'.symm.trans hc)) rfl
  | reply line hreply =>
    exact hkept (Option.some.inj (hc'.symm.trans hc)) (remarks_line (Line.isAbout_of_isReply hreply))
  | quit hname => exact hother hname (by decide) (by decide)
  | pass hname => exact hother hname (by decide) (by decide)
  | user _ _ _ _ _ hname => exact hother hname (by decide) (by decide)
  | nick _ _ _ hname => exact hother hname (by decide) (by decide)
  | create _ _ hname => exact hother hname (by decide) (by decide)
  | join _ _ _ hname => exact hother hname (by decide) (by decide)
  | privmsgChannel _ _ _ _ hname => exact hother hname (by decide) (by decide)
  | privmsgUser _ _ _ _ hname => exact hother hname (by decide) (by decide)
  | kick _ _ _ _ _ hname => exact hother hname (by decide) (by decide)
  | invite _ _ _ _ _ hname => exact hother hname (by decide) (by decide)
  | topic channelName newTopic rest d _ _ _ hd =>
    rw [Core.getElem?_setChannel] at hc'
    by_cases hkey : ircCaseFold channelName = key
    · rw [if_pos hkey] at hc'
      cases hc'
      rw [hkey, hc] at hd
      cases hd
      rw [remarks_toAll ExtTreeMap.nodup_keys fun _ => ExtTreeMap.mem_keys.2 hA,
        List.filter_cons_of_pos (by simp [Line.isAbout, Relay.about, hkey])]
      rfl
    · rw [if_neg hkey] at hc'
      exact hkept (Option.some.inj (hc'.symm.trans hc))
        (remarks_toAll_of_other (by simp [Line.isAbout, Relay.about, hkey]))
  | mode target rest d changes κ' signals _ _ _ _ _ _ hrun =>
    exact hrun.terms (fun d' hd' => (hok.channel _ d' hd').key) hc hc' hA

/-- The channel, and what a member has been queued about it, after a step. -/
theorem Takes.settings {i : Input} (h : s.Takes i s') (hr : Reachable s) (hs : s.Step e s')
    (hfits : i.Fits s.core) (hA : s.Attends name A) (hA' : s'.Attends name A)
    (hc : s.findChannel name = some c) (hc' : s'.findChannel name = some c') :
    ∃ lines, FtIrc.stream s'.log A = FtIrc.stream s.log A ++ lines ∧
      c'.terms = (lines.filter (Line.isAbout (ircCaseFold name))).foldl Terms.hear c.terms := by
  have hchannel : (s.core.respond i).1.channels[ircCaseFold name]? = some c' := by
    rw [← h.core]
    exact hc'
  refine ⟨_, h.stream hr hs hfits hA hA', ?_⟩
  cases i with
  | connect x =>
    have hsame : s.core.channels[ircCaseFold name]? = some c' := hchannel
    rw [show s.core.channels[ircCaseFold name]? = some c from hc] at hsame
    cases hsame
    rfl
  | command x command =>
    obtain ⟨-, d, hd, hmem⟩ := hA
    rw [hc] at hd
    cases hd
    obtain ⟨signals, heffect, hlines⟩ := dispatch_effect hr.ok.membersLive hfits command
    show _ = ((linesOf A ((s.core.dispatch x command).2.filterMap Signal.utterance)).filter _).foldl _ _
    rw [← linesFor_eq, ← hlines]
    exact terms_effect heffect hr.ok hfits hc hchannel hmem
  | disconnect x reason =>
    have hpurged : (s.core.disconnect x).channels[ircCaseFold name]? = some c' := hchannel
    rw [Core.getElem?_disconnect, show s.core.channels[ircCaseFold name]? = some c from hc] at hpurged
    obtain ⟨rfl, -⟩ := Core.purgeChannel_eq_some.1 hpurged
    show _ = ((linesOf A ((s.core.quitSignals x reason).filterMap Signal.utterance)).filter _).foldl _ _
    rw [remarks_eq, remarks_quitSignals]
    rfl

theorem Reachable.settings_step (hr : Reachable s) (hs : s.Step e s') (hA : s.Attends name A)
    (hA' : s'.Attends name A) (hc : s.findChannel name = some c) (hc' : s'.findChannel name = some c') :
    ∃ lines, stream s'.log A = stream s.log A ++ lines ∧
      c'.terms = (lines.filter (Line.isAbout (ircCaseFold name))).foldl Terms.hear c.terms := by
  rcases hr.takes hs with hidle | ⟨i, hfits, htakes⟩
  · refine ⟨[], ?_, ?_⟩
    · rw [hA'.stream (hr.step hs), hA.stream hr, hidle.utterances, List.append_nil]
    · have hchannels : s'.channels = s.channels := congrArg Core.channels hidle.core
      unfold findChannel at hc hc'
      rw [hchannels, hc] at hc'
      cases hc'
      rfl
  · exact htakes.settings hr hs hfits hA hA' hc hc'

/-- **The settings can be followed from afar.**  Over any run that a member attends, the events it
has been queued about the channel turn the topic, the flags, the key and the limit at the start
into those at the end. -/
theorem settings_view (hr : Reachable s) {es : List Event}
    (hrun : Transition.Run (Transition.Within Step (Attends name A)) s es s')
    (hc : s.findChannel name = some c) (hc' : s'.findChannel name = some c') :
    ∃ lines, stream s'.log A = stream s.log A ++ lines ∧
      c'.terms = (lines.filter (Line.isAbout (ircCaseFold name))).foldl Terms.hear c.terms := by
  induction hrun generalizing c' with
  | nil =>
    rw [hc] at hc'
    cases hc'
    exact ⟨[], (List.append_nil _).symm, rfl⟩
  | @snoc es s₁ e s₂ hrun hs ih =>
    obtain ⟨hs, hattend, hattend'⟩ := hs
    have hr₁ : Reachable s₁ := hr.run (hrun.mono fun _ _ _ h => h.1).reachable
    obtain ⟨-, c₁, hc₁, -⟩ := id hattend
    obtain ⟨xs, hxs, hterms⟩ := ih hc₁
    obtain ⟨ys, hys, hterms'⟩ := hr₁.settings_step hs hattend hattend' hc₁ hc'
    refine ⟨xs ++ ys, by rw [hys, hxs, List.append_assoc], ?_⟩
    rw [hterms', hterms, List.filter_append, List.foldl_append]

theorem settings_view_session :
    ∃ s s' c c' lines, session.Step (.line 5 "JOIN #C".toList) s ∧
      s.Step (.line 4 "MODE #c +l-i+k 7 pw".toList) s' ∧
      s.findChannel "#c".toList = some c ∧ s'.findChannel "#c".toList = some c' ∧
      stream s'.log 5 = stream s.log 5 ++ lines ∧
      c'.terms = (lines.filter (Line.isAbout (ircCaseFold "#c".toList))).foldl Terms.hear c.terms ∧
      c.terms.userLimit = none ∧ c'.terms.userLimit = some 7 := by
  have hview : ((session.step (.line 5 "JOIN #C".toList)).bind fun s =>
      (s.step (.line 4 "MODE #c +l-i+k 7 pw".toList)).map fun s' =>
        ((s.attendance "#c".toList [5], s'.attendance "#c".toList [5]),
          (s.findChannel "#c".toList).map (·.terms.userLimit),
          (s'.findChannel "#c".toList).map (·.terms.userLimit))) =
      some ((true, true), some none, some (some 7)) := by decide +kernel
  have hr := session_reachable
  generalize session = s₀ at *
  obtain ⟨s, hs, hview⟩ := Option.bind_eq_some_iff.1 hview
  obtain ⟨s', hs', hview⟩ := Option.map_eq_some_iff.1 hview
  simp only [Prod.mk.injEq] at hview
  obtain ⟨⟨hattend, hattend'⟩, hlimit, hlimit'⟩ := hview
  obtain ⟨c, hc, hlimit⟩ := Option.map_eq_some_iff.1 hlimit
  obtain ⟨c', hc', hlimit'⟩ := Option.map_eq_some_iff.1 hlimit'
  obtain ⟨lines, hlines, hterms⟩ := settings_view (hr.step hs)
    (Transition.Run.single ⟨hs', attends_of_attendance hattend 5 (by simp),
      attends_of_attendance hattend' 5 (by simp)⟩) hc hc'
  exact ⟨s, s', c, c', lines, hs, hs', hc, hc', hlines, hterms, hlimit, hlimit'⟩

end Server

end FtIrc
