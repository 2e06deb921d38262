import FtIrc.Parsing
import FtIrc.Wording
import FtIrc.Queues
import FtIrc.Settings

/-!
# Every line a command queues

Handler by handler: the lines it queues are spelled from what the command says and the server
keeps (`Voiced`), in the state the command found.
-/

namespace FtIrc

open Std

/-- The numerics but for those of `SendWelcome`. -/
def replyCodes : List Text :=
  ["331".toList, "332".toList, "341".toList, "353".toList, "366".toList, "401".toList,
    "403".toList, "404".toList, "411".toList, "412".toList, "421".toList, "431".toList,
    "432".toList, "433".toList, "441".toList, "442".toList, "443".toList, "451".toList,
    "461".toList, "462".toList, "464".toList, "471".toList, "472".toList, "473".toList,
    "475".toList, "482".toList, "696".toList]

theorem replyCodes_spec : ∀ code ∈ replyCodes, code.all isPrintable = true ∧
    code ≠ "001".toList ∧ code ≠ "376".toList := by decide +kernel

namespace Server

/-- What is known of a line queued on the way from `s` to `s'`, by a command of the client
on `A`. -/
structure Voiced (s : Server) (A : Fd) (command : Command) (s' : Server) (line : Line) :
    Prop where
  texts : ∀ t ∈ line.texts, s.Spelled A command t
  plain : line.isPlain = true → command.name = "PING".toList ∨ command.name = "CAP".toList
  welcome : line.isWelcome = true →
    (s.core.who A).registered = false ∧ (s'.core.who A).registered = true

/-- From `s` to `s'` only lines with `P` are queued. -/
def Logged (P : Line → Prop) (s s' : Server) : Prop :=
  ∃ actions, s'.log = s.log ++ actions ∧
    ∀ m line accepted, .queued m line accepted ∈ actions → P line

namespace Logged

variable {P : Line → Prop} {s s' s'' : Server} {fd : Fd}

theorem of_wire (h : s'.wire = s.wire) : Logged P s s' :=
  ⟨[], by rw [show s'.log = s.log from congrArg Wire.log h, List.append_nil], nofun⟩

theorem refl (s : Server) : Logged P s s := of_wire rfl

theorem trans (h : Logged P s s') (h' : Logged P s' s'') : Logged P s s'' := by
  obtain ⟨as, has, hp⟩ := h
  obtain ⟨bs, hbs, hp'⟩ := h'
  refine ⟨as ++ bs, by rw [hbs, has, List.append_assoc], fun m line accepted hmem => ?_⟩
  rcases List.mem_append.1 hmem with hmem | hmem
  · exact hp m line accepted hmem
  · exact hp' m line accepted hmem

theorem record {a : Action} (ha : ∀ m line accepted, a ≠ .queued m line accepted) :
    Logged P s (s.record a) :=
  ⟨[a], rfl, fun m line accepted hmem => absurd (List.mem_singleton.1 hmem).symm (ha m line accepted)⟩

theorem deliver {signals : List Signal} (hwire : s'.wire = s.wire.deliver signals)
    (h : ∀ m line, .line m line ∈ signals → P line) : Logged P s s' := by
  obtain ⟨actions, hlog, hqueued⟩ := s.wire.log_deliver_queued signals
  refine ⟨actions, (congrArg Wire.log hwire).trans hlog, fun m line accepted hmem => h m line ?_⟩
  rw [← mem_linesFor, ← hqueued]
  exact mem_queuedTo.2 ⟨accepted, hmem⟩

theorem of_queueLine {line : Line} (hwire : s'.wire = s.wire.queueLine fd line) (h : P line) :
    Logged P s s' := by
  refine deliver (show _ = s.wire.deliver [.line fd line] from hwire) fun m l hmem => ?_
  cases List.mem_singleton.1 hmem
  exact h

theorem queueLine {line : Line} (h : P line) : Logged P s (s.queueLine fd line) :=
  of_queueLine (wire_queueLine s fd line) h

theorem numeric {code : Text} {arguments : Arguments}
    (h : P (.numeric code (s.core.replyTarget fd) arguments)) :
    Logged P s (s.sendNumeric fd code arguments) :=
  of_queueLine (wire_sendNumeric s fd code arguments) h

theorem queueAll {line : Line} (h : P line) (fds : List Fd) :
    Logged P s (fds.foldl (fun s fd => s.queueIfFound fd line) s) := by
  induction fds generalizing s with
  | nil => exact refl s
  | cons fd fds ih =>
    have hfirst : Logged P s (s.queueIfFound fd line) := by
      unfold queueIfFound
      split
      · exact record nofun
      · exact queueLine h
    exact hfirst.trans ih

theorem broadcast {line : Line} (h : P line) (c : Channel) (excludeFd : Option Fd) :
    Logged P s (s.broadcastToChannel c line excludeFd) := by
  rw [broadcastToChannel_eq]
  exact queueAll h _

/-- A broadcast to nobody says nothing. -/
theorem broadcast_some {line : Line} (c : Channel) (excludeFd : Option Fd)
    (h : ∀ m ∈ c.members, some m ≠ excludeFd → P line) :
    Logged P s (s.broadcastToChannel c line excludeFd) := by
  rw [broadcastToChannel_eq]
  cases hfds : c.members.keys.filter (some · ≠ excludeFd) with
  | nil => exact refl s
  | cons m fds =>
    have hm : m ∈ c.members.keys.filter (some · ≠ excludeFd) := by
      rw [hfds]
      exact List.mem_cons_self
    rw [List.mem_filter, ExtTreeMap.mem_keys, decide_eq_true_iff] at hm
    exact queueAll (h m hm.1 hm.2) _

end Logged

/-- The command that leads from `s` to `s'` queues voiced lines only. -/
def Says (s : Server) (fd : Fd) (command : Command) (s' : Server) : Prop :=
  Logged (s.Voiced fd command s') s s'

variable (s : Server) (fd : Fd) (command : Command)

section Lines

variable {s fd command} {s' t : Server}

theorem spelled_nickname (x : Fd) : s.Spelled fd command (s.core.who x).nickname := by
  rw [← client_nickname]
  exact .kept (.nickname x)

theorem spelled_username (x : Fd) : s.Spelled fd command (s.core.who x).username := by
  rw [← client_username]
  exact .kept (.username x)

theorem spelled_replyTarget (h : s.Spelled fd command (t.core.who fd).nickname) :
    s.Spelled fd command (t.core.replyTarget fd) := by
  unfold Core.replyTarget
  split
  · exact .own (all_literal (by decide))
  · exact h

theorem voiced_numeric {code target : Text} {arguments : Arguments} (hcode : code ∈ replyCodes)
    (htarget : s.Spelled fd command target)
    (harguments : ∀ text ∈ arguments.texts, s.Spelled fd command text) :
    s.Voiced fd command s' (.numeric code target arguments) := by
  obtain ⟨hprint, h1, h2⟩ := replyCodes_spec code hcode
  refine ⟨?_, nofun, ?_⟩
  · intro text htext
    simp only [Line.texts, List.mem_cons] at htext
    rcases htext with rfl | rfl | htext
    · exact .own hprint
    · exact htarget
    · exact harguments text htext
  · intro hw
    simp only [Line.isWelcome, Bool.or_eq_true, beq_iff_eq] at hw
    exact (hw.elim h1 h2).elim

theorem voiced_relay {source : Source} {event : Relay}
    (hnick : s.Spelled fd command source.nickname) (huser : s.Spelled fd command source.username)
    (hevent : ∀ text ∈ event.texts, s.Spelled fd command text) :
    s.Voiced fd command s' (.relay source event) := by
  refine ⟨?_, nofun, nofun⟩
  intro text htext
  simp only [Line.texts, List.mem_cons] at htext
  rcases htext with rfl | rfl | htext
  · exact hnick
  · exact huser
  · exact hevent text htext

theorem voiced_relay_own {event : Relay} (hwho : t.core.who fd = s.core.who fd)
    (hevent : ∀ text ∈ event.texts, s.Spelled fd command text) :
    s.Voiced fd command s' (.relay (t.client fd).source event) := by
  rw [client_source, hwho]
  exact voiced_relay (spelled_nickname fd) (spelled_username fd) hevent

/-- A reply in a state in which the client has the nickname it had. -/
theorem says_numeric (hwho : t.core.who fd = s.core.who fd) {code text : Text}
    (hcode : code ∈ replyCodes) (htext : s.Spelled fd command text) :
    Logged (s.Voiced fd command s') t (t.sendNumeric fd code (.text text)) :=
  .numeric (voiced_numeric hcode (spelled_replyTarget (by rw [hwho]; exact spelled_nickname fd))
    fun text' hmem => by
      rw [Arguments.texts, List.mem_singleton] at hmem
      rw [hmem]
      exact htext)

end Lines

/-! ## Registration -/

variable {s fd command} in
/-- The greeting, when the state `t` the command has made so far is completed. -/
theorem says_complete {s' t : Server} (hlive : t.core.Live fd)
    (hreg : (t.core.who fd).registered = (s.core.who fd).registered)
    (hnick : s.Spelled fd command (t.core.who fd).nickname)
    (huser : s.Spelled fd command (t.core.who fd).username)
    (hs' : s'.core = (t.tryCompleteRegistration fd).core) :
    Logged (s.Voiced fd command s') t (t.tryCompleteRegistration fd) := by
  obtain ⟨hcore, hwire⟩ := t.tryCompleteRegistration_spec fd
  refine .deliver hwire fun m line hmem => ?_
  unfold Core.welcome at hmem
  split at hmem
  swap
  · cases hmem
  next hc =>
  have hunreg : (t.core.who fd).registered = false := by
    unfold Core.completes at hc
    simp only [Bool.and_eq_true, Bool.not_eq_true'] at hc
    exact hc.1
  have hnow : (s'.core.who fd).registered = true := by
    rw [hs', hcore]
    unfold Core.complete
    rw [if_pos hc, Core.who_modify_self _ _ hlive]
  have hprefix : s.Spelled fd command (t.core.who fd).source.render :=
    .append (.append (.append hnick (.own (all_literal (by decide)))) huser)
      (.own (all_literal (by decide)))
  simp only [List.mem_cons, List.not_mem_nil, or_false, Signal.line.injEq] at hmem
  rcases hmem with ⟨-, rfl⟩ | ⟨-, rfl⟩
  · refine ⟨?_, fun h => absurd h Bool.false_ne_true, fun _ => ⟨hreg ▸ hunreg, hnow⟩⟩
    intro text htext
    simp only [Line.texts, Arguments.texts, List.mem_cons, List.not_mem_nil, or_false] at htext
    rcases htext with rfl | rfl | rfl
    · exact .own (all_literal (by decide))
    · exact spelled_replyTarget hnick
    · exact .append (.own (all_literal (by decide))) hprefix
  · refine ⟨?_, fun h => absurd h Bool.false_ne_true, fun _ => ⟨hreg ▸ hunreg, hnow⟩⟩
    intro text htext
    simp only [Line.texts, Arguments.texts, List.mem_cons, List.not_mem_nil, or_false] at htext
    rcases htext with rfl | rfl | rfl
    · exact .own (all_literal (by decide))
    · exact spelled_replyTarget hnick
    · exact .own (all_literal (by decide))

theorem handlePass_voiced (hlive : s.core.Live fd) :
    s.Says fd command (s.handlePass fd command) := by
  unfold handlePass
  split
  · exact says_numeric rfl (by decide) (.own (all_literal (by decide)))
  split
  · exact says_numeric rfl (by decide) (.own (all_literal (by decide)))
  split
  · exact says_numeric rfl (by decide) (.own (all_literal (by decide)))
  have hcore : (s.modifyClient fd (·.setPasswordAccepted)).core = s.core.acceptPassword fd :=
    core_modifyClient s fd fun _ => rfl
  have hwho := Core.who_modify_self s.core fd (f := ({ · with passwordAccepted := true })) hlive
  refine (Logged.of_wire (wire_modifyClient_identity s fd fun _ => rfl)).trans
    (says_complete ?_ ?_ ?_ ?_ rfl) <;> rw [hcore]
  · exact (Core.live_modify s.core fd).2 hlive
  · rw [Core.acceptPassword, hwho]
  · rw [Core.acceptPassword, hwho]
    exact spelled_nickname fd
  · rw [Core.acceptPassword, hwho]
    exact spelled_username fd

theorem handleUser_voiced (hlive : s.core.Live fd) (hname : command.name = "USER".toList) :
    s.Says fd command (s.handleUser fd command) := by
  unfold handleUser
  split
  · exact says_numeric rfl (by decide) (.own (all_literal (by decide)))
  next hreg =>
  split
  swap
  · exact says_numeric rfl (by decide) (.own (all_literal (by decide)))
  next username mode unused realname rest hparams =>
  have hcore : (s.modifyClient fd (·.setUser username realname)).core =
      s.core.setUser fd username realname := core_modifyClient s fd fun _ => rfl
  have hwho := Core.who_modify_self s.core fd (f := ({ · with
    username := username, realname := realname, hasUser := true })) hlive
  refine (Logged.of_wire (wire_modifyClient_identity s fd fun _ => rfl)).trans
    (says_complete ?_ ?_ ?_ ?_ rfl) <;> rw [hcore]
  · exact (Core.live_modify s.core fd).2 hlive
  · rw [Core.setUser, hwho]
  · rw [Core.setUser, hwho]
    exact spelled_nickname fd
  · rw [Core.setUser, hwho]
    exact .said (.user username mode unused realname rest hname (by simpa using hreg) hparams)

theorem handleNick_voiced (hlive : s.core.Live fd) (hname : command.name = "NICK".toList) :
    s.Says fd command (s.handleNick fd command) := by
  unfold handleNick
  split
  · exact says_numeric rfl (by decide) (.own (all_literal (by decide)))
  next nickname rest hparams =>
  have hsaid : s.Spelled fd command nickname := .said (.nick nickname rest hname hparams)
  split
  · exact says_numeric rfl (by decide) (.append hsaid (.own (all_literal (by decide))))
  dsimp only
  split
  · exact says_numeric rfl (by decide) (.append hsaid (.own (all_literal (by decide))))
  split
  · exact Logged.refl s
  refine (Logged.of_wire (s.wire_changeNickname fd nickname)).trans ?_
  have hwho : (s.changeNickname fd nickname).core.who fd =
      { s.core.who fd with nickname := nickname } := by
    rw [core_changeNickname, Core.who_rename, Core.who_modify_self _ _ hlive]
  have hlive' : (s.changeNickname fd nickname).core.Live fd := s.live_changeNickname fd nickname hlive
  -- the relays leave the state to complete as it is
  have hcomplete {t s' : Server} (ht : t.core = (s.changeNickname fd nickname).core)
      (hs' : s'.core = (t.tryCompleteRegistration fd).core) :
      Logged (s.Voiced fd command s') t (t.tryCompleteRegistration fd) := by
    refine says_complete ?_ ?_ ?_ ?_ hs' <;> rw [ht]
    · exact hlive'
    · rw [hwho]
    · rw [hwho]
      exact hsaid
    · rw [hwho]
      exact spelled_username fd
  split
  · refine Logged.trans (.queueAll (voiced_relay_own (t := s) rfl ?_) _)
      (hcomplete (core_queueAll _ _ _) rfl)
    intro text htext
    rw [Relay.texts, List.mem_singleton] at htext
    rw [htext]
    exact hsaid
  · exact hcomplete rfl rfl

/-! ## PING, CAP, QUIT and the rest -/

variable {s fd command} in
theorem says_plain {text : Text} {s' : Server} (hname : command.name = "PING".toList ∨ command.name = "CAP".toList)
    (htext : s.Spelled fd command text) :
    Logged (s.Voiced fd command s') s (s.queueLine fd (.plain text)) :=
  .queueLine ⟨fun text' hmem => by rw [Line.texts, List.mem_singleton] at hmem; rw [hmem]; exact htext,
    fun _ => hname, nofun⟩

theorem handlePing_voiced (hname : command.name = "PING".toList) :
    s.Says fd command (s.handlePing fd command) := by
  unfold handlePing
  split
  · exact says_plain (Or.inl hname) (.own (all_literal (by decide)))
  · next token rest hparams =>
    exact says_plain (Or.inl hname)
      (.append (.own (all_literal (by decide))) (.said (.ping token rest hname hparams)))

theorem handleCap_voiced (hname : command.name = "CAP".toList) :
    s.Says fd command (s.handleCap fd command) := by
  unfold handleCap
  split
  · exact Logged.refl s
  next subcommand rest hparams =>
  split
  · exact says_plain (Or.inr hname) (.own (all_literal (by decide)))
  split
  · next hreq =>
    refine says_plain (Or.inr hname) (.append (.own (all_literal (by decide))) ?_)
    cases rest with
    | nil => exact .own rfl
    | cons requested rest => exact .said (.cap requested rest hname (by rw [hparams, hreq]))
  · exact Logged.refl s

theorem handleQuit_voiced : s.Says fd command (s.handleQuit fd command) := by
  unfold handleQuit
  refine .deliver (show _ = s.wire.deliver [.disconnect fd _] from wire_requestDisconnect _ _ _) ?_
  simp

theorem handleUnknownCommand_voiced (hname : command.name ∉ commandNames) :
    s.Says fd command (s.handleUnknownCommand fd command) := by
  unfold handleUnknownCommand
  exact says_numeric rfl (by decide)
    (.append (.said (.unknown hname)) (.own (all_literal (by decide))))

/-! ## Channels and messages -/

section Conversation

variable {s fd command}

/-- The relay and the replies of a JOIN. -/
theorem says_announceJoin {s' t : Server} (hid : t.core.identities = s.core.identities)
    {c : Channel} (hmembers : ∀ m ∈ c.members, t.core.Live m)
    (hname : s.Spelled fd command c.name) (htopic : s.Spelled fd command c.topic) :
    Logged (s.Voiced fd command s') t (t.announceJoin fd c) := by
  have hwho (x : Fd) : t.core.who x = s.core.who x := by
    unfold Core.who
    rw [hid]
  have htarget : s.Spelled fd command (t.core.replyTarget fd) :=
    spelled_replyTarget (by rw [hwho]; exact spelled_nickname fd)
  refine .deliver (t.announceJoin_spec fd c hmembers).2 fun m line hmem => ?_
  rcases List.mem_append.1 hmem with hmem | hmem
  · obtain ⟨_, -, heq⟩ := List.mem_map.1 hmem
    cases heq
    rw [hwho]
    refine voiced_relay (spelled_nickname fd) (spelled_username fd) fun text htext => ?_
    rw [Relay.texts, List.mem_singleton] at htext
    rw [htext]
    exact hname
  · simp only [Core.joinReplies, List.mem_cons, List.not_mem_nil, or_false, Signal.line.injEq]
      at hmem
    rcases hmem with ⟨-, rfl⟩ | ⟨-, rfl⟩ | ⟨-, rfl⟩
    · split
      · refine voiced_numeric (by decide) htarget fun text htext => ?_
        rw [Arguments.texts, List.mem_singleton] at htext
        rw [htext]
        exact .append (.append hname (.own (all_literal (by decide)))) htopic
      · refine voiced_numeric (by decide) htarget fun text htext => ?_
        rw [Arguments.texts, List.mem_singleton] at htext
        rw [htext]
        exact .append hname (.own (all_literal (by decide)))
    · refine voiced_numeric (by decide) htarget fun text htext => ?_
      simp only [Arguments.texts, Core.namesOf, List.map_map, List.mem_cons, List.mem_map] at htext
      rcases htext with rfl | ⟨m, -, rfl⟩
      · exact hname
      · show s.Spelled fd command (t.core.who m.1).nickname
        rw [hwho]
        exact spelled_nickname m.1
    · refine voiced_numeric (by decide) htarget fun text htext => ?_
      rw [Arguments.texts, List.mem_singleton] at htext
      rw [htext]
      exact .append hname (.own (all_literal (by decide)))

theorem addMember_name (c : Channel) (m : Fd) (flag : Bool) : (c.addMember m flag).name = c.name := by
  unfold Channel.addMember
  split <;> rfl

theorem addMember_topic (c : Channel) (m : Fd) (flag : Bool) :
    (c.addMember m flag).topic = c.topic := by
  unfold Channel.addMember
  split <;> rfl

theorem spelled_name {name : Text} {c : Channel} (hc : s.findChannel name = some c) :
    s.Spelled fd command c.name := .kept (.name _ c hc)

theorem spelled_topic {name : Text} {c : Channel} (hc : s.findChannel name = some c) :
    s.Spelled fd command c.topic := .kept (.topic _ c hc)

end Conversation

theorem handleJoin_voiced (hlive : s.core.MembersLive) (hfd : s.core.Live fd)
    (hname : command.name = "JOIN".toList) : s.Says fd command (s.handleJoin fd command) := by
  unfold handleJoin
  dsimp only
  split
  · exact says_numeric rfl (by decide) (.own (all_literal (by decide)))
  next hreg =>
  rw [Bool.not_eq_true', Bool.not_eq_false] at hreg
  split
  · exact says_numeric rfl (by decide) (.own (all_literal (by decide)))
  next channelName rest hparams =>
  have hsaid : s.Spelled fd command channelName := .said (.join channelName rest hname hreg hparams)
  split
  · exact says_numeric rfl (by decide) (.append hsaid (.own (all_literal (by decide))))
  split
  · have hmembers : ∀ m ∈ (({ name := channelName } : Channel).addMember fd true).members,
        s.core.Live m := by
      intro m hm
      rcases mem_addMember hm with rfl | hm
      · exact hfd
      · exact absurd hm ExtTreeMap.not_mem_empty
    have hname' := addMember_name { name := channelName } fd true
    have htopic := addMember_topic { name := channelName } fd true
    generalize ({ name := channelName } : Channel).addMember fd true = c at *
    refine (Logged.of_wire (wire_setChannel s (ircCaseFold channelName) c)).trans
      (says_announceJoin (s := s) (t := s.setChannel (ircCaseFold channelName) c) rfl hmembers ?_ ?_)
    · rw [hname']
      exact hsaid
    · rw [htopic]
      exact .own rfl
  next c hc =>
  split
  · exact Logged.refl s
  next hmem =>
  rw [Bool.not_eq_true] at hmem
  have hown {text : Text} (h : text.all isPrintable = true) :
      s.Spelled fd command (c.name ++ text) := .append (spelled_name hc) (.own h)
  split
  · exact says_numeric rfl (by decide) (hown (all_literal (by decide)))
  split
  · exact says_numeric rfl (by decide) (hown (all_literal (by decide)))
  split
  · exact says_numeric rfl (by decide) (hown (all_literal (by decide)))
  have hmembers : ∀ m ∈ ((c.addMember fd false).removeInvite (s.client fd).nickname).members,
      s.core.Live m := by
    intro m hm
    rcases mem_addMember hm with rfl | hm
    · exact hfd
    · exact hlive _ c hc m hm
  have hname' : ((c.addMember fd false).removeInvite (s.client fd).nickname).name = c.name :=
    addMember_name c fd false
  have htopic : ((c.addMember fd false).removeInvite (s.client fd).nickname).topic = c.topic :=
    addMember_topic c fd false
  generalize (c.addMember fd false).removeInvite (s.client fd).nickname = c' at *
  refine (Logged.of_wire (wire_setChannel s (ircCaseFold channelName) c')).trans
    (says_announceJoin (s := s) (t := s.setChannel (ircCaseFold channelName) c') rfl hmembers ?_ ?_)
  · rw [hname']
    exact spelled_name hc
  · rw [htopic]
    exact spelled_topic hc

theorem handlePrivmsg_voiced (hname : command.name = "PRIVMSG".toList) :
    s.Says fd command (s.handlePrivmsg fd command) := by
  unfold handlePrivmsg
  dsimp only
  split
  · exact says_numeric rfl (by decide) (.own (all_literal (by decide)))
  next hreg =>
  rw [Bool.not_eq_true', Bool.not_eq_false] at hreg
  split
  · exact says_numeric rfl (by decide) (.own (all_literal (by decide)))
  · exact says_numeric rfl (by decide) (.own (all_literal (by decide)))
  next targetName text rest hparams =>
  have hsaid : s.Spelled fd command targetName :=
    .said (.privmsgTarget targetName text rest hname hreg hparams)
  split
  · next htarget =>
    split
    · exact says_numeric rfl (by decide) (.append hsaid (.own (all_literal (by decide))))
    next c hc =>
    split
    · exact says_numeric rfl (by decide) (.append hsaid (.own (all_literal (by decide))))
    next hmem =>
    rw [Bool.not_eq_true', Bool.not_eq_false] at hmem
    refine .broadcast_some c (some fd) fun m hm hne => voiced_relay_own (t := s) rfl ?_
    intro text' htext
    simp only [Relay.texts, List.mem_cons, List.not_mem_nil, or_false] at htext
    rcases htext with rfl | rfl
    · exact hsaid
    · exact .said (.privmsgChannel targetName _ rest c m hname hreg hparams htarget hc hmem hm
        fun heq => hne (congrArg some heq))
  · next htarget =>
    rw [Bool.not_eq_true] at htarget
    split
    · exact says_numeric rfl (by decide) (.append hsaid (.own (all_literal (by decide))))
    next target hfound =>
    refine .queueLine (voiced_relay_own (t := s) rfl ?_)
    intro text' htext
    simp only [Relay.texts, List.mem_cons, List.not_mem_nil, or_false] at htext
    rcases htext with rfl | rfl
    · exact .kept (.nickname target)
    · exact .said (.privmsgUser targetName _ rest target hname hreg hparams htarget hfound)

theorem handleTopic_voiced (hname : command.name = "TOPIC".toList) :
    s.Says fd command (s.handleTopic fd command) := by
  unfold handleTopic
  dsimp only
  split
  · exact says_numeric rfl (by decide) (.own (all_literal (by decide)))
  next hreg =>
  rw [Bool.not_eq_true', Bool.not_eq_false] at hreg
  split
  · exact says_numeric rfl (by decide) (.own (all_literal (by decide)))
  next channelName rest hparams =>
  have hsaid : s.Spelled fd command channelName :=
    .said (.topicChannel channelName rest hname hreg hparams)
  split
  · exact says_numeric rfl (by decide) (.append hsaid (.own (all_literal (by decide))))
  next c hc =>
  split
  · exact says_numeric rfl (by decide) (.append hsaid (.own (all_literal (by decide))))
  next hmem =>
  rw [Bool.not_eq_true', Bool.not_eq_false] at hmem
  split
  · split
    · exact says_numeric rfl (by decide)
        (.append (.append hsaid (.own (all_literal (by decide)))) (spelled_topic hc))
    · exact says_numeric rfl (by decide) (.append hsaid (.own (all_literal (by decide))))
  next newTopic rest =>
  split
  · exact says_numeric rfl (by decide) (.append hsaid (.own (all_literal (by decide))))
  next hop =>
  refine (Logged.of_wire (wire_setChannel _ _ _)).trans (.broadcast (voiced_relay_own (t := s) rfl ?_) _ _)
  intro text htext
  simp only [Relay.texts, List.mem_cons, List.not_mem_nil, or_false] at htext
  rcases htext with rfl | rfl
  · exact hsaid
  · refine .said (.topic channelName _ rest c hname hreg hparams hc hmem fun hr => ?_)
    simpa [hr] using hop

theorem handleKick_voiced (hname : command.name = "KICK".toList) :
    s.Says fd command (s.handleKick fd command) := by
  unfold handleKick
  dsimp only
  split
  · exact says_numeric rfl (by decide) (.own (all_literal (by decide)))
  next hreg =>
  rw [Bool.not_eq_true', Bool.not_eq_false] at hreg
  split
  swap
  · exact says_numeric rfl (by decide) (.own (all_literal (by decide)))
  next channelName targetNick rest hparams =>
  have hsaid : s.Spelled fd command channelName :=
    .said (.kickChannel channelName targetNick rest hname hreg hparams)
  split
  · exact says_numeric rfl (by decide) (.append hsaid (.own (all_literal (by decide))))
  next c hc =>
  split
  · exact says_numeric rfl (by decide) (.append hsaid (.own (all_literal (by decide))))
  split
  · exact says_numeric rfl (by decide) (.append hsaid (.own (all_literal (by decide))))
  next hop =>
  rw [Bool.not_eq_true', Bool.not_eq_false] at hop
  have htarget : s.Spelled fd command targetNick :=
    .said (.kickTarget channelName targetNick rest c hname hreg hparams hc hop)
  split
  · exact says_numeric rfl (by decide)
      (.append (.append (.append htarget (.own (all_literal (by decide)))) hsaid)
        (.own (all_literal (by decide))))
  next target hfound =>
  obtain ⟨hholder, hmem⟩ := Option.filter_eq_some_iff.1 hfound
  refine Logged.trans (.broadcast (voiced_relay_own (t := s) rfl ?_) _ _)
    (.of_wire (removeMember_spec _ _ c target).2)
  intro text htext
  simp only [Relay.texts, List.mem_cons, List.not_mem_nil, or_false] at htext
  rcases htext with rfl | rfl | rfl
  · exact hsaid
  · exact htarget
  · cases rest with
    | nil => exact .kept (.nickname fd)
    | cons reason rest =>
      exact .said (.kickReason channelName targetNick reason rest c target hname hreg hparams hc
        hop hholder hmem)

theorem handleInvite_voiced (hname : command.name = "INVITE".toList) :
    s.Says fd command (s.handleInvite fd command) := by
  unfold handleInvite
  dsimp only
  split
  · exact says_numeric rfl (by decide) (.own (all_literal (by decide)))
  next hreg =>
  rw [Bool.not_eq_true', Bool.not_eq_false] at hreg
  split
  swap
  · exact says_numeric rfl (by decide) (.own (all_literal (by decide)))
  next targetNick channelName rest hparams =>
  have htarget : s.Spelled fd command targetNick :=
    .said (.inviteTarget targetNick channelName rest hname hreg hparams)
  split
  · exact says_numeric rfl (by decide) (.append htarget (.own (all_literal (by decide))))
  next target hfound =>
  have hsaid : s.Spelled fd command channelName :=
    .said (.inviteChannel targetNick channelName rest target hname hreg hparams hfound)
  split
  · exact says_numeric rfl (by decide) (.append hsaid (.own (all_literal (by decide))))
  next c hc =>
  split
  · exact says_numeric rfl (by decide) (.append hsaid (.own (all_literal (by decide))))
  split
  · exact says_numeric rfl (by decide) (.append hsaid (.own (all_literal (by decide))))
  have hboth : s.Spelled fd command (targetNick ++ " ".toList ++ channelName) :=
    .append (.append htarget (.own (all_literal (by decide)))) hsaid
  split
  · exact says_numeric rfl (by decide) (.append hboth (.own (all_literal (by decide))))
  refine (Logged.of_wire (wire_setChannel _ _ _)).trans
    ((says_numeric (s := s) (t := s.setChannel _ _) rfl (by decide) hboth).trans
      (.queueLine (voiced_relay_own (t := s) rfl ?_)))
  intro text htext
  simp only [Relay.texts, List.mem_cons, List.not_mem_nil, or_false] at htext
  rcases htext with rfl | rfl
  · exact htarget
  · exact hsaid

/-! ## MODE -/

section Mode

variable {s fd command} {s' t : Server} {key : Text} {change : ModeChange}

/-- The announcement of a change whose argument is spelled. -/
theorem says_broadcastModeChange (hwho : t.core.who fd = s.core.who fd) {c : Channel}
    (hname : s.Spelled fd command c.name) (hmode : change.mode ∈ ['i', 't', 'k', 'o', 'l'])
    (harg : change.hasArgument = true → s.Spelled fd command change.argument) :
    Logged (s.Voiced fd command s') t ((t.setChannel key c).broadcastModeChange fd c change) := by
  refine (Logged.of_wire (wire_setChannel t key c)).trans
    (.broadcast (voiced_relay_own (s := s) (t := t.setChannel key c) hwho ?_) _ _)
  intro text htext
  simp only [Relay.texts, List.mem_append, List.mem_cons, List.not_mem_nil, or_false] at htext
  rcases htext with (rfl | rfl) | htext
  · exact hname
  · refine .own ?_
    simp only [List.mem_cons, List.not_mem_nil, or_false] at hmode
    rcases hmode with h | h | h | h | h <;> rw [h] <;> rfl
  · split at htext
    · next hhas =>
      rw [List.mem_singleton] at htext
      rw [htext]
      exact harg hhas
    · cases htext

section Change

variable {c : Channel} (hwho : t.core.who fd = s.core.who fd) (hname : s.Spelled fd command c.name)
  (hsaid : ∀ text, ModeEchoes c change text → s.Spelled fd command text)

/-- The announcement of a change that has no argument, or one that is spelled. -/
theorem says_applied {c' : Channel} (hwho : t.core.who fd = s.core.who fd)
    (hname : s.Spelled fd command c.name) (hmode : change.mode ∈ ['i', 't', 'k', 'o', 'l'])
    (hc' : c'.name = c.name)
    (harg : change.hasArgument = false ∨ s.Spelled fd command change.argument) :
    Logged (s.Voiced fd command s') t ((t.setChannel key c').broadcastModeChange fd c' change) := by
  refine says_broadcastModeChange hwho (hc' ▸ hname) hmode fun hhas => ?_
  rcases harg with hnot | harg
  · rw [hhas] at hnot
    cases hnot
  · exact harg

include hwho hname

theorem applyInviteOnlyMode_voiced (hmode : change.mode = 'i') (hhas : change.hasArgument = false) :
    Logged (s.Voiced fd command s') t (t.applyInviteOnlyMode fd key c change) := by
  unfold applyInviteOnlyMode
  split
  · exact Logged.refl t
  · exact says_applied hwho hname (by simp [hmode]) rfl (Or.inl hhas)

theorem applyTopicRestrictedMode_voiced (hmode : change.mode = 't') (hhas : change.hasArgument = false) :
    Logged (s.Voiced fd command s') t (t.applyTopicRestrictedMode fd key c change) := by
  unfold applyTopicRestrictedMode
  split
  · exact Logged.refl t
  · exact says_applied hwho hname (by simp [hmode]) rfl (Or.inl hhas)

include hsaid

theorem applyKeyMode_voiced (hmode : change.mode = 'k') :
    Logged (s.Voiced fd command s') t (t.applyKeyMode fd key c change) := by
  unfold applyKeyMode
  split
  · next hadding =>
    split
    · exact says_numeric hwho (by decide) (.append hname (.own (all_literal (by decide))))
    next harg =>
    split
    · exact Logged.refl t
    next hsame =>
    refine says_applied hwho hname (by simp [hmode]) rfl (Or.inr (hsaid _ (.setKey hmode hadding ?_ ?_)))
    · exact fun h => harg (by rw [h]; rfl)
    · rintro ⟨hkey, heq⟩
      exact hsame (by rw [hkey, heq]; simp)
  · next hadding =>
    rw [Bool.not_eq_true] at hadding
    split
    · exact Logged.refl t
    · next hkey =>
      exact says_applied hwho hname (by simp [hmode]) rfl
        (Or.inr (hsaid _ (.removeKey hmode hadding (by simpa using hkey))))

theorem applyOperatorMode_voiced (hmode : change.mode = 'o') :
    Logged (s.Voiced fd command s') t (t.applyOperatorMode fd key c change) := by
  have harg := hsaid _ (.operator hmode)
  unfold applyOperatorMode
  split
  · exact says_numeric hwho (by decide) (.append harg (.own (all_literal (by decide))))
  split
  · exact says_numeric hwho (by decide)
      (.append (.append (.append harg (.own (all_literal (by decide)))) hname)
        (.own (all_literal (by decide))))
  split
  · exact Logged.refl t
  · exact says_applied hwho hname (by simp [hmode]) (setMemberOperator_name _ _ _) (Or.inr harg)

theorem applyUserLimitMode_voiced (hmode : change.mode = 'l')
    (hhas : change.hasArgument = modeNeedsArgument change.mode change.adding) :
    Logged (s.Voiced fd command s') t (t.applyUserLimitMode fd key c change) := by
  unfold applyUserLimitMode
  split
  · next hadding =>
    split
    · next hparse =>
      have harg := hsaid _ (.userLimit hmode hadding fun limit h => by rw [hparse] at h; cases h)
      exact says_numeric hwho (by decide)
        (.append (.append (.append hname (.own (all_literal (by decide)))) harg)
          (.own (all_literal (by decide))))
    next limit hparse =>
    split
    · exact Logged.refl t
    next hsame =>
    refine says_applied hwho hname (by simp [hmode]) rfl (Or.inr (hsaid _ (.userLimit hmode hadding ?_)))
    rintro limit' h' ⟨hlimit, heq⟩
    rw [hparse] at h'
    cases h'
    exact hsame (by rw [hlimit, heq]; simp)
  · next hadding =>
    rw [Bool.not_eq_true] at hadding
    split
    · exact Logged.refl t
    · rw [hmode, hadding] at hhas
      exact says_applied hwho hname (by simp [hmode]) rfl (Or.inl hhas)

end Change

/-- One change, on a channel whose name is spelled. -/
theorem applyChannelModeChange_voiced (hwho : t.core.who fd = s.core.who fd)
    (hhas : change.hasArgument = modeNeedsArgument change.mode change.adding)
    (hname : ∀ c, t.channels[key]? = some c → s.Spelled fd command c.name)
    (hsaid : ∀ c, t.channels[key]? = some c → ∀ text, ModeEchoes c change text →
      s.Spelled fd command text) :
    Logged (s.Voiced fd command s') t (t.applyChannelModeChange fd key change) := by
  unfold applyChannelModeChange
  split
  · exact Logged.refl t
  next c hc =>
  split
  · next hmode =>
    exact applyInviteOnlyMode_voiced hwho (hname c hc) hmode (by rw [hhas, hmode]; rfl)
  split
  · next hmode =>
    exact applyTopicRestrictedMode_voiced hwho (hname c hc) hmode (by rw [hhas, hmode]; rfl)
  split
  · next hmode => exact applyKeyMode_voiced hwho (hname c hc) (hsaid c hc) hmode
  split
  · next hmode => exact applyOperatorMode_voiced hwho (hname c hc) (hsaid c hc) hmode
  split
  · next hmode => exact applyUserLimitMode_voiced hwho (hname c hc) (hsaid c hc) hmode hhas
  · next hi ht hk ho hl =>
    have hunknown : change.mode ∉ ['i', 't', 'k', 'o', 'l'] := by
      simp only [List.mem_cons, List.not_mem_nil, or_false, not_or]
      exact ⟨hi, ht, hk, ho, hl⟩
    refine says_numeric hwho (by decide) ?_
    show s.Spelled fd command ([change.mode] ++ " :is unknown mode char to me".toList)
    exact .append (hsaid c hc _ (.unknown hunknown)) (.own (all_literal (by decide)))

/-- What a change leaves alone, for the changes behind it. -/
theorem applyChannelModeChange_keeps (hlive : t.core.MembersLive) :
    (t.applyChannelModeChange fd key change).core.MembersLive ∧
    (∀ x, (t.applyChannelModeChange fd key change).core.who x = t.core.who x) ∧
    ∀ c', (t.applyChannelModeChange fd key change).channels[key]? = some c' →
      ∃ c, t.channels[key]? = some c ∧ c'.name = c.name := by
  obtain ⟨hlive', signals, -, hrun⟩ := t.applyChannelModeChange_step fd key change hlive
  obtain ⟨hid, -, -, hthis⟩ := (hrun [] _ [] (.nil _)).channels
  refine ⟨hlive', fun x => by unfold Core.who; rw [hid], fun c' hc' => ?_⟩
  cases hc : t.channels[key]? with
  | none =>
    unfold applyChannelModeChange at hc'
    rw [hc] at hc'
    rw [hc] at hc'
    cases hc'
  | some c =>
    obtain ⟨c'', hc'', hchain⟩ := hthis c hc
    rw [show (t.applyChannelModeChange fd key change).core.channels[key]? = some c' from hc'] at hc''
    cases hc''
    exact ⟨c, rfl, (ModeChain.name hchain).1⟩

end Mode

theorem handleMode_voiced (hlive : s.core.MembersLive) (hname : command.name = "MODE".toList) :
    s.Says fd command (s.handleMode fd command) := by
  unfold handleMode
  split
  · exact says_numeric rfl (by decide) (.own (all_literal (by decide)))
  next hreg =>
  rw [Bool.not_eq_true', Bool.not_eq_false] at hreg
  split
  · exact says_numeric rfl (by decide) (.own (all_literal (by decide)))
  next target rest hparams =>
  split
  · exact Logged.refl s
  next htarget =>
  rw [Bool.not_eq_true', Bool.not_eq_false] at htarget
  have hsaid : s.Spelled fd command target := .said (.modeTarget target rest hname hreg hparams htarget)
  split
  · exact says_numeric rfl (by decide) (.append hsaid (.own (all_literal (by decide))))
  next c₀ hc₀ =>
  split
  · exact Logged.refl s
  split
  · exact says_numeric rfl (by decide) (.append hsaid (.own (all_literal (by decide))))
  next hop =>
  rw [Bool.not_eq_true', Bool.not_eq_false] at hop
  split
  · exact Logged.refl s
  next changes hchanges =>
  unfold Says
  generalize hs' : changes.foldl
    (fun s change => s.applyChannelModeChange fd (ircCaseFold target) change) s = s'
  -- the changes still to apply, from the state the ones before them have made
  suffices h : ∀ after before t, changes = before ++ after →
      before.foldl (fun s change => s.applyChannelModeChange fd (ircCaseFold target) change) s = t →
      t.core.MembersLive → (∀ x, t.core.who x = s.core.who x) →
      (∀ c, t.channels[ircCaseFold target]? = some c → s.Spelled fd command c.name) →
      Logged (s.Voiced fd command s') t
        (after.foldl (fun s change => s.applyChannelModeChange fd (ircCaseFold target) change) t) by
    have hall := h changes [] s rfl rfl hlive (fun _ => rfl) fun c hc => .kept (.name _ c hc)
    rwa [hs'] at hall
  intro after
  induction after with
  | nil => exact fun _ t _ _ _ _ _ => Logged.refl t
  | cons change after ih =>
    intro before t hsplit ht htlive hwho hspelled
    have hkeeps : _ ∧ (∀ x, (t.applyChannelModeChange fd (ircCaseFold target) change).core.who x = _) ∧ _ :=
      applyChannelModeChange_keeps htlive
    obtain ⟨hlive', hwho', hname'⟩ := hkeeps
    rw [List.foldl_cons]
    refine Logged.trans (applyChannelModeChange_voiced (hwho fd) ?_ hspelled ?_)
      (ih (before ++ [change]) _ (by rw [hsplit, List.append_assoc]; rfl)
        (by rw [List.foldl_append, ht]; rfl) hlive' (fun x => (hwho' x).trans (hwho x)) ?_)
    · obtain ⟨_, -, hread⟩ := parseChannelModeChanges_spec hchanges change (by rw [hsplit]; simp)
      exact hread.needs
    · intro c hc text htext
      exact .said (.mode target rest c₀ c before after change text hname hreg hparams hc₀ hop
        (by rw [hchanges, hsplit]) (by rw [ht]; exact hc) htext)
    · intro c' hc'
      obtain ⟨c, hc, heq⟩ := hname' c' hc'
      rw [heq]
      exact hspelled c hc

/-! ## Every command -/

/-- **Every line a command queues is voiced.** -/
theorem dispatchCommand_voiced (hlive : s.core.MembersLive) (hfd : s.core.Live fd) :
    s.Says fd command (s.dispatchCommand fd command) := by
  refine s.dispatchCommand_cases fd command (P := s.Says fd command)
    ?_ ?_ ?_ ?_ ?_ ?_ ?_ ?_ ?_ ?_ ?_ ?_ ?_
  · exact s.handlePing_voiced fd command
  · exact fun _ => s.handleQuit_voiced fd command
  · exact s.handleCap_voiced fd command
  · exact fun _ => s.handlePass_voiced fd command hfd
  · exact s.handleUser_voiced fd command hfd
  · exact s.handleNick_voiced fd command hfd
  · exact s.handlePrivmsg_voiced fd command
  · exact s.handleJoin_voiced fd command hlive hfd
  · exact s.handleTopic_voiced fd command
  · exact s.handleKick_voiced fd command
  · exact s.handleInvite_voiced fd command
  · exact s.handleMode_voiced fd command hlive
  · exact s.handleUnknownCommand_voiced fd command

/-! ## Every line of a step -/

section Record

variable {s fd command} {t : Server}

theorem Echoes.of_record {a : Action} {text : Text} (h : (s.record a).Echoes fd command text) :
    s.Echoes fd command text := by
  cases h with
  | unknown h => exact .unknown h
  | ping _ _ h1 h2 => exact .ping _ _ h1 h2
  | quit _ _ h1 h2 => exact .quit _ _ h1 h2
  | cap _ _ h1 h2 => exact .cap _ _ h1 h2
  | user _ _ _ _ _ h1 h2 h3 => exact .user _ _ _ _ _ h1 h2 h3
  | nick _ _ h1 h2 => exact .nick _ _ h1 h2
  | join _ _ h1 h2 h3 => exact .join _ _ h1 h2 h3
  | privmsgTarget _ _ _ h1 h2 h3 => exact .privmsgTarget _ _ _ h1 h2 h3
  | privmsgChannel _ _ _ _ _ h1 h2 h3 h4 h5 h6 h7 h8 =>
    exact .privmsgChannel _ _ _ _ _ h1 h2 h3 h4 h5 h6 h7 h8
  | privmsgUser _ _ _ _ h1 h2 h3 h4 h5 => exact .privmsgUser _ _ _ _ h1 h2 h3 h4 h5
  | topicChannel _ _ h1 h2 h3 => exact .topicChannel _ _ h1 h2 h3
  | topic _ _ _ _ h1 h2 h3 h4 h5 h6 => exact .topic _ _ _ _ h1 h2 h3 h4 h5 h6
  | kickChannel _ _ _ h1 h2 h3 => exact .kickChannel _ _ _ h1 h2 h3
  | kickTarget _ _ _ _ h1 h2 h3 h4 h5 => exact .kickTarget _ _ _ _ h1 h2 h3 h4 h5
  | kickReason _ _ _ _ _ _ h1 h2 h3 h4 h5 h6 h7 => exact .kickReason _ _ _ _ _ _ h1 h2 h3 h4 h5 h6 h7
  | inviteTarget _ _ _ h1 h2 h3 => exact .inviteTarget _ _ _ h1 h2 h3
  | inviteChannel _ _ _ _ h1 h2 h3 h4 => exact .inviteChannel _ _ _ _ h1 h2 h3 h4
  | modeTarget _ _ h1 h2 h3 h4 => exact .modeTarget _ _ h1 h2 h3 h4
  | mode target rest c₀ c before after change text h1 h2 h3 h4 h5 h6 h7 h8 =>
    refine .mode target rest c₀ c before after change text h1 h2 h3 h4 h5 h6 ?_ h8
    rw [← h7]
    exact congrArg (fun κ : Core => κ.channels[ircCaseFold target]?)
      (core_applyChannelModeChanges_congr (core_record s a) _ _).symm

theorem Kept.of_record {a : Action} {text : Text} (h : (s.record a).Kept text) : s.Kept text := by
  cases h with
  | nickname x => exact .nickname x
  | username x => exact .username x
  | reason x => exact .reason x
  | name key c hc => exact .name key c hc
  | topic key c hc => exact .topic key c hc

theorem Spelled.of_record {a : Action} {text : Text} (h : (s.record a).Spelled fd command text) :
    s.Spelled fd command text := by
  induction h with
  | own h => exact .own h
  | kept h => exact .kept h.of_record
  | said h => exact .said h.of_record
  | append _ _ ihl ihr => exact .append ihl ihr

theorem Voiced.of_record {a : Action} {s' : Server} {line : Line}
    (h : (s.record a).Voiced fd command s' line) : s.Voiced fd command s' line :=
  ⟨fun t ht => (h.texts t ht).of_record, h.plain, h.welcome⟩

end Record

/-- **Every line that a step queues for a client's line is voiced.** -/
theorem Reachable.voiced {s s' : Server} {A : Fd} {line : Text} (hr : Reachable s)
    (hs : s.Step (.line A line) s') :
    Logged (fun l => (Command.parse line).valid = true ∧ s.Voiced A (Command.parse line) s' l)
      s s' := by
  unfold Step Server.step at hs
  dsimp only at hs
  split at hs
  swap
  · cases hs
  next hA =>
  cases hs
  have hlive := (live_iff s A).2 hA.1
  unfold handleCompleteLine
  dsimp only
  split
  · exact .record nofun
  next hvalid =>
  refine (Logged.record (a := .completeLine A line) nofun).trans
    ((Logged.record (a := .dispatched A (Command.parse line)) nofun).trans ?_)
  have hsays : Says ((s.record (.completeLine A line)).record (.dispatched A (Command.parse line))) A
      (Command.parse line) _ := dispatchCommand_voiced _ _ _ hr.ok.membersLive hlive
  obtain ⟨actions, hlog, hsaid⟩ := hsays
  exact ⟨actions, hlog, fun m l accepted hmem =>
    ⟨by simpa using hvalid, (hsaid m l accepted hmem).of_record.of_record⟩⟩

end Server

end FtIrc
