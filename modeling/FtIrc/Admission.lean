import FtIrc.Channels
import FtIrc.Stores

/-!
# Who may join a channel

A channel that exists gains a member by an admitted JOIN of that client and by no other
step, and a JOIN that is not admitted changes no channel.
-/

namespace FtIrc

open Std

/-- Folding keeps the first character of a channel name. -/
theorem isChannelTarget_fold (name : Text) :
    Server.isChannelTarget (ircCaseFold name) = Server.isChannelTarget name := by
  cases name with
  | nil => rfl
  | cons first rest =>
    have h1 := foldChar_eq_iff (c := first) (d := '#') (by decide)
    have h2 := foldChar_eq_iff (c := first) (d := '&') (by decide)
    simp only [ircCaseFold, List.map_cons, Server.isChannelTarget, Bool.beq_eq_decide_eq, h1, h2]

/-- What `handleJoin` asks of `client`, on `fd`, that supplies `password` to enter `c`. -/
structure Channel.Admits (c : Channel) (fd : Fd) (client : Client) (password : Option Text) :
    Prop where
  registered : client.registered = true
  stranger : fd ∉ c.members
  password : c.hasKey = true → password = some c.key
  invited : c.inviteOnly = true → c.isInvited client.nickname = true
  room : c.hasUserLimit = true → c.getMemberCount + 1 ≤ c.userLimit

theorem Channel.addMember_eq {c : Channel} {m : Fd} (h : c.hasMember m = false) (flag : Bool) :
    c.addMember m flag = { c with members := c.members.insert m flag } := by
  unfold addMember
  rw [if_neg (by simp [h])]

namespace Server

variable {s s' : Server} {fd m : Fd}

/-! ## Gaining a member -/

/-- The channel after an admitted JOIN. -/
theorem joined_spec (nickname : Text) {c : Channel} (hm : c.hasMember fd = false) :
    ((c.addMember fd false).removeInvite nickname).isMemberOperator fd = false ∧
    ((c.addMember fd false).removeInvite nickname).getMemberCount = c.getMemberCount + 1 ∧
    ((c.addMember fd false).removeInvite nickname).isInvited nickname = false ∧
    ∀ x, x ∈ ((c.addMember fd false).removeInvite nickname).members ↔ x = fd ∨ x ∈ c.members := by
  have hnot : ¬ fd ∈ c.members := by
    rw [← hasMember_iff, hm]
    exact Bool.false_ne_true
  rw [Channel.addMember_eq hm]
  refine ⟨?_, ?_, ?_, ?_⟩
  · simp [Channel.isMemberOperator, Channel.removeInvite]
  · show (c.members.insert fd false).size = c.members.size + 1
    rw [ExtTreeMap.size_insert, if_neg (by rw [← ExtTreeMap.mem_iff_contains]; exact hnot)]
  · simp [Channel.isInvited, Channel.removeInvite]
  · intro x
    show x ∈ c.members.insert fd false ↔ _
    rw [ExtTreeMap.mem_insert, Std.compare_eq_iff_eq, eq_comm]

theorem password_of_hasKey {key : Text} {c : Channel} (hok : s.core.ChannelOk key c)
    {rest : List Text} (hkey : c.hasKey = true) (h : rest.head?.getD [] = c.key) :
    rest.head? = some c.key := by
  cases rest with
  | nil => exact absurd h.symm (hok.password hkey)
  | cons password _ => exact congrArg some h

end Server

theorem mem_of_kept {c c' : Channel} {m : Fd}
    (h : (if (c.removeMember m).empty then none else some (c.removeMember m)) = some c') :
    c' = c.removeMember m := by
  split at h
  · cases h
  · exact (Option.some.inj h).symm

theorem mem_renameInvite {old nickname : Text} {c : Channel} {x : Fd} :
    x ∈ (Server.renameInvite old nickname c).members ↔ x ∈ c.members := by
  rw [Core.renameInvite_kept]

/-- A command brings a member into a channel by an admitted JOIN only. -/
theorem ChannelMove.gain {s : Server} {κ' : Core} {fd m : Fd} {command : Command} {key : Text}
    {x y : Option Channel} {c c' : Channel} (h : ChannelMove s.core κ' fd command key x y)
    (hx : x = some c) (hy : y = some c') (hok : s.core.ChannelOk key c)
    (hm : m ∉ c.members) (hm' : m ∈ c'.members) :
    m = fd ∧ command.name = "JOIN".toList ∧ ∃ channelName rest,
      command.parameters = channelName :: rest ∧ ircCaseFold channelName = key ∧
      c.Admits fd (s.client fd) rest.head? ∧
      c' = (c.addMember fd false).removeInvite (s.core.who fd).nickname := by
  cases h with
  | same =>
    rw [hx] at hy
    cases hy
    exact absurd hm' hm
  | rename =>
    cases hx; cases hy
    exact absurd (mem_renameInvite.1 hm') hm
  | create => cases hx
  | join channelName rest _ hname hparams hkey hreg hmem hinv hpass hlim =>
    cases hx; cases hy
    rcases (Server.joined_spec _ hmem).2.2.2 m |>.1 hm' with rfl | hold
    · refine ⟨rfl, hname, channelName, rest, hparams, hkey, ⟨?_, hm, ?_, ?_, hlim⟩, rfl⟩
      · rw [Server.client_registered]
        exact hreg
      · exact fun hk => Server.password_of_hasKey hok hk (hpass hk)
      · rw [Server.client_nickname]
        exact hinv
    · exact absurd hold hm
  | topic =>
    cases hx; cases hy
    exact absurd hm' hm
  | kick =>
    cases hx
    rw [mem_of_kept hy] at hm'
    exact absurd (Core.mem_removeMember.1 hm').2 hm
  | invite =>
    cases hx; cases hy
    exact absurd hm' hm
  | mode _ _ _ _ _ _ _ _ _ _ hchain =>
    cases hx; cases hy
    exact absurd ((hchain.mem_members m).1 hm') hm

namespace Server

variable {s s' : Server} {fd m : Fd}

theorem Move.gain {e : Event} (hmove : s.Move e s') (hok : s.core.Ok) {key : Text}
    {c c' : Channel} (hc : s.channels[key]? = some c) (hc' : s'.channels[key]? = some c')
    (hm : m ∉ c.members) (hm' : m ∈ c'.members) :
    ∃ line channelName rest, e = .line m line ∧
      Command.parse line = ⟨true, "JOIN".toList, channelName :: rest⟩ ∧
      ircCaseFold channelName = key ∧ c.Admits m (s.client m) rest.head? ∧
      c' = (c.addMember m false).removeInvite (s.core.who m).nickname := by
  have hsame (hcore : s'.core = s.core) : False := by
    have hchannels : s'.channels = s.channels := congrArg Core.channels hcore
    rw [hchannels, hc] at hc'
    cases hc'
    exact hm hm'
  cases hmove with
  | quiet hcore => exact (hsame hcore).elim
  | connect _ hcore =>
    have hchannels : s'.channels = s.channels := congrArg Core.channels hcore
    rw [hchannels, hc] at hc'
    cases hc'
    exact absurd hm' hm
  | @command fd line _ signals hlive hvalid heffect =>
    obtain ⟨rfl, hname, channelName, rest, hparams, hkey, hadm, heq⟩ :=
      (heffect.channelMove hok hlive key).gain hc hc' (hok.channel key c hc) hm hm'
    refine ⟨line, channelName, rest, rfl, ?_, hkey, hadm, heq⟩
    rw [← hvalid, ← hname, ← hparams]
  | @disconnect _ p _ _ _ _ _ hcore =>
    have hchannels : s'.channels = (s.core.disconnect p.fd).channels := congrArg Core.channels hcore
    rw [hchannels, Core.getElem?_disconnect] at hc'
    obtain ⟨c₀, hc₀, hpurge⟩ := Option.bind_eq_some_iff.1 hc'
    rw [show s.core.channels[key]? = some c from hc] at hc₀
    cases hc₀
    obtain ⟨rfl, -⟩ := Core.purgeChannel_eq_some.1 hpurge
    exact absurd (ExtTreeMap.mem_of_mem_erase hm') hm

/-! ## Joining and failing to join -/

theorem dispatchCommand_join {command : Command} (hname : command.name = "JOIN".toList) :
    s.dispatchCommand fd command = s.handleJoin fd command := by
  unfold dispatchCommand
  simp [hname]

theorem handleJoin_existing (s : Server) (fd : Fd) (command : Command) {channelName : Text} {rest : List Text}
    {c : Channel} (hok : s.core.Ok) (hfd : s.core.Live fd)
    (hparams : command.parameters = channelName :: rest)
    (hc : s.channels[ircCaseFold channelName]? = some c) :
    (c.Admits fd (s.client fd) rest.head? →
      (s.handleJoin fd command).core = s.core.setChannel (ircCaseFold channelName)
        ((c.addMember fd false).removeInvite (s.core.who fd).nickname)) ∧
    (¬ c.Admits fd (s.client fd) rest.head? → (s.handleJoin fd command).core = s.core) := by
  have hch := hok.channel _ c hc
  have htarget : isChannelTarget channelName = true := by
    rw [← isChannelTarget_fold, ← hch.key, isChannelTarget_fold]
    exact hch.name
  unfold handleJoin
  rw [hparams]
  dsimp only
  rw [findChannel_eq, show s.core.channels[ircCaseFold channelName]? = some c from hc]
  dsimp only
  split
  · next hreg =>
    refine ⟨fun hadm => ?_, fun _ => core_sendNumeric _ _ _ _⟩
    rw [hadm.registered] at hreg
    cases hreg
  next hreg =>
  rw [htarget]
  simp only [Bool.not_true, Bool.false_eq_true, if_false]
  split
  · next hmem =>
    exact ⟨fun hadm => absurd ((hasMember_iff c fd).1 hmem) hadm.stranger, fun _ => rfl⟩
  next hmem =>
  split
  · next hinv =>
    refine ⟨fun hadm => ?_, fun _ => core_sendNumeric _ _ _ _⟩
    simp only [Bool.and_eq_true, Bool.not_eq_true'] at hinv
    rw [hadm.invited hinv.1] at hinv
    cases hinv.2
  next hinv =>
  split
  · next hpass =>
    refine ⟨fun hadm => ?_, fun _ => core_sendNumeric _ _ _ _⟩
    simp only [Bool.and_eq_true, bne_iff_ne] at hpass
    rw [hadm.password hpass.1] at hpass
    exact absurd rfl hpass.2
  next hpass =>
  split
  · next hlim =>
    refine ⟨fun hadm => ?_, fun _ => core_sendNumeric _ _ _ _⟩
    simp only [Bool.and_eq_true, decide_eq_true_eq] at hlim
    have := hadm.room hlim.1
    omega
  next hlim =>
  have hadm : c.Admits fd (s.client fd) rest.head? := by
    refine ⟨by simpa using hreg, fun h => hmem ((hasMember_iff c fd).2 h), ?_, ?_, ?_⟩
    · intro hk
      exact password_of_hasKey hch hk (by simpa [hk] using hpass)
    · intro hi
      simpa [hi] using hinv
    · intro hl
      have : ¬ c.getMemberCount ≥ c.userLimit := by simpa [hl] using hlim
      omega
  refine ⟨fun _ => ?_, fun hnot => absurd hadm hnot⟩
  rw [client_nickname]
  refine (announceJoin_spec _ fd _ ?_).1
  intro x hx
  rcases (joined_spec _ (by simpa using hmem)).2.2.2 x |>.1 hx with rfl | hx
  · exact hfd
  · exact hok.membersLive _ c hc x hx

theorem step_join {line channelName : Text} {rest : List Text} {c : Channel} (h : Reachable s)
    (hs : s.Step (.line fd line) s')
    (hparse : Command.parse line = ⟨true, "JOIN".toList, channelName :: rest⟩)
    (hc : s.channels[ircCaseFold channelName]? = some c) :
    (c.Admits fd (s.client fd) rest.head? →
      s'.core = s.core.setChannel (ircCaseFold channelName)
        ((c.addMember fd false).removeInvite (s.core.who fd).nickname)) ∧
    (¬ c.Admits fd (s.client fd) rest.head? → s'.core = s.core) := by
  unfold Step step at hs
  dsimp only at hs
  split at hs
  · next hfd =>
    cases hs
    unfold handleCompleteLine
    rw [hparse]
    dsimp only
    rw [Bool.not_true, if_neg Bool.false_ne_true, dispatchCommand_join rfl]
    exact ((s.record (.completeLine fd line)).record (.dispatched fd _)).handleJoin_existing fd
      ⟨true, "JOIN".toList, channelName :: rest⟩ h.ok ((live_iff s fd).2 hfd.1) rfl hc
  · cases hs

/-- **Admission control.** -/
theorem join_admission (h : Reachable s) :
    (∀ (e : Event) (s' : Server) (key : Text) (c c' : Channel) (m : Fd), s.Step e s' →
      s.channels[key]? = some c → s'.channels[key]? = some c' → m ∉ c.members → m ∈ c'.members →
      (∃ line channelName rest, e = .line m line ∧
        Command.parse line = ⟨true, "JOIN".toList, channelName :: rest⟩ ∧
        ircCaseFold channelName = key ∧ c.Admits m (s.client m) rest.head?) ∧
      c'.isMemberOperator m = false ∧ c'.isInvited (s.client m).nickname = false ∧
      (c.hasUserLimit = true → c'.getMemberCount ≤ c.userLimit)) ∧
    (∀ (fd : Fd) (line channelName : Text) (rest : List Text) (c : Channel) (s' : Server),
      s.Step (.line fd line) s' →
      Command.parse line = ⟨true, "JOIN".toList, channelName :: rest⟩ →
      s.channels[ircCaseFold channelName]? = some c →
      (c.Admits fd (s.client fd) rest.head? →
        ∃ c', s'.channels[ircCaseFold channelName]? = some c' ∧ fd ∈ c'.members) ∧
      (¬ c.Admits fd (s.client fd) rest.head? →
        s'.channels = s.channels ∧ s'.nicknameIndex = s.nicknameIndex)) := by
  constructor
  · intro e s' key c c' m hs hc hc' hm hm'
    obtain ⟨line, channelName, rest, rfl, hparse, hkey, hadm, rfl⟩ :=
      (h.move hs).gain h.ok hc hc' hm hm'
    have hmem : c.hasMember m = false := by
      rw [← Bool.not_eq_true, hasMember_iff]
      exact hm
    obtain ⟨hop, hcount, hinv, -⟩ := joined_spec (s.core.who m).nickname hmem
    refine ⟨⟨line, channelName, rest, rfl, hparse, hkey, hadm⟩, hop, ?_, ?_⟩
    · rw [client_nickname]
      exact hinv
    · intro hl
      rw [hcount]
      exact hadm.room hl
  · intro fd line channelName rest c s' hs hparse hc
    obtain ⟨hpos, hneg⟩ := step_join h hs hparse hc
    constructor
    · intro hadm
      have hchannels : s'.channels = _ := congrArg Core.channels (hpos hadm)
      refine ⟨_, by rw [hchannels]; exact (Core.getElem?_setChannel _ _ _ _).trans (if_pos rfl), ?_⟩
      have hmem : c.hasMember fd = false := by
        rw [← Bool.not_eq_true, hasMember_iff]
        exact hadm.stranger
      exact ((joined_spec _ hmem).2.2.2 fd).2 (Or.inl rfl)
    · intro hnot
      have hcore := hneg hnot
      exact ⟨congrArg Core.channels hcore, congrArg Core.nicknameIndex hcore⟩

theorem join_admission_session :
    ∃ s' c', session.Step (.line 5 "JOIN #C".toList) s' ∧
      s'.channels["#c".toList]? = some c' ∧ 5 ∈ c'.members := by
  have hstep : (session.step (.line 5 "JOIN #C".toList)).isSome = true := by decide +kernel
  have hchannel : (session.channels["#c".toList]?).map (fun c =>
      (c.hasKey, c.hasMember 5, c.isInvited (session.client 5).nickname, c.hasUserLimit)) =
      some (false, false, true, false) := by decide +kernel
  have hreg : (session.client 5).registered = true := by decide +kernel
  obtain ⟨s', hs⟩ := Option.isSome_iff_exists.1 hstep
  obtain ⟨c, hc, hfields⟩ := Option.map_eq_some_iff.1 hchannel
  simp only [Prod.mk.injEq] at hfields
  obtain ⟨hkey, hmem, hinv, hlim⟩ := hfields
  have hadm : c.Admits 5 (session.client 5) none :=
    { registered := hreg
      stranger := fun h => by rw [(hasMember_iff c 5).2 h] at hmem; cases hmem
      password := fun h => by rw [hkey] at h; cases h
      invited := fun _ => hinv
      room := fun h => by rw [hlim] at h; cases h }
  obtain ⟨c', hc', hm⟩ := ((join_admission session_reachable).2 5 "JOIN #C".toList "#C".toList []
    c s' hs (by decide) hc).1 hadm
  exact ⟨s', c', hs, hc', hm⟩

end Server

end FtIrc
