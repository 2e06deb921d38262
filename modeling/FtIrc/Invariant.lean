import FtIrc.Steps
import FtIrc.Lib.Index

/-!
# The invariant of the core

`Core.Ok` ties the three stores of the server together: the nickname index is exact
(`Index.Exact`), registration has been earned, and the channels stand under their own
names with registered members only.  Every effect of a command keeps it (`Effect.ok`), and
so does every step, so it holds of every reachable state (`Server.Reachable.ok`).
-/

namespace FtIrc

open Std

/-- A nickname has passed `isValidNickname`, and a registered client has given all three
of password, nickname and user. -/
structure Identity.Ok (id : Identity) : Prop where
  nickname : id.nickname ≠ [] → Server.isValidNickname id.nickname = true
  registered : id.registered = true →
    id.passwordAccepted = true ∧ id.nickname ≠ [] ∧ id.hasUser = true

namespace Core

variable (κ : Core) (fd : Fd)

/-- The index entry the client on `fd` is due. -/
def label : Option Text :=
  if (κ.who fd).nickname = [] then none else some (ircCaseFold (κ.who fd).nickname)

structure ChannelOk (key : Text) (c : Channel) : Prop where
  key : ircCaseFold c.name = key
  name : Server.isChannelTarget c.name = true
  inhabited : ∃ m, m ∈ c.members
  members : ∀ m ∈ c.members, (κ.who m).registered = true
  password : c.hasKey = true → c.key ≠ []

structure Ok : Prop where
  index : Index.Exact (fun key => κ.nicknameIndex[key]?) κ.label
  identity : ∀ fd, (κ.who fd).Ok
  channel : ∀ key c, κ.channels[key]? = some c → κ.ChannelOk key c

variable {κ fd}

theorem label_eq_some {key : Text} :
    κ.label fd = some key ↔ (κ.who fd).nickname ≠ [] ∧ ircCaseFold (κ.who fd).nickname = key := by
  unfold label
  split
  · next h => simp [h]
  · next h => simp [h]

theorem live_of_registered (h : (κ.who fd).registered = true) : κ.Live fd := by
  unfold who at h
  unfold Live
  cases hid : κ.identities fd with
  | none => rw [hid] at h; cases h
  | some id => rfl

theorem live_of_nickname (h : (κ.who fd).nickname ≠ []) : κ.Live fd := by
  unfold who at h
  unfold Live
  cases hid : κ.identities fd with
  | none => rw [hid] at h; exact absurd rfl h
  | some id => rfl

theorem Ok.membersLive (h : κ.Ok) : κ.MembersLive := fun key c hc m hm =>
  live_of_registered ((h.channel key c hc).members m hm)

theorem Ok.holder_eq_some (h : κ.Ok) {nickname : Text} :
    κ.holder nickname = some fd ↔ κ.label fd = some (ircCaseFold nickname) := by
  rw [← h.index (ircCaseFold nickname) fd]
  unfold holder
  dsimp only
  cases hk : κ.nicknameIndex[ircCaseFold nickname]? with
  | none => simp
  | some x =>
    obtain ⟨hne, -⟩ := label_eq_some.1 ((h.index _ _).1 hk)
    obtain ⟨id, hid⟩ := Option.isSome_iff_exists.1 (live_of_nickname hne)
    simp [hid]

/-! ## Updates of one client -/

theorem who_modify_cases (κ : Core) (fd x : Fd) (f : Identity → Identity) :
    (κ.modify fd f).who x = κ.who x ∨ fd = x ∧ (κ.modify fd f).who x = f (κ.who x) := by
  by_cases hx : fd = x
  · subst hx
    cases hid : κ.identities fd with
    | none => left; simp [who, modify, hid]
    | some id => right; exact ⟨rfl, by simp [who, modify, hid]⟩
  · exact Or.inl (κ.who_modify_of_ne fd hx)

theorem ChannelOk.mono {κ' : Core} {key : Text} {c : Channel} (h : κ.ChannelOk key c)
    (hreg : ∀ x, (κ.who x).registered = true → (κ'.who x).registered = true) :
    κ'.ChannelOk key c where
  key := h.key
  name := h.name
  inhabited := h.inhabited
  members m hm := hreg m (h.members m hm)
  password := h.password

/-- An update of the clients that keeps the nicknames. -/
theorem Ok.of_who {κ' : Core} (h : κ.Ok) (hindex : κ'.nicknameIndex = κ.nicknameIndex)
    (hchannels : κ'.channels = κ.channels)
    (hnick : ∀ x, (κ'.who x).nickname = (κ.who x).nickname)
    (hreg : ∀ x, (κ.who x).registered = true → (κ'.who x).registered = true)
    (hid : ∀ x, (κ'.who x).Ok) : κ'.Ok := by
  have hlabel : κ'.label = κ.label := by
    funext x
    unfold label
    rw [hnick]
  refine ⟨by rw [hindex, hlabel]; exact h.index, hid, ?_⟩
  intro key c hc
  rw [hchannels] at hc
  exact (h.channel key c hc).mono hreg

theorem Ok.modify (h : κ.Ok) {f : Identity → Identity} (hnick : ∀ id, (f id).nickname = id.nickname)
    (hreg : ∀ id, id.registered = true → (f id).registered = true)
    (hid : (f (κ.who fd)).Ok) : (κ.modify fd f).Ok := by
  refine h.of_who rfl rfl (fun x => who_modify_field κ fd hnick x) ?_ ?_
  · intro x hx
    rcases who_modify_cases κ fd x f with he | ⟨-, he⟩ <;> rw [he]
    · exact hx
    · exact hreg _ hx
  · intro x
    rcases who_modify_cases κ fd x f with he | ⟨rfl, he⟩ <;> rw [he]
    · exact h.identity x
    · exact hid

theorem Ok.acceptPassword (h : κ.Ok) : (κ.acceptPassword fd).Ok :=
  h.modify (fun _ => rfl) (fun _ h => h)
    { nickname := (h.identity fd).nickname
      registered := fun hr => ⟨rfl, ((h.identity fd).registered hr).2⟩ }

theorem Ok.setUser (h : κ.Ok) (username realname : Text) : (κ.setUser fd username realname).Ok :=
  h.modify (fun _ => rfl) (fun _ h => h)
    { nickname := (h.identity fd).nickname
      registered := fun hr =>
        ⟨((h.identity fd).registered hr).1, ((h.identity fd).registered hr).2.1, rfl⟩ }

theorem Ok.complete (h : κ.Ok) : (κ.complete fd).Ok := by
  unfold Core.complete
  split
  · next hc =>
    unfold completes at hc
    simp only [Bool.and_eq_true, Bool.not_eq_true', List.isEmpty_eq_false_iff] at hc
    exact h.modify (fun _ => rfl) (fun _ _ => rfl)
      { nickname := (h.identity fd).nickname
        registered := fun _ => ⟨hc.2.1.1, hc.2.1.2, hc.2.2⟩ }
  · exact h

/-! ## NICK -/

theorem identities_rename (κ : Core) (fd : Fd) (nickname : Text) :
    (κ.rename fd nickname).identities =
      (κ.modify fd ({ · with nickname := nickname })).identities := by
  unfold rename
  dsimp only
  split <;> rfl

theorem who_rename (κ : Core) (fd : Fd) (nickname : Text) (x : Fd) :
    (κ.rename fd nickname).who x = (κ.modify fd ({ · with nickname := nickname })).who x := by
  unfold who
  rw [identities_rename]

/-- What a rename leaves of a channel. -/
theorem getElem?_rename (κ : Core) (fd : Fd) (nickname key : Text) :
    (κ.rename fd nickname).channels[key]? = (κ.channels[key]?).map fun c =>
      if (κ.who fd).nickname = [] then c
      else Server.renameInvite (κ.who fd).nickname nickname c := by
  unfold rename
  dsimp only
  cases hold : (κ.who fd).nickname with
  | nil => simp [modify]
  | cons d ds =>
    simp only [List.isEmpty_cons, Bool.false_eq_true, if_false, reduceCtorEq]
    rw [ExtTreeMap.getElem?_map]

theorem index_rename (κ : Core) (fd : Fd) (nickname key : Text) :
    (κ.rename fd nickname).nicknameIndex[key]? =
      if ircCaseFold nickname = key then some fd
      else if κ.label fd = some key then none else κ.nicknameIndex[key]? := by
  unfold rename label
  dsimp only
  cases hold : (κ.who fd).nickname with
  | nil => simp [ExtTreeMap.getElem?_insert]
  | cons d ds => simp [ExtTreeMap.getElem?_insert, ExtTreeMap.getElem?_erase]

theorem label_rename (hlive : κ.Live fd) {nickname : Text} (hne : nickname ≠ []) (x : Fd) :
    (κ.rename fd nickname).label x =
      if fd = x then some (ircCaseFold nickname) else κ.label x := by
  unfold label
  rw [who_rename]
  split
  · next h =>
    split
    · next hx => subst hx; rw [who_modify_self κ fd hlive] at h; exact absurd h hne
    · next hx => rw [who_modify_of_ne κ fd hx] at h; rw [if_pos h]
  · next h =>
    split
    · next hx => subst hx; rw [who_modify_self κ fd hlive]
    · next hx => rw [who_modify_of_ne κ fd hx] at h ⊢; rw [if_neg h]

theorem renameInvite_kept (old nickname : Text) (c : Channel) :
    Server.renameInvite old nickname c =
      { c with invitedUsers := (Server.renameInvite old nickname c).invitedUsers } := by
  unfold Server.renameInvite
  split <;> rfl

theorem ne_nil_of_isValidNickname {nickname : Text} (h : Server.isValidNickname nickname = true) :
    nickname ≠ [] := by
  rintro rfl
  cases h

theorem Ok.rename (h : κ.Ok) (hlive : κ.Live fd) {nickname : Text}
    (hvalid : Server.isValidNickname nickname = true)
    (hfree : ∀ other, κ.nicknameIndex[ircCaseFold nickname]? = some other → other = fd) :
    (κ.rename fd nickname).Ok := by
  have hne := ne_nil_of_isValidNickname hvalid
  have hreg (x : Fd) : ((κ.rename fd nickname).who x).registered = (κ.who x).registered := by
    rw [who_rename]
    exact who_modify_field κ fd (f := ({ · with nickname := nickname }))
      (g := Identity.registered) (fun _ => rfl) x
  refine ⟨?_, ?_, ?_⟩
  · exact h.index.relabel fd hfree (index_rename κ fd nickname) (label_rename hlive hne)
  · intro x
    rw [who_rename]
    rcases who_modify_cases κ fd x ({ · with nickname := nickname }) with he | ⟨rfl, he⟩ <;> rw [he]
    · exact h.identity x
    · exact
        { nickname := fun _ => hvalid
          registered := fun hr => ⟨((h.identity fd).registered hr).1, hne,
            ((h.identity fd).registered hr).2.2⟩ }
  · intro key c hc
    rw [getElem?_rename] at hc
    obtain ⟨c₀, hc₀, rfl⟩ := Option.map_eq_some_iff.1 hc
    have hok : (κ.rename fd nickname).ChannelOk key c₀ :=
      (h.channel key c₀ hc₀).mono fun x hx => by rw [hreg]; exact hx
    split
    · exact hok
    · rw [renameInvite_kept]
      exact { hok with }

/-! ## Updates of one channel -/

theorem getElem?_setChannel (κ : Core) (key : Text) (c : Channel) (k : Text) :
    (κ.setChannel key c).channels[k]? = if key = k then some c else κ.channels[k]? := by
  unfold setChannel
  simp only [ExtTreeMap.getElem?_insert, Std.compare_eq_iff_eq]

theorem Ok.setChannel (h : κ.Ok) {key : Text} {c : Channel} (hc : κ.ChannelOk key c) :
    (κ.setChannel key c).Ok := by
  refine ⟨h.index, h.identity, ?_⟩
  intro k c₁ hk
  rw [getElem?_setChannel] at hk
  split at hk
  · next he => subst he; cases hk; exact hc.mono fun _ hx => hx
  · exact (h.channel k c₁ hk).mono fun _ hx => hx

theorem ChannelOk.addMember {key : Text} {c : Channel} (h : κ.ChannelOk key c)
    (hreg : (κ.who fd).registered = true) (flag : Bool) : κ.ChannelOk key (c.addMember fd flag) := by
  unfold Channel.addMember
  split
  · exact h
  · exact { h with
      inhabited := ⟨fd, ExtTreeMap.mem_insert_self⟩
      members := fun m hm => by
        rw [ExtTreeMap.mem_insert, Std.compare_eq_iff_eq] at hm
        rcases hm with rfl | hm
        · exact hreg
        · exact h.members m hm }

theorem channelOk_create {name : Text} (hname : Server.isChannelTarget name = true)
    (hreg : (κ.who fd).registered = true) :
    κ.ChannelOk (ircCaseFold name) (({ name := name } : Channel).addMember fd true) := by
  have hadd : ({ name := name } : Channel).addMember fd true =
      { name := name, members := (∅ : MemberMap).insert fd true } := rfl
  rw [hadd]
  exact
    { key := rfl
      name := hname
      inhabited := ⟨fd, ExtTreeMap.mem_insert_self⟩
      members := fun m hm => by
        rw [ExtTreeMap.mem_insert, Std.compare_eq_iff_eq] at hm
        rcases hm with rfl | hm
        · exact hreg
        · exact absurd hm ExtTreeMap.not_mem_empty
      password := fun hk => by cases hk }

theorem not_empty_iff {c : Channel} : c.empty = false ↔ ∃ m, m ∈ c.members := by
  unfold Channel.empty
  rw [ExtTreeMap.isEmpty_eq_false_iff, ExtTreeMap.eq_empty_iff_forall_not_mem]
  push Not
  exact Iff.rfl

theorem mem_removeMember {c : Channel} {m x : Fd} :
    x ∈ (c.removeMember m).members ↔ m ≠ x ∧ x ∈ c.members := by
  unfold Channel.removeMember
  rw [ExtTreeMap.mem_erase, ne_eq, Std.compare_eq_iff_eq]

theorem ChannelOk.removeMember {key : Text} {c : Channel} (h : κ.ChannelOk key c) {m : Fd}
    (hne : (c.removeMember m).empty = false) : κ.ChannelOk key (c.removeMember m) :=
  { h with
    inhabited := not_empty_iff.1 hne
    members := fun x hx => h.members x (mem_removeMember.1 hx).2 }

theorem Ok.dropMember (h : κ.Ok) {key : Text} {c : Channel} (hc : κ.channels[key]? = some c)
    (m : Fd) : (κ.dropMember m key c).Ok := by
  unfold Core.dropMember
  split
  · refine ⟨h.index, h.identity, ?_⟩
    intro k c₁ hk
    rw [ExtTreeMap.getElem?_erase] at hk
    split at hk
    · cases hk
    · exact (h.channel k c₁ hk).mono fun _ hx => hx
  · next hne => exact h.setChannel ((h.channel key c hc).removeMember (by simpa using hne))

theorem ChannelOk.mode {key : Text} {c c' : Channel} {change : ModeChange} (h : κ.ChannelOk key c)
    (hmode : ModeApplied κ change c c') : κ.ChannelOk key c' := by
  have hinh : ∃ m, m ∈ c'.members := by
    obtain ⟨m, hm⟩ := h.inhabited
    exact ⟨m, (hmode.mem_members m).2 hm⟩
  have hmem : ∀ m ∈ c'.members, (κ.who m).registered = true := fun m hm =>
    h.members m ((hmode.mem_members m).1 hm)
  cases hmode with
  | setKey _ _ hne _ => exact { h with password := fun _ => hne }
  | removeKey => exact { h with password := fun hk => by cases hk }
  | setOperator target _ _ hm _ =>
    have hset : c.setMemberOperator target change.adding =
        { c with members := c.members.insert target change.adding } := if_pos hm
    rw [hset] at hinh hmem ⊢
    exact { h with inhabited := hinh, members := hmem }
  | _ => exact { h with }

theorem Ok.modeRun {key : Text} {changes : List ModeChange} {κ' : Core} {signals : List Signal}
    (hrun : ModeRun fd key κ changes κ' signals) (h : κ.Ok) : κ'.Ok := by
  induction hrun with
  | nil => exact h
  | refused _ _ _ ih => exact ih h
  | unchanged _ ih => exact ih h
  | applied hc hmode _ ih => exact ih (h.setChannel ((h.channel _ _ hc).mode hmode))

/-! ## Connections -/

theorem who_connect (hnew : ¬ κ.Live fd) (x : Fd) : (κ.connect fd).who x = κ.who x := by
  unfold who connect
  dsimp only
  split
  · next hx =>
    subst hx
    unfold Live at hnew
    rw [Option.not_isSome_iff_eq_none.1 hnew]
    rfl
  · rfl

theorem Ok.connect (h : κ.Ok) (hnew : ¬ κ.Live fd) : (κ.connect fd).Ok :=
  h.of_who rfl rfl (fun x => by rw [who_connect hnew]) (fun x hx => by rw [who_connect hnew]; exact hx)
    fun x => by rw [who_connect hnew]; exact h.identity x

theorem who_disconnect (κ : Core) (fd x : Fd) :
    (κ.disconnect fd).who x = if fd = x then {} else κ.who x := by
  unfold who disconnect
  dsimp only
  split <;> rfl

theorem live_connect {x : Fd} : (κ.connect fd).Live x ↔ fd = x ∨ κ.Live x := by
  unfold Live connect
  dsimp only
  split
  · next hx => simp [hx]
  · next hx => simp [hx]

theorem live_disconnect {x : Fd} : (κ.disconnect fd).Live x ↔ fd ≠ x ∧ κ.Live x := by
  unfold Live disconnect
  dsimp only
  split
  · next hx => simp [hx]
  · next hx => simp [hx]

theorem label_disconnect (κ : Core) (fd x : Fd) :
    (κ.disconnect fd).label x = if fd = x then none else κ.label x := by
  unfold label
  rw [who_disconnect]
  split
  · next hx => rw [if_pos rfl]
  · rfl

theorem Ok.index_disconnect (h : κ.Ok) (fd : Fd) (key : Text) :
    (κ.disconnect fd).nicknameIndex[key]? =
      if κ.label fd = some key then none else κ.nicknameIndex[key]? := by
  unfold Core.disconnect
  dsimp only
  by_cases hnick : (κ.who fd).nickname = []
  · rw [label, if_pos hnick, if_neg (by simp [hnick])]
    simp
  · have hown : κ.nicknameIndex[ircCaseFold (κ.who fd).nickname]? = some fd :=
      (h.index _ _).2 (label_eq_some.2 ⟨hnick, rfl⟩)
    rw [label, if_neg hnick, if_pos (by simp [hnick, hown])]
    simp [ExtTreeMap.getElem?_erase]

theorem getElem?_disconnect (κ : Core) (fd : Fd) (key : Text) :
    (κ.disconnect fd).channels[key]? =
      (κ.channels[key]?).bind (Server.purgeChannel fd (κ.who fd).nickname) := by
  unfold disconnect
  rw [ExtTreeMap.getElem?_filterMap']

/-- A channel that `purgeChannel` keeps. -/
def purged (fd : Fd) (nickname : Text) (c : Channel) : Channel :=
  { c with
    members := c.members.erase fd
    invitedUsers := if nickname = [] then c.invitedUsers
      else c.invitedUsers.erase (ircCaseFold nickname) }

theorem purgeChannel_eq (nickname : Text) (c : Channel) :
    Server.purgeChannel fd nickname c =
      if (purged fd nickname c).empty then none else some (purged fd nickname c) := by
  cases nickname <;> rfl

theorem purgeChannel_eq_some {nickname : Text} {c c' : Channel} :
    Server.purgeChannel fd nickname c = some c' ↔
      c' = purged fd nickname c ∧ ∃ m, m ∈ c'.members := by
  rw [purgeChannel_eq]
  split
  · next he =>
    constructor
    · intro h
      cases h
    · rintro ⟨rfl, hm⟩
      rw [not_empty_iff.2 hm] at he
      cases he
  · next he =>
    rw [Bool.not_eq_true] at he
    constructor
    · intro h
      cases h
      exact ⟨rfl, not_empty_iff.1 he⟩
    · rintro ⟨rfl, -⟩
      rfl

theorem Ok.disconnect (h : κ.Ok) (fd : Fd) : (κ.disconnect fd).Ok := by
  refine ⟨h.index.unlabel fd (h.index_disconnect fd) (label_disconnect κ fd), ?_, ?_⟩
  · intro x
    rw [who_disconnect]
    split
    · exact ⟨fun hn => absurd rfl hn, fun hr => by cases hr⟩
    · exact h.identity x
  · intro key c' hc'
    rw [getElem?_disconnect] at hc'
    obtain ⟨c, hc, hpurge⟩ := Option.bind_eq_some_iff.1 hc'
    obtain ⟨rfl, hinh⟩ := purgeChannel_eq_some.1 hpurge
    have hok := h.channel key c hc
    refine
      { key := hok.key
        name := hok.name
        inhabited := hinh
        members := ?_
        password := hok.password }
    intro m hm
    unfold purged at hm
    dsimp only at hm
    rw [ExtTreeMap.mem_erase, ne_eq, Std.compare_eq_iff_eq] at hm
    rw [who_disconnect, if_neg hm.1]
    exact hok.members m hm.2

end Core

/-! ## Every command and every step -/

theorem Effect.ok {κ κ' : Core} {fd : Fd} {command : Command} {signals : List Signal}
    (he : Effect κ fd command κ' signals) (h : κ.Ok) (hlive : κ.Live fd) : κ'.Ok := by
  cases he with
  | silent => exact h
  | reply => exact h
  | quit => exact h
  | pass => exact h.acceptPassword.complete
  | user => exact (h.setUser _ _).complete
  | nick nickname _ _ _ _ hvalid hfree => exact (h.rename hlive hvalid hfree).complete
  | create channelName _ _ _ hreg hname _ => exact h.setChannel (Core.channelOk_create hname hreg)
  | join _ _ c _ _ hreg _ hc =>
    have hadd := (h.channel _ c hc).addMember hreg false
    exact h.setChannel { hadd with }
  | privmsgChannel => exact h
  | privmsgUser => exact h
  | topic _ _ _ c _ _ _ hc =>
    have hok := h.channel _ c hc
    exact h.setChannel { hok with }
  | kick _ _ _ c target _ _ _ hc => exact h.dropMember hc target
  | invite _ _ _ c _ _ _ _ _ hc =>
    have hok := h.channel _ c hc
    exact h.setChannel { hok with }
  | mode _ _ _ _ _ _ _ _ _ _ _ _ hrun => exact Core.Ok.modeRun hrun h

namespace Server

theorem ok_start (listenerFd : Fd) (password : Text) : (start listenerFd password).core.Ok := by
  have hwho (x : Fd) : (start listenerFd password).core.who x = {} := by
    simp [Core.who, core, start]
  refine ⟨?_, ?_, ?_⟩
  · intro key fd
    rw [Core.label, hwho]
    simp [core, start]
  · intro fd
    rw [hwho]
    exact ⟨fun hn => absurd rfl hn, fun hr => by cases hr⟩
  · intro key c hc
    simp [core, start] at hc

theorem Move.ok {s s' : Server} {e : Event} (hm : s.Move e s') (h : s.core.Ok) : s'.core.Ok := by
  cases hm with
  | quiet hcore => rw [hcore]; exact h
  | connect hnew hcore => rw [hcore]; exact h.connect hnew
  | command signals hlive _ heffect => exact heffect.ok h hlive
  | disconnect _ _ _ _ hcore => rw [hcore]; exact h.disconnect _

/-- **The invariant holds in every reachable state.** -/
theorem Reachable.ok {s : Server} (h : Reachable s) : s.core.Ok :=
  h.invariant (I := fun s => s.core.Ok) ok_start
    fun _ _ _ _ hok hs => (hs.move hok.membersLive).ok hok

theorem Reachable.move {s s' : Server} {e : Event} (h : Reachable s) (hs : s.Step e s') :
    s.Move e s' := hs.move h.ok.membersLive

end Server

end FtIrc
