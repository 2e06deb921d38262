import FtIrc.Admission

/-!
# Invitations belong to connections

The server keeps invitations by folded nickname.  Here a relation `R key fd` keeps them by
descriptor, and `Core.InvitedBy` says the two agree; each kind of step carries the relation
over (`Core.carry`).  With the connections numbered by a ghost this gives invitations by
connection, whatever happens to nicknames and descriptors.
-/

namespace FtIrc

open Std

namespace Core

variable {κ κ' : Core} {fd : Fd} {R : Text → Fd → Prop}

/-- `R` is who the stored invitations are for. -/
structure InvitedBy (κ : Core) (R : Text → Fd → Prop) : Prop where
  stranger : ∀ key x, R key x → ∃ c, κ.channels[key]? = some c ∧ x ∉ c.members
  nickname : ∀ key x, R key x → (κ.who x).nickname ≠ []
  exact : ∀ (key : Text) (c : Channel), κ.channels[key]? = some c → ∀ name,
    name ∈ c.invitedUsers ↔ ∃ x, R key x ∧ κ.label x = some name

/-- What is left of `R` in `κ'`: the clients that are still connected, for the channels
that still exist and that they have not joined. -/
def carry (κ' : Core) (R : Text → Fd → Prop) (key : Text) (x : Fd) : Prop :=
  R key x ∧ κ'.Live x ∧ ∃ c, κ'.channels[key]? = some c ∧ x ∉ c.members

theorem live_of_label {name : Text} (h : κ.label fd = some name) : κ.Live fd :=
  live_of_nickname (label_eq_some.1 h).1

theorem InvitedBy.notMem (h : κ.InvitedBy R) {key : Text} {x : Fd} (hR : R key x) {c : Channel}
    (hc : κ.channels[key]? = some c) : x ∉ c.members := by
  obtain ⟨c₀, hc₀, hx⟩ := h.stranger key x hR
  rw [hc] at hc₀
  cases hc₀
  exact hx

theorem InvitedBy.carry (hnick : ∀ key x, R key x → κ'.Live x → (κ'.who x).nickname ≠ [])
    (hexact : ∀ (key : Text) (c : Channel), κ'.channels[key]? = some c → ∀ name,
      name ∈ c.invitedUsers ↔ ∃ x, R key x ∧ x ∉ c.members ∧ κ'.label x = some name) :
    κ'.InvitedBy (κ'.carry R) := by
  refine ⟨fun key x h => h.2.2, fun key x h => hnick key x h.1 h.2.1, ?_⟩
  intro key c hc name
  rw [hexact key c hc name]
  constructor
  · rintro ⟨x, hR, hx, hlabel⟩
    exact ⟨x, ⟨hR, live_of_label hlabel, c, hc, hx⟩, hlabel⟩
  · rintro ⟨x, ⟨hR, -, c₀, hc₀, hx⟩, hlabel⟩
    rw [hc] at hc₀
    cases hc₀
    exact ⟨x, hR, hx, hlabel⟩

/-! ## Steps that invite nobody -/

/-- Nicknames and invitations stay, and no channel gains a member. -/
theorem InvitedBy.kept (h : κ.InvitedBy R)
    (hnick : ∀ x, (κ'.who x).nickname = (κ.who x).nickname)
    (hchannels : ∀ (key : Text) (c' : Channel), κ'.channels[key]? = some c' →
      ∃ c, κ.channels[key]? = some c ∧ c'.invitedUsers = c.invitedUsers ∧
        ∀ m ∈ c'.members, m ∈ c.members) : κ'.InvitedBy (κ'.carry R) := by
  have hlabel (x : Fd) : κ'.label x = κ.label x := by
    unfold label
    rw [hnick]
  refine .carry (fun k x hR _ => by rw [hnick]; exact h.nickname k x hR) ?_
  intro key c' hc' name
  obtain ⟨c, hc, hinv, hmem⟩ := hchannels key c' hc'
  rw [hinv, h.exact key c hc]
  constructor
  · rintro ⟨x, hR, hl⟩
    exact ⟨x, hR, fun hx => h.notMem hR hc (hmem x hx), (hlabel x).trans hl⟩
  · rintro ⟨x, hR, -, hl⟩
    exact ⟨x, hR, (hlabel x).symm.trans hl⟩

theorem InvitedBy.same (h : κ.InvitedBy R)
    (hnick : ∀ x, (κ'.who x).nickname = (κ.who x).nickname)
    (hchannels : κ'.channels = κ.channels) : κ'.InvitedBy (κ'.carry R) :=
  h.kept hnick fun _ c' hc' => ⟨c', hchannels ▸ hc', rfl, fun _ hm => hm⟩

theorem InvitedBy.setChannel (h : κ.InvitedBy R) {key : Text} {c c' : Channel}
    (hc : κ.channels[key]? = some c) (hinv : c'.invitedUsers = c.invitedUsers)
    (hmem : ∀ m ∈ c'.members, m ∈ c.members) :
    (κ.setChannel key c').InvitedBy ((κ.setChannel key c').carry R) := by
  refine h.kept (fun _ => rfl) ?_
  intro k d hd
  rw [getElem?_setChannel] at hd
  split at hd
  · next hk => subst hk; cases hd; exact ⟨c, hc, hinv, hmem⟩
  · exact ⟨d, hd, rfl, fun _ hm => hm⟩

theorem InvitedBy.create (h : κ.InvitedBy R) {name : Text}
    (hnone : κ.channels[ircCaseFold name]? = none) :
    (κ.setChannel (ircCaseFold name)
      (({ name := name } : Channel).addMember fd true)).InvitedBy
      ((κ.setChannel (ircCaseFold name)
        (({ name := name } : Channel).addMember fd true)).carry R) := by
  refine .carry (fun key x hR _ => h.nickname key x hR) ?_
  intro key c hc n
  rw [getElem?_setChannel] at hc
  split at hc
  · next hk =>
    subst hk
    cases hc
    constructor
    · intro hn
      exact absurd hn ExtTreeSet.not_mem_empty
    · rintro ⟨x, hR, -, -⟩
      obtain ⟨c, hc, -⟩ := h.stranger _ x hR
      rw [hnone] at hc
      cases hc
  · rw [h.exact key c hc]
    constructor
    · rintro ⟨x, hR, hl⟩
      exact ⟨x, hR, h.notMem hR hc, hl⟩
    · rintro ⟨x, hR, -, hl⟩
      exact ⟨x, hR, hl⟩

/-- Joining uses the invitation up. -/
theorem InvitedBy.join (h : κ.InvitedBy R) (hok : κ.Ok) {key : Text} {c : Channel}
    (hc : κ.channels[key]? = some c) (hmem : c.hasMember fd = false)
    (hnick : (κ.who fd).nickname ≠ []) :
    (κ.setChannel key ((c.addMember fd false).removeInvite (κ.who fd).nickname)).InvitedBy
      ((κ.setChannel key
        ((c.addMember fd false).removeInvite (κ.who fd).nickname)).carry R) := by
  have hfd : κ.label fd = some (ircCaseFold (κ.who fd).nickname) := label_eq_some.2 ⟨hnick, rfl⟩
  refine .carry (fun key x hR _ => h.nickname key x hR) ?_
  intro k d hd n
  rw [getElem?_setChannel] at hd
  split at hd
  · next hk =>
    subst hk
    cases hd
    rw [Channel.addMember_eq hmem]
    show n ∈ c.invitedUsers.erase _ ↔ ∃ x, R key x ∧ x ∉ c.members.insert fd false ∧ κ.label x = _
    rw [ExtTreeSet.mem_erase, ne_eq, Std.compare_eq_iff_eq, h.exact key c hc]
    constructor
    · rintro ⟨hne, x, hR, hl⟩
      refine ⟨x, hR, ?_, hl⟩
      rw [ExtTreeMap.mem_insert, Std.compare_eq_iff_eq]
      rintro (rfl | hx)
      · exact hne (Option.some.inj (hfd.symm.trans hl))
      · exact h.notMem hR hc hx
    · rintro ⟨x, hR, hx, hl⟩
      refine ⟨?_, x, hR, hl⟩
      rintro rfl
      rw [hok.index.injective hl hfd] at hx
      exact hx ExtTreeMap.mem_insert_self
  · rw [h.exact k d hd]
    constructor
    · rintro ⟨x, hR, hl⟩
      exact ⟨x, hR, h.notMem hR hd, hl⟩
    · rintro ⟨x, hR, -, hl⟩
      exact ⟨x, hR, hl⟩

theorem mem_renameInvite_invitedUsers {old nickname n : Text} {c : Channel} :
    n ∈ (Server.renameInvite old nickname c).invitedUsers ↔
      ircCaseFold old ∈ c.invitedUsers ∧ ircCaseFold nickname = n ∨
        n ∈ c.invitedUsers ∧ ¬ (ircCaseFold old ∈ c.invitedUsers ∧ ircCaseFold old = n) := by
  unfold Server.renameInvite Channel.isInvited
  by_cases hold : ircCaseFold old ∈ c.invitedUsers
  · rw [if_pos (ExtTreeSet.mem_iff_contains.1 hold)]
    unfold Channel.addInvite Channel.removeInvite
    simp only [ExtTreeSet.mem_insert, ExtTreeSet.mem_erase, ne_eq, Std.compare_eq_iff_eq, hold,
      true_and]
    rw [and_comm (a := n ∈ c.invitedUsers)]
  · rw [if_neg (fun h => hold (ExtTreeSet.mem_iff_contains.2 h))]
    simp [hold]

/-- Whether a client with a nickname is invited. -/
theorem InvitedBy.invited_self (h : κ.InvitedBy R) (hok : κ.Ok) {key : Text} {c : Channel}
    (hc : κ.channels[key]? = some c) (hold : (κ.who fd).nickname ≠ []) :
    ircCaseFold (κ.who fd).nickname ∈ c.invitedUsers ↔ R key fd := by
  have hown := label_eq_some.2 ⟨hold, rfl⟩
  rw [h.exact key c hc]
  constructor
  · rintro ⟨x, hR, hl⟩
    rw [hok.index.injective hown hl]
    exact hR
  · exact fun hR => ⟨fd, hR, hown⟩

/-- After a renaming the other invited clients keep their labels. -/
theorem InvitedBy.carry_rename (h : κ.InvitedBy R) (hlive : κ.Live fd) {nickname : Text}
    (hne : nickname ≠ []) {key : Text} {c : Channel} (hc : κ.channels[key]? = some c) (n : Text) :
    (∃ x, R key x ∧ x ∉ c.members ∧ (κ.rename fd nickname).label x = some n) ↔
      R key fd ∧ ircCaseFold nickname = n ∨ ∃ x, fd ≠ x ∧ R key x ∧ κ.label x = some n := by
  have hlabel := label_rename hlive hne
  constructor
  · rintro ⟨x, hR, -, hl⟩
    rw [hlabel] at hl
    split at hl
    · next hx => subst hx; exact Or.inl ⟨hR, Option.some.inj hl⟩
    · next hx => exact Or.inr ⟨x, hx, hR, hl⟩
  · rintro (⟨hR, rfl⟩ | ⟨x, hx, hR, hl⟩)
    · exact ⟨fd, hR, h.notMem hR hc, by rw [hlabel, if_pos rfl]⟩
    · exact ⟨x, hR, h.notMem hR hc, by rw [hlabel, if_neg hx]; exact hl⟩

/-- An invitation follows the nickname of the client it is for. -/
theorem InvitedBy.rename (h : κ.InvitedBy R) (hok : κ.Ok) (hlive : κ.Live fd) {nickname : Text}
    (hne : nickname ≠ []) :
    (κ.rename fd nickname).InvitedBy ((κ.rename fd nickname).carry R) := by
  refine .carry ?_ ?_
  · intro key x hR _ hnil
    have hx : (κ.rename fd nickname).label x ≠ none := by
      rw [label_rename hlive hne]
      split
      · exact Option.some_ne_none _
      · rw [label, if_neg (h.nickname key x hR)]
        exact Option.some_ne_none _
    unfold label at hx
    rw [if_pos hnil] at hx
    exact hx rfl
  · intro key c' hc' n
    rw [getElem?_rename] at hc'
    obtain ⟨c, hc, rfl⟩ := Option.map_eq_some_iff.1 hc'
    have hexact := h.exact key c hc
    split
    · next hold =>
      rw [h.carry_rename hlive hne hc, hexact]
      have hnot : ¬ R key fd := fun hR => h.nickname key fd hR hold
      constructor
      · rintro ⟨x, hR, hl⟩
        exact Or.inr ⟨x, fun hx => hnot (hx ▸ hR), hR, hl⟩
      · rintro (⟨hR, -⟩ | ⟨x, -, hR, hl⟩)
        · exact absurd hR hnot
        · exact ⟨x, hR, hl⟩
    · next hold =>
      have hmembers : (Server.renameInvite (κ.who fd).nickname nickname c).members = c.members := by
        rw [renameInvite_kept]
      rw [hmembers, h.carry_rename hlive hne hc, mem_renameInvite_invitedUsers,
        h.invited_self hok hc hold, hexact]
      have hown := label_eq_some.2 ⟨hold, rfl⟩
      constructor
      · rintro (hnew | ⟨⟨x, hR, hl⟩, hnot⟩)
        · exact Or.inl hnew
        · refine Or.inr ⟨x, ?_, hR, hl⟩
          rintro rfl
          exact hnot ⟨hR, Option.some.inj (hown.symm.trans hl)⟩
      · rintro (hnew | ⟨x, hx, hR, hl⟩)
        · exact Or.inl hnew
        · refine Or.inr ⟨⟨x, hR, hl⟩, ?_⟩
          rintro ⟨-, rfl⟩
          exact hx (hok.index.injective hown hl)

/-- A client takes its invitations with it. -/
theorem InvitedBy.disconnect (h : κ.InvitedBy R) (hok : κ.Ok) (fd : Fd) :
    (κ.disconnect fd).InvitedBy ((κ.disconnect fd).carry R) := by
  have hlabel := label_disconnect κ fd
  refine .carry ?_ ?_
  · intro key x hR hlive
    rw [who_disconnect, if_neg]
    · exact h.nickname key x hR
    · exact (live_disconnect.1 hlive).1
  · intro key c' hc' n
    rw [getElem?_disconnect] at hc'
    obtain ⟨c, hc, hpurge⟩ := Option.bind_eq_some_iff.1 hc'
    obtain ⟨rfl, -⟩ := purgeChannel_eq_some.1 hpurge
    have hmem {x : Fd} (hx : x ∈ (purged fd (κ.who fd).nickname c).members) : x ∈ c.members :=
      ExtTreeMap.mem_of_mem_erase hx
    have hothers : (∃ x, R key x ∧ x ∉ (purged fd (κ.who fd).nickname c).members ∧
        (κ.disconnect fd).label x = some n) ↔ ∃ x, fd ≠ x ∧ R key x ∧ κ.label x = some n := by
      constructor
      · rintro ⟨x, hR, -, hl⟩
        rw [hlabel] at hl
        split at hl
        · cases hl
        · next hx => exact ⟨x, hx, hR, hl⟩
      · rintro ⟨x, hx, hR, hl⟩
        exact ⟨x, hR, fun hm => h.notMem hR hc (hmem hm), by rw [hlabel, if_neg hx]; exact hl⟩
    rw [hothers]
    show n ∈ (if _ then _ else _ : ExtTreeSet Text) ↔ _
    split
    · next hold =>
      rw [h.exact key c hc]
      constructor
      · rintro ⟨x, hR, hl⟩
        refine ⟨x, ?_, hR, hl⟩
        rintro rfl
        exact h.nickname key fd hR hold
      · rintro ⟨x, -, hR, hl⟩
        exact ⟨x, hR, hl⟩
    · next hold =>
      have hown := label_eq_some.2 ⟨hold, rfl⟩
      rw [ExtTreeSet.mem_erase, ne_eq, Std.compare_eq_iff_eq, h.exact key c hc]
      constructor
      · rintro ⟨hne, x, hR, hl⟩
        refine ⟨x, ?_, hR, hl⟩
        rintro rfl
        exact hne (Option.some.inj (hown.symm.trans hl))
      · rintro ⟨x, hx, hR, hl⟩
        refine ⟨?_, x, hR, hl⟩
        rintro rfl
        exact hx (hok.index.injective hown hl)

/-! ## INVITE -/

theorem InvitedBy.invite (h : κ.InvitedBy R) {key targetNick : Text} {c : Channel} {target : Fd}
    (hc : κ.channels[key]? = some c) (hmem : target ∉ c.members)
    (hlabel : κ.label target = some (ircCaseFold targetNick)) :
    (κ.setChannel key (c.addInvite targetNick)).InvitedBy
      ((κ.setChannel key (c.addInvite targetNick)).carry
        fun k x => R k x ∨ k = key ∧ x = target) := by
  refine .carry ?_ ?_
  · rintro k x (hR | ⟨-, rfl⟩) -
    · exact h.nickname k x hR
    · exact (label_eq_some.1 hlabel).1
  · intro k d hd n
    rw [getElem?_setChannel] at hd
    split at hd
    · next hk =>
      subst hk
      cases hd
      show n ∈ c.invitedUsers.insert _ ↔ ∃ x, _ ∧ x ∉ c.members ∧ κ.label x = _
      rw [ExtTreeSet.mem_insert, Std.compare_eq_iff_eq, h.exact key c hc]
      constructor
      · rintro (rfl | ⟨x, hR, hl⟩)
        · exact ⟨target, Or.inr ⟨rfl, rfl⟩, hmem, hlabel⟩
        · exact ⟨x, Or.inl hR, h.notMem hR hc, hl⟩
      · rintro ⟨x, hR | ⟨-, rfl⟩, -, hl⟩
        · exact Or.inr ⟨x, hR, hl⟩
        · exact Or.inl (Option.some.inj (hlabel.symm.trans hl))
    · next hk =>
      rw [h.exact k d hd]
      constructor
      · rintro ⟨x, hR, hl⟩
        exact ⟨x, Or.inl hR, h.notMem hR hd, hl⟩
      · rintro ⟨x, hR | ⟨rfl, -⟩, -, hl⟩
        · exact ⟨x, hR, hl⟩
        · exact absurd rfl hk

end Core

/-! ## Every step -/

theorem ModeChain.invitedUsers {κ : Core} {changes : List ModeChange} {c c' : Channel}
    (h : ModeChain κ changes c c') : c'.invitedUsers = c.invitedUsers := by
  induction h with
  | refl => rfl
  | tail _ hstep ih =>
    obtain ⟨_, -, happ⟩ := hstep
    rw [← ih]
    cases happ with
    | setOperator => unfold Channel.setMemberOperator; split <;> rfl
    | _ => rfl

/-- An INVITE that `handleInvite` carries out. -/
structure Core.Invite (κ : Core) (A : Fd) (command : Command) (key targetNick : Text)
    (c : Channel) (target : Fd) : Prop where
  name : command.name = "INVITE".toList
  parameters : ∃ channelName rest, command.parameters = targetNick :: channelName :: rest ∧
    ircCaseFold channelName = key
  registered : (κ.who A).registered = true
  holder : κ.holder targetNick = some target
  channel : κ.channels[key]? = some c
  operator : c.isMemberOperator A = true
  stranger : target ∉ c.members

/-- Every other command only carries the invitations over. -/
theorem Effect.invitedBy {κ κ' : Core} {A : Fd} {command : Command} {signals : List Signal}
    {R : Text → Fd → Prop} (he : Effect κ A command κ' signals) (hok : κ.Ok) (hlive : κ.Live A)
    (h : κ.InvitedBy R)
    (hnot : ∀ key targetNick c target, ¬ κ.Invite A command key targetNick c target) :
    κ'.InvitedBy (κ'.carry R) := by
  have completed {κ₁ : Core} (h₁ : κ₁.InvitedBy (κ₁.carry R)) :
      (κ₁.complete A).InvitedBy ((κ₁.complete A).carry R) := by
    have hcarry : (κ₁.complete A).carry R = (κ₁.complete A).carry (κ₁.carry R) := by
      funext key x
      unfold Core.carry
      rw [Core.live_complete, Core.channels_complete]
      exact propext ⟨fun hR => ⟨hR, hR.2⟩, fun hR => hR.1⟩
    rw [hcarry]
    exact h₁.same (Core.nickname_complete) Core.channels_complete
  cases he with
  | silent => exact h.same (fun _ => rfl) rfl
  | reply => exact h.same (fun _ => rfl) rfl
  | quit => exact h.same (fun _ => rfl) rfl
  | pass =>
    exact completed (h.same (fun x => Core.who_modify_field κ A (g := Identity.nickname)
      (f := ({ · with passwordAccepted := true })) (fun _ => rfl) x) rfl)
  | user username mode unused realname =>
    exact completed (h.same (fun x => Core.who_modify_field κ A (g := Identity.nickname)
      (f := ({ · with username := username, realname := realname, hasUser := true }))
      (fun _ => rfl) x) rfl)
  | nick nickname _ _ _ _ hvalid =>
    exact completed (h.rename hok hlive (Core.ne_nil_of_isValidNickname hvalid))
  | create channelName _ _ _ _ _ hnone => exact h.create hnone
  | join channelName rest c _ _ hreg _ hc hmem =>
    exact h.join hok hc hmem ((hok.identity A).registered hreg).2.1
  | privmsgChannel => exact h.same (fun _ => rfl) rfl
  | privmsgUser => exact h.same (fun _ => rfl) rfl
  | topic _ _ _ c _ _ _ hc => exact h.setChannel hc rfl fun _ hm => hm
  | kick channelName _ _ c target _ _ _ hc =>
    have hnick (x : Fd) : ((κ.dropMember target (ircCaseFold channelName) c).who x).nickname =
        (κ.who x).nickname := by
      unfold Core.dropMember
      split <;> rfl
    refine h.kept hnick ?_
    intro k d hd
    rw [Core.getElem?_dropMember (hok.channel _ c hc).key] at hd
    split at hd
    · next hk =>
      subst hk
      rw [mem_of_kept hd]
      exact ⟨c, hc, rfl, fun m hm => (Core.mem_removeMember.1 hm).2⟩
    · exact ⟨d, hd, rfl, fun _ hm => hm⟩
  | invite targetNick channelName rest c target hname hparams hreg hholder hc hop hmem =>
    refine absurd ?_ (hnot (ircCaseFold channelName) targetNick c target)
    exact ⟨hname, ⟨channelName, rest, hparams, rfl⟩, hreg, hholder, hc, hop,
      fun hm => by rw [(Server.hasMember_iff c target).2 hm] at hmem; cases hmem⟩
  | mode target rest c changes _ _ _ _ _ hc _ _ hrun =>
    obtain ⟨hid, -, hother, hthis⟩ := hrun.channels
    refine h.kept (fun x => by unfold Core.who; rw [hid]) ?_
    intro k d hd
    by_cases hk : ircCaseFold target = k
    · subst hk
      obtain ⟨c', hc', hchain⟩ := hthis c hc
      rw [hc'] at hd
      cases hd
      exact ⟨c, hc, hchain.invitedUsers, fun m hm => (hchain.mem_members m).1 hm⟩
    · rw [hother k hk] at hd
      exact ⟨d, hd, rfl, fun _ hm => hm⟩

namespace Server

variable {s s' : Server} {A : Fd} {R : Text → Fd → Prop}

theorem dispatchCommand_invite {command : Command} (hname : command.name = "INVITE".toList) :
    s.dispatchCommand A command = s.handleInvite A command := by
  unfold dispatchCommand
  simp [hname]

theorem handleInvite_core (s : Server) {command : Command} {key targetNick : Text} {c : Channel}
    {target : Fd} (h : s.core.Invite A command key targetNick c target) :
    (s.handleInvite A command).core = s.core.setChannel key (c.addInvite targetNick) := by
  obtain ⟨channelName, rest, hparams, rfl⟩ := h.parameters
  have hmem : c.hasMember A = true := isMemberOperator_hasMember h.operator
  have hstranger : c.hasMember target = false := by
    rw [← Bool.not_eq_true, hasMember_iff]
    exact h.stranger
  unfold handleInvite
  rw [hparams]
  simp only [client_registered, h.registered, findClientByNickname_eq, h.holder, findChannel_eq,
    h.channel, hmem, h.operator, hstranger, Bool.not_true, Bool.false_eq_true, if_false,
    core_queueLine, core_sendNumeric, core_setChannel]

/-- The event is an INVITE of the client on `target` to the channel under `key`, that is
carried out. -/
def Invites (s : Server) (e : Event) (key : Text) (target : Fd) : Prop :=
  ∃ A line targetNick c, e = .line A line ∧ (Command.parse line).valid = true ∧
    s.core.Invite A (Command.parse line) key targetNick c target

theorem Invites.unique {e : Event} {key key' : Text} {target target' : Fd}
    (h : s.Invites e key target) (h' : s.Invites e key' target') :
    key' = key ∧ target' = target := by
  obtain ⟨A, line, nick, c, rfl, -, hi⟩ := h
  obtain ⟨A', line', nick', c', he, -, hi'⟩ := h'
  cases he
  obtain ⟨name, rest, hparams, rfl⟩ := hi.parameters
  obtain ⟨name', rest', hparams', rfl⟩ := hi'.parameters
  rw [hparams] at hparams'
  cases hparams'
  have hholder := hi.holder.symm.trans hi'.holder
  cases hholder
  exact ⟨rfl, rfl⟩

theorem Invites.core {e : Event} {key : Text} {target : Fd} (h : s.Invites e key target)
    (hs : s.Step e s') : ∃ targetNick c, s.core.channels[key]? = some c ∧ target ∉ c.members ∧
      s.core.holder targetNick = some target ∧
      s'.core = s.core.setChannel key (c.addInvite targetNick) := by
  obtain ⟨A, line, targetNick, c, rfl, hvalid, hi⟩ := h
  refine ⟨targetNick, c, hi.channel, hi.stranger, hi.holder, ?_⟩
  unfold Step step at hs
  dsimp only at hs
  split at hs
  · cases hs
    unfold handleCompleteLine
    dsimp only
    rw [hvalid, Bool.not_true, if_neg Bool.false_ne_true, dispatchCommand_invite hi.name]
    exact handleInvite_core ((s.record _).record _) hi
  · cases hs

/-- **Every step carries the invitations over, and adds those it makes.** -/
theorem Reachable.invitedBy (hr : Reachable s) {e : Event} (hs : s.Step e s')
    (h : s.core.InvitedBy R) :
    s'.core.InvitedBy (s'.core.carry fun key x => R key x ∨ s.Invites e key x) := by
  by_cases hinv : ∃ key target, s.Invites e key target
  · obtain ⟨key, target, hinv⟩ := hinv
    obtain ⟨targetNick, c, hc, hmem, hholder, hcore⟩ := hinv.core hs
    have hR : (fun k x => R k x ∨ s.Invites e k x) = fun k x => R k x ∨ k = key ∧ x = target := by
      funext k x
      refine propext (or_congr_right ⟨fun h' => hinv.unique h', ?_⟩)
      rintro ⟨rfl, rfl⟩
      exact hinv
    rw [hcore, hR]
    exact h.invite hc hmem (hr.ok.holder_eq_some.1 hholder)
  · have hR : (fun k x => R k x ∨ s.Invites e k x) = R := by
      funext k x
      exact propext (or_iff_left fun h' => hinv ⟨k, x, h'⟩)
    rw [hR]
    cases hr.move hs with
    | quiet hcore => rw [hcore]; exact h.same (fun _ => rfl) rfl
    | connect hnew hcore =>
      rw [hcore]
      exact h.same (fun x => by rw [Core.who_connect hnew]) rfl
    | command signals hlive hvalid heffect =>
      exact heffect.invitedBy hr.ok hlive h fun key targetNick c target hi =>
        hinv ⟨key, target, _, _, targetNick, c, rfl, hvalid, hi⟩
    | disconnect _ _ _ _ hcore => rw [hcore]; exact h.disconnect hr.ok _

/-! ## Connections -/

/-- Each connection has the number of the step that accepted it; `invited` pairs a channel
with a connection. -/
structure Ghost where
  time : Nat := 0
  connection : Fd → Nat := fun _ => 0
  invited : Set (Text × Nat) := ∅

/-- The client on `fd` enters the channel under `key`. -/
def Joins (s s' : Server) (key : Text) (fd : Fd) : Prop :=
  ∃ c', s'.channels[key]? = some c' ∧ fd ∈ c'.members ∧
    ∀ c, s.channels[key]? = some c → fd ∉ c.members

def Deletes (s s' : Server) (key : Text) : Prop :=
  s.channels[key]? ≠ none ∧ s'.channels[key]? = none

def Ghost.observe (g : Ghost) (s : Server) (e : Event) (s' : Server) : Ghost where
  time := g.time + 1
  connection fd := if !s.clients.contains fd && s'.clients.contains fd then g.time
    else g.connection fd
  invited := { p |
    (p ∈ g.invited ∨ ∃ fd, s.Invites e p.1 fd ∧ g.connection fd = p.2) ∧
    (¬ ∃ fd ∈ s.clients, g.connection fd = p.2 ∧ (s.Joins s' p.1 fd ∨ fd ∉ s'.clients)) ∧
    ¬ s.Deletes s' p.1 }

/-- The ghost's pairs, by descriptor. -/
def Ghost.pairs (g : Ghost) (s : Server) (key : Text) (fd : Fd) : Prop :=
  s.core.Live fd ∧ (key, g.connection fd) ∈ g.invited

structure Ghost.Ok (g : Ghost) (s : Server) : Prop where
  bound : ∀ fd, s.core.Live fd → g.connection fd < g.time
  distinct : ∀ a b, s.core.Live a → s.core.Live b → g.connection a = g.connection b → a = b
  live : ∀ p ∈ g.invited, ∃ fd, s.core.Live fd ∧ g.connection fd = p.2
  invited : s.core.InvitedBy (g.pairs s)

/-- A step connects one client at most. -/
theorem Move.live {e : Event} (hm : s.Move e s') :
    ∃ fd, ∀ x, s'.core.Live x → s.core.Live x ∨ x = fd := by
  cases hm with
  | quiet hcore => exact ⟨0, fun x hx => Or.inl (hcore ▸ hx)⟩
  | @connect fd _ _ hcore =>
    refine ⟨fd, fun x hx => ?_⟩
    rw [hcore, Core.live_connect] at hx
    exact hx.symm.imp_right Eq.symm
  | command signals _ _ heffect =>
    exact ⟨0, fun x hx => Or.inl ((heffect.live x).1 hx)⟩
  | disconnect _ _ _ _ hcore =>
    refine ⟨0, fun x hx => Or.inl ?_⟩
    rw [hcore, Core.live_disconnect] at hx
    exact hx.2

section Observe

variable {g : Ghost} {e : Event}

theorem Ghost.connection_old (g : Ghost) (e : Event) {x : Fd} (hx : s.core.Live x) :
    (g.observe s e s').connection x = g.connection x := by
  have hc : s.clients.contains x = true := ExtTreeMap.mem_iff_contains.1 (live_iff_mem.1 hx)
  show (if _ then _ else _) = _
  rw [hc]
  rfl

theorem Ghost.connection_new (g : Ghost) (e : Event) {x : Fd} (hx : ¬ s.core.Live x)
    (hx' : s'.core.Live x) : (g.observe s e s').connection x = g.time := by
  have hc : s.clients.contains x = false := by
    rw [← Bool.not_eq_true, ← ExtTreeMap.mem_iff_contains, ← live_iff_mem]
    exact hx
  have hc' : s'.clients.contains x = true := ExtTreeMap.mem_iff_contains.1 (live_iff_mem.1 hx')
  show (if _ then _ else _) = _
  rw [hc, hc']
  rfl

theorem Invites.live {key : Text} {target : Fd} (hr : Reachable s) (h : s.Invites e key target) :
    s.core.Live target := by
  obtain ⟨A, line, targetNick, c, -, -, hi⟩ := h
  exact Core.live_of_label (hr.ok.holder_eq_some.1 hi.holder)

/-- The pairs of a connection that stays. -/
theorem Ghost.Ok.mem_observe (h : g.Ok s) (hr : Reachable s) {key : Text} {x : Fd}
    (hx : s.core.Live x) (hx' : s'.core.Live x) :
    (key, g.connection x) ∈ (g.observe s e s').invited ↔
      (g.pairs s key x ∨ s.Invites e key x) ∧ ∃ c', s'.channels[key]? = some c' ∧ x ∉ c'.members := by
  have hinvite : (∃ fd, s.Invites e key fd ∧ g.connection fd = g.connection x) ↔
      s.Invites e key x := by
    constructor
    · rintro ⟨fd, hi, heq⟩
      rw [← h.distinct fd x (hi.live hr) hx heq]
      exact hi
    · exact fun hi => ⟨x, hi, rfl⟩
  have hends : (∃ fd ∈ s.clients, g.connection fd = g.connection x ∧
      (s.Joins s' key fd ∨ fd ∉ s'.clients)) ↔ s.Joins s' key x := by
    constructor
    · rintro ⟨fd, hfd, heq, hj⟩
      cases h.distinct fd x (live_iff_mem.2 hfd) hx heq
      exact hj.resolve_right fun hn => hn (live_iff_mem.1 hx')
    · exact fun hj => ⟨x, live_iff_mem.1 hx, rfl, Or.inl hj⟩
  show ((_ ∨ _) ∧ _ ∧ _) ↔ _
  rw [hinvite, hends]
  have hpair : (key, g.connection x) ∈ g.invited ↔ g.pairs s key x := (and_iff_right hx).symm
  rw [hpair]
  refine and_congr_right fun hp => ?_
  obtain ⟨c, hc, hmem⟩ : ∃ c, s.channels[key]? = some c ∧ x ∉ c.members := by
    rcases hp with hp | ⟨_, _, _, c, -, -, hi⟩
    · exact h.invited.stranger key x hp
    · exact ⟨c, hi.channel, hi.stranger⟩
  constructor
  · rintro ⟨hjoins, hdeletes⟩
    cases hc' : s'.channels[key]? with
    | none => exact absurd ⟨by rw [hc]; exact Option.some_ne_none c, hc'⟩ hdeletes
    | some c' =>
      refine ⟨c', rfl, fun hm => hjoins ⟨c', hc', hm, ?_⟩⟩
      intro d hd
      rw [hc] at hd
      cases hd
      exact hmem
  · rintro ⟨c', hc', hmem'⟩
    refine ⟨?_, fun hd => by rw [hd.2] at hc'; cases hc'⟩
    rintro ⟨d, hd, hm, -⟩
    rw [hc'] at hd
    cases hd
    exact hmem' hm

theorem Ghost.Ok.step (h : g.Ok s) (hr : Reachable s) (hs : s.Step e s') :
    (g.observe s e s').Ok s' := by
  obtain ⟨fd, hnew⟩ := (hr.move hs).live
  have hfresh {x : Fd} (hx : ¬ s.core.Live x) (hx' : s'.core.Live x) : x = fd :=
    (hnew x hx').resolve_left hx
  refine ⟨?_, ?_, ?_, ?_⟩
  · intro x hx'
    show _ < g.time + 1
    by_cases hx : s.core.Live x
    · rw [g.connection_old e hx]
      exact Nat.lt_succ_of_lt (h.bound x hx)
    · rw [g.connection_new e hx hx']
      exact Nat.lt_succ_self _
  · intro a b ha' hb' heq
    by_cases ha : s.core.Live a <;> by_cases hb : s.core.Live b
    · rw [g.connection_old e ha, g.connection_old e hb] at heq
      exact h.distinct a b ha hb heq
    · rw [g.connection_old e ha, g.connection_new e hb hb'] at heq
      exact absurd heq (Nat.ne_of_lt (h.bound a ha))
    · rw [g.connection_new e ha ha', g.connection_old e hb] at heq
      exact absurd heq.symm (Nat.ne_of_lt (h.bound b hb))
    · rw [hfresh ha ha', hfresh hb hb']
  · rintro p ⟨hp, hends, -⟩
    obtain ⟨x, hx, hxp⟩ : ∃ x, s.core.Live x ∧ g.connection x = p.2 := by
      rcases hp with hp | ⟨x, hi, hxp⟩
      · exact h.live p hp
      · exact ⟨x, hi.live hr, hxp⟩
    refine ⟨x, ?_, by rw [g.connection_old e hx]; exact hxp⟩
    by_contra hx'
    exact hends ⟨x, live_iff_mem.1 hx, hxp, Or.inr fun hm => hx' (live_iff_mem.2 hm)⟩
  · have heq : (g.observe s e s').pairs s' =
        s'.core.carry fun key x => g.pairs s key x ∨ s.Invites e key x := by
      funext key x
      refine propext ?_
      unfold Ghost.pairs Core.carry
      by_cases hx : s.core.Live x
      · constructor
        · rintro ⟨hx', hp⟩
          rw [g.connection_old e hx, h.mem_observe hr hx hx'] at hp
          exact ⟨hp.1, hx', hp.2⟩
        · rintro ⟨hp, hx', hc⟩
          refine ⟨hx', ?_⟩
          rw [g.connection_old e hx, h.mem_observe hr hx hx']
          exact ⟨hp, hc⟩
      · constructor
        · rintro ⟨hx', hp, -⟩
          rw [g.connection_new e hx hx'] at hp
          rcases hp with hp | ⟨y, hi, hy⟩
          · obtain ⟨y, hy, hyt⟩ := h.live _ hp
            exact absurd hyt (Nat.ne_of_lt (h.bound y hy))
          · exact absurd hy (Nat.ne_of_lt (h.bound y (hi.live hr)))
        · rintro ⟨hp, -⟩
          rcases hp with hp | hi
          · exact absurd hp.1 hx
          · exact absurd (hi.live hr) hx
    rw [heq]
    exact hr.invitedBy hs h.invited

end Observe

theorem ghost_ok_start (listenerFd : Fd) (password : Text) :
    ({} : Ghost).Ok (start listenerFd password) := by
  have hlive (x : Fd) : ¬ (start listenerFd password).core.Live x := by
    simp [Core.Live, core, start]
  refine ⟨fun x hx => absurd hx (hlive x), fun a _ ha => absurd ha (hlive a), ?_, ?_⟩
  · rintro p ⟨⟩
  · refine ⟨fun _ x hx => absurd hx.1 (hlive x), fun _ x hx => absurd hx.1 (hlive x), ?_⟩
    intro key c hc
    simp [core, start] at hc

/-- **The stored invitations are those of the invited connections.**  Every run carries the
ghost; what the server stores for a channel is the folded nicknames of the connections the
ghost pairs with it, all of which are live, hold a nickname and are not on the channel. -/
theorem invitations_of_connections {listenerFd : Fd} {password : Text} {es : List Event}
    (hrun : Transition.Run Step (start listenerFd password) es s) :
    ∃ g : Ghost, Transition.Run (Transition.Ghosted Step Ghost.observe)
        (start listenerFd password, {}) es (s, g) ∧
      (∀ a b, a ∈ s.clients → b ∈ s.clients → g.connection a = g.connection b → a = b) ∧
      (∀ key n, (key, n) ∈ g.invited → ∃ fd client, s.clients[fd]? = some client ∧
        g.connection fd = n ∧ client.nickname ≠ [] ∧
        ∃ c, s.channels[key]? = some c ∧ fd ∉ c.members) ∧
      ∀ (key : Text) (c : Channel), s.channels[key]? = some c →
        (∀ name, name ∈ c.invitedUsers ↔ ∃ fd client, s.clients[fd]? = some client ∧
          (key, g.connection fd) ∈ g.invited ∧ ircCaseFold client.nickname = name) ∧
        ∀ m ∈ c.members, c.isInvited (s.client m).nickname = false := by
  obtain ⟨g, hg⟩ := hrun.ghosted Ghost.observe {}
  have hr := Reachable.of_run hrun
  have hok : g.Ok s := by
    refine hg.reachable.invariant (I := fun a => a.2.Ok a.1) (ghost_ok_start _ _) ?_
    rintro a e b ha h ⟨hs, hb⟩
    rw [hb]
    exact h.step ⟨listenerFd, password, Transition.Reachable.of_ghosted ha⟩ hs
  have hpaired {key : Text} {n : Nat} (h : (key, n) ∈ g.invited) :
      ∃ fd client, s.clients[fd]? = some client ∧ g.connection fd = n ∧ client.nickname ≠ [] ∧
        ∃ c, s.channels[key]? = some c ∧ fd ∉ c.members := by
    obtain ⟨fd, hlive, rfl⟩ := hok.live _ h
    obtain ⟨client, hclient, hid⟩ := exists_client hlive
    have hnick := hok.invited.nickname key fd ⟨hlive, h⟩
    rw [hid] at hnick
    exact ⟨fd, client, hclient, rfl, hnick, hok.invited.stranger key fd ⟨hlive, h⟩⟩
  refine ⟨g, hg, ?_, fun key n => hpaired, ?_⟩
  · intro a b ha hb
    exact hok.distinct a b (live_iff_mem.2 ha) (live_iff_mem.2 hb)
  · intro key c hc
    have hexact := hok.invited.exact key c hc
    constructor
    · intro name
      rw [hexact]
      constructor
      · rintro ⟨fd, ⟨-, hp⟩, hlabel⟩
        obtain ⟨client, hclient, -, hname⟩ := (label_iff_client name).1 hlabel
        exact ⟨fd, client, hclient, hp, hname⟩
      · rintro ⟨fd, client, hclient, hp, hname⟩
        have hlive : s.core.Live fd := live_iff_mem.2 (by
          rw [ExtTreeMap.mem_iff_isSome_getElem?, hclient]
          rfl)
        have hnick := hok.invited.nickname key fd ⟨hlive, hp⟩
        rw [who_of_client hclient] at hnick
        exact ⟨fd, ⟨hlive, hp⟩, (label_iff_client name).2 ⟨client, hclient, hnick, hname⟩⟩
    · intro m hm
      rw [← Bool.not_eq_true]
      intro hinv
      obtain ⟨x, hx, hlabel⟩ := (hexact _).1 (ExtTreeSet.mem_iff_contains.2 hinv)
      have hreg := (hr.ok.channel key c hc).members m hm
      rw [client_nickname] at hlabel
      have hown := Core.label_eq_some.2 ⟨((hr.ok.identity m).registered hreg).2.1, rfl⟩
      rw [hr.ok.index.injective hlabel hown] at hx
      exact hok.invited.notMem hx hc hm

theorem invitations_of_connections_session :
    ∃ g : Ghost, Transition.Run (Transition.Ghosted Step Ghost.observe) (start 3 "pw".toList, {})
        sessionEvents (session, g) ∧
      ∃ fd client, session.clients[fd]? = some client ∧
        ("#c".toList, g.connection fd) ∈ g.invited ∧ ircCaseFold client.nickname = "al".toList := by
  obtain ⟨g, hg, -, -, hchannels⟩ :=
    invitations_of_connections (Transition.Run.of_foldlM session_steps)
  have hal : (session.channels["#c".toList]?).any (·.invitedUsers.contains "al".toList) = true := by
    decide +kernel
  obtain ⟨c, hc, hal⟩ := (Option.any_eq_true _ _).1 hal
  exact ⟨g, hg, ((hchannels _ c hc).1 _).1 (ExtTreeSet.mem_iff_contains.2 hal)⟩

end Server

end FtIrc
