import FtIrc.Effect

/-!
# The effects of the registration handlers

One lemma for each handler, by its own branches.  The handler's client is connected, and
so is every member of every channel.
-/

namespace FtIrc

open Std

namespace Core

variable (κ : Core) (fd : Fd)

theorem who_modify_self {f : Identity → Identity} (h : κ.Live fd) :
    (κ.modify fd f).who fd = f (κ.who fd) := by
  obtain ⟨id, hid⟩ := Option.isSome_iff_exists.1 h
  unfold who modify
  simp [hid]

theorem who_modify_of_ne {f : Identity → Identity} {x : Fd} (h : fd ≠ x) :
    (κ.modify fd f).who x = κ.who x := by
  unfold who modify
  simp [h]

/-- Reading a field that the update leaves alone. -/
theorem who_modify_field {β : Type} {f : Identity → Identity} {g : Identity → β}
    (h : ∀ id, g (f id) = g id) (x : Fd) : g ((κ.modify fd f).who x) = g (κ.who x) := by
  unfold who modify
  by_cases hx : fd = x
  · subst hx
    cases hid : κ.identities fd <;> simp [hid, h]
  · simp [hx]

@[simp] theorem live_modify {f : Identity → Identity} {x : Fd} :
    (κ.modify fd f).Live x ↔ κ.Live x := by
  unfold Live modify
  by_cases hx : fd = x <;> simp [hx]

@[simp] theorem live_setChannel {key : Text} {c : Channel} {x : Fd} :
    (κ.setChannel key c).Live x ↔ κ.Live x := Iff.rfl

@[simp] theorem who_setChannel (key : Text) (c : Channel) (x : Fd) :
    (κ.setChannel key c).who x = κ.who x := rfl

end Core

namespace Server

variable (s : Server) (fd : Fd) (command : Command)

theorem becomes_silent : s.Becomes s (Effect s.core fd command) := ⟨[], .silent, rfl⟩

theorem becomes_numeric (numeric text : Text) :
    s.Becomes (s.sendNumeric fd numeric (.text text)) (Effect s.core fd command) := by
  refine ⟨[.line fd _], ?_, wire_sendNumeric _ _ _ _⟩
  rw [core_sendNumeric]
  exact .reply _ rfl

theorem becomes_plain (text : Text) :
    s.Becomes (s.queueLine fd (.plain text)) (Effect s.core fd command) := by
  refine ⟨[.line fd _], ?_, wire_queueLine _ _ _⟩
  rw [core_queueLine]
  exact .reply _ rfl

/-! ## Registration -/

theorem core_sendWelcome : (s.sendWelcome fd).core = s.core := by
  unfold sendWelcome
  simp

theorem tryCompleteRegistration_spec :
    (s.tryCompleteRegistration fd).core = s.core.complete fd ∧
      (s.tryCompleteRegistration fd).wire = s.wire.deliver (s.core.welcome fd) := by
  unfold tryCompleteRegistration Core.complete Core.welcome Core.completes
  rw [client_registered, client_isRegistrationReady]
  cases (s.core.who fd).registered with
  | true => simp
  | false =>
    cases hready : ((s.core.who fd).passwordAccepted && !(s.core.who fd).nickname.isEmpty &&
        (s.core.who fd).hasUser) with
    | false => simp
    | true =>
      have hcore := core_modifyClient s fd (f := (·.setRegistered true))
        (g := ({ · with registered := true })) fun _ => rfl
      have hwire := wire_modifyClient_identity s fd (f := (·.setRegistered true)) fun _ => rfl
      have hnick := Core.who_modify_field s.core fd (f := ({ · with registered := true }))
        (g := Identity.nickname) (fun _ => rfl) fd
      have hsource := Core.who_modify_field s.core fd (f := ({ · with registered := true }))
        (g := Identity.source) (fun _ => rfl) fd
      simp only [Bool.not_false, Bool.true_and, Bool.not_true, Bool.false_eq_true, if_false, if_true]
      refine ⟨by rw [core_sendWelcome, hcore], ?_⟩
      unfold sendWelcome
      simp only [wire_sendNumeric, core_sendNumeric, client_getPrefix, hcore, hwire, hsource,
        Core.replyTarget, hnick]
      rfl

theorem becomes_completed {E : Core → List Signal → Prop} (s₁ : Server)
    (hwire : s₁.wire = s.wire) (h : E (s₁.core.complete fd) (s₁.core.welcome fd)) :
    s.Becomes (s₁.tryCompleteRegistration fd) E := by
  obtain ⟨hc, hw⟩ := s₁.tryCompleteRegistration_spec fd
  exact ⟨s₁.core.welcome fd, by rw [hc]; exact h, by rw [hw, hwire]⟩

theorem handlePass_effect (hname : command.name = "PASS".toList) :
    s.Becomes (s.handlePass fd command) (Effect s.core fd command) := by
  unfold handlePass
  split
  · exact becomes_numeric _ _ _ _ _
  · next hreg =>
    rw [client_registered, Bool.not_eq_true] at hreg
    split
    · exact becomes_numeric _ _ _ _ _
    · next password rest hparams =>
      split
      · exact becomes_numeric _ _ _ _ _
      · next hpass =>
        have hcore : (s.modifyClient fd (·.setPasswordAccepted)).core = s.core.acceptPassword fd :=
          core_modifyClient s fd fun _ => rfl
        apply becomes_completed
        · exact wire_modifyClient_identity s fd fun _ => rfl
        · rw [hcore]
          refine .pass hname hreg ?_
          rw [hparams, List.head?_cons, not_not.1 hpass]
          rfl

theorem handleUser_effect (hname : command.name = "USER".toList) :
    s.Becomes (s.handleUser fd command) (Effect s.core fd command) := by
  unfold handleUser
  split
  · exact becomes_numeric _ _ _ _ _
  · next hreg =>
    rw [client_registered, Bool.not_eq_true] at hreg
    split
    · next username mode unused realname rest hparams =>
      have hcore : (s.modifyClient fd (·.setUser username realname)).core =
          s.core.setUser fd username realname := core_modifyClient s fd fun _ => rfl
      apply becomes_completed
      · exact wire_modifyClient_identity s fd fun _ => rfl
      · rw [hcore]
        exact .user _ _ _ _ _ hname hreg hparams
    · exact becomes_numeric _ _ _ _ _

/-! ## NICK -/

/-- The inner loop of the two recipient loops. -/
theorem mem_foldl_members (p : Fd → Prop) [DecidablePred p] (members : MemberMap)
    (acc : ExtTreeSet Fd) (x : Fd) :
    x ∈ members.foldl (fun acc m _ => if p m then acc.insert m else acc) acc ↔
      x ∈ acc ∨ x ∈ members ∧ p x := by
  rw [OrderedMap.mem_foldl (P := fun m _ x => m = x ∧ p x)]
  · simp only [ExtTreeMap.mem_iff_isSome_getElem?, Option.isSome_iff_exists]
    constructor
    · rintro (h | ⟨m, v, hm, rfl, hp⟩)
      · exact Or.inl h
      · exact Or.inr ⟨⟨v, hm⟩, hp⟩
    · rintro (h | ⟨⟨v, hm⟩, hp⟩)
      · exact Or.inl h
      · exact Or.inr ⟨x, v, hm, rfl, hp⟩
  · intro acc k v x
    split
    · next hp =>
      rw [ExtTreeSet.mem_insert, Std.compare_eq_iff_eq]
      constructor
      · rintro (rfl | h)
        · exact Or.inr ⟨rfl, hp⟩
        · exact Or.inl h
      · rintro (h | ⟨rfl, -⟩)
        · exact Or.inr h
        · exact Or.inl rfl
    · next hp =>
      constructor
      · exact Or.inl
      · rintro (h | ⟨rfl, h⟩)
        · exact h
        · exact absurd h hp

/-- The outer loop of the two recipient loops. -/
theorem mem_foldl_channels (p : Fd → Prop) [DecidablePred p] (acc : ExtTreeSet Fd) (x : Fd) :
    x ∈ s.channels.foldl
        (fun recipients _ channel =>
          if channel.hasMember fd then
            channel.members.foldl (fun acc m _ => if p m then acc.insert m else acc) recipients
          else recipients) acc ↔
      x ∈ acc ∨ s.core.Peers fd x ∧ p x := by
  rw [OrderedMap.mem_foldl (P := fun _ c x => (fd ∈ c.members ∧ x ∈ c.members) ∧ p x)]
  · constructor
    · rintro (h | ⟨key, c, hc, hm, hp⟩)
      · exact Or.inl h
      · exact Or.inr ⟨⟨key, c, hc, hm⟩, hp⟩
    · rintro (h | ⟨⟨key, c, hc, hm⟩, hp⟩)
      · exact Or.inl h
      · exact Or.inr ⟨key, c, hc, hm, hp⟩
  · intro acc _ c x
    split
    · next hm =>
      rw [mem_foldl_members]
      have hm : fd ∈ c.members := ExtTreeMap.mem_iff_contains.2 hm
      simp [hm]
    · next hm =>
      have hm : ¬ fd ∈ c.members := fun h => hm (ExtTreeMap.mem_iff_contains.1 h)
      simp [hm]

theorem mem_nickRecipients (x : Fd) : x ∈ s.nickRecipients fd ↔ x = fd ∨ s.core.Peers fd x := by
  have h := s.mem_foldl_channels fd (fun _ => True) ((∅ : ExtTreeSet Fd).insert fd) x
  simp only [if_true, and_true, ExtTreeSet.mem_insert, Std.compare_eq_iff_eq,
    ExtTreeSet.not_mem_empty, or_false] at h
  unfold nickRecipients
  rw [h, eq_comm]

theorem mem_quitRecipients (x : Fd) :
    x ∈ s.quitRecipients fd ↔ s.core.Peers fd x ∧ x ≠ fd := by
  have h := s.mem_foldl_channels fd (fun m => m ≠ fd) ∅ x
  simp only [ExtTreeSet.not_mem_empty, false_or] at h
  exact h

theorem nodup_toList (t : ExtTreeSet Fd) : t.toList.Nodup :=
  t.distinct_toList.imp fun h he => h (by rw [he]; exact Std.compare_eq_iff_eq.2 rfl)

@[simp] theorem client_hasNickname :
    (s.client fd).hasNickname = !(s.core.who fd).nickname.isEmpty := by
  unfold Client.hasNickname
  rw [client_nickname]

theorem core_changeNickname (nickname : Text) :
    (s.changeNickname fd nickname).core = s.core.rename fd nickname := by
  have hmod (t : Server) : (t.modifyClient fd (·.setNickname nickname)).core =
      t.core.modify fd ({ · with nickname := nickname }) := core_modifyClient t fd fun _ => rfl
  unfold changeNickname Core.rename
  simp only [client_hasNickname, client_nickname]
  cases (s.core.who fd).nickname.isEmpty with
  | true =>
    exact congrArg (fun κ : Core => { κ with
      nicknameIndex := s.nicknameIndex.insert (ircCaseFold nickname) fd }) (hmod s)
  | false =>
    exact congrArg (fun κ : Core => { κ with
      nicknameIndex := (s.nicknameIndex.erase (ircCaseFold (s.core.who fd).nickname)).insert
        (ircCaseFold nickname) fd }) (hmod { s with
          channels := s.channels.map fun _ channel =>
            renameInvite (s.core.who fd).nickname nickname channel
          nicknameIndex := s.nicknameIndex.erase (ircCaseFold (s.core.who fd).nickname) })

theorem wire_changeNickname (nickname : Text) : (s.changeNickname fd nickname).wire = s.wire := by
  have hmod (t : Server) : (t.modifyClient fd (·.setNickname nickname)).wire = t.wire :=
    wire_modifyClient_identity t fd fun _ => rfl
  unfold changeNickname
  simp only
  split
  · exact hmod { s with
      channels := s.channels.map fun _ channel =>
        renameInvite (s.client fd).nickname nickname channel
      nicknameIndex := s.nicknameIndex.erase (ircCaseFold (s.client fd).nickname) }
  · exact hmod s

theorem live_changeNickname (nickname : Text) {x : Fd} (h : s.core.Live x) :
    (s.changeNickname fd nickname).core.Live x := by
  rw [core_changeNickname]
  unfold Core.rename
  simp only
  split <;> exact (Core.live_modify s.core fd).2 h

theorem live_of_peers (hlive : s.core.MembersLive) {x : Fd} (h : s.core.Peers fd x) :
    s.core.Live x := by
  obtain ⟨key, c, hc, -, hx⟩ := h
  exact hlive key c hc x hx

section Told

variable {s fd}

/-- Who is told of a change of nickname, also when it is not relayed. -/
def nickTold (s : Server) (fd : Fd) : List Fd :=
  if (s.core.who fd).registered = true ∧ (s.core.who fd).nickname ≠ [] then
    (s.nickRecipients fd).toList
  else []

theorem mem_nickTold (m : Fd) : m ∈ s.nickTold fd ↔ (s.core.who fd).registered = true ∧
    (s.core.who fd).nickname ≠ [] ∧ (m = fd ∨ s.core.Peers fd m) := by
  unfold nickTold
  split
  · next h => rw [ExtTreeSet.mem_toList, mem_nickRecipients, ← and_assoc, and_iff_right h]
  · next h => rw [← and_assoc]; simp [h]

theorem nodup_nickTold : (s.nickTold fd).Nodup := by
  unfold nickTold
  split
  · exact nodup_toList _
  · exact List.nodup_nil

theorem live_of_mem_nickTold (hlive : s.core.MembersLive) (hfd : s.core.Live fd) {m : Fd}
    (hm : m ∈ s.nickTold fd) : s.core.Live m := by
  rcases ((mem_nickTold m).1 hm).2.2 with rfl | hp
  · exact hfd
  · exact live_of_peers s fd hlive hp

/-- The change is relayed to exactly those. -/
theorem relay_nick_eq (t : Server) (line : Line) :
    (if (s.client fd).registered = true then
        ((if ((s.client fd).hasNickname && (s.client fd).registered) = true
            then s.nickRecipients fd else ∅).toList).foldl
          (fun t target => t.queueIfFound target line) t
      else t) =
      (s.nickTold fd).foldl (fun t target => t.queueIfFound target line) t := by
  rw [client_registered, client_hasNickname]
  unfold nickTold
  cases hreg : (s.core.who fd).registered with
  | false => simp
  | true =>
    by_cases hold : (s.core.who fd).nickname = []
    · have hempty : (∅ : ExtTreeSet Fd).toList = [] := rfl
      simp [hold, hempty]
    · simp [hold]

end Told

theorem handleNick_effect (hlive : s.core.MembersLive) (hfd : s.core.Live fd)
    (hname : command.name = "NICK".toList) :
    s.Becomes (s.handleNick fd command) (Effect s.core fd command) := by
  unfold handleNick
  split
  · exact becomes_numeric _ _ _ _ _
  next nickname rest hparams =>
  split
  · exact becomes_numeric _ _ _ _ _
  next hvalid =>
  simp only [Bool.not_eq_true', Bool.not_eq_false] at hvalid
  dsimp only
  split
  · exact becomes_numeric _ _ _ _ _
  next htaken =>
  split
  · exact becomes_silent _ _ _
  next hsame =>
  have hne : nickname ≠ [] := by rintro rfl; cases hvalid
  have hnot : (s.core.who fd).nickname ≠ nickname := by
    rintro rfl
    simp [hne] at hsame
  have hfree : ∀ other, s.core.nicknameIndex[ircCaseFold nickname]? = some other → other = fd := by
    intro other h
    rw [show s.nicknameIndex[ircCaseFold nickname]? = some other from h] at htaken
    simpa using htaken
  have hall : ∀ m ∈ s.nickTold fd, (s.changeNickname fd nickname).core.Live m := fun m hm =>
    live_changeNickname _ _ _ (live_of_mem_nickTold hlive hfd hm)
  rw [relay_nick_eq, client_source]
  obtain ⟨hc, hw⟩ := tryCompleteRegistration_spec
    ((s.nickTold fd).foldl
      (fun t target => t.queueIfFound target (.relay (s.core.who fd).source (.nick nickname)))
      (s.changeNickname fd nickname)) fd
  rw [core_queueAll, core_changeNickname] at hc hw
  rw [wire_queueAll _ _ _ hall, wire_changeNickname, ← Wire.deliver_append] at hw
  refine ⟨_, ?_, hw⟩
  rw [hc]
  exact Effect.nick nickname rest _ hname hparams hvalid hfree hnot nodup_nickTold mem_nickTold

/-! ## PING, CAP, QUIT and the rest -/

theorem handlePing_effect : s.Becomes (s.handlePing fd command) (Effect s.core fd command) := by
  unfold handlePing
  split <;> exact becomes_plain _ _ _ _

theorem handleCap_effect : s.Becomes (s.handleCap fd command) (Effect s.core fd command) := by
  unfold handleCap
  split
  · exact becomes_silent _ _ _
  split
  · exact becomes_plain _ _ _ _
  split
  · exact becomes_plain _ _ _ _
  · exact becomes_silent _ _ _

theorem handleQuit_effect (hname : command.name = "QUIT".toList) :
    s.Becomes (s.handleQuit fd command) (Effect s.core fd command) := by
  unfold handleQuit
  refine ⟨[.disconnect fd _], ?_, wire_requestDisconnect _ _ _⟩
  rw [core_requestDisconnect]
  exact .quit hname

theorem handleUnknownCommand_effect :
    s.Becomes (s.handleUnknownCommand fd command) (Effect s.core fd command) :=
  becomes_numeric _ _ _ _ _

end Server

end FtIrc
