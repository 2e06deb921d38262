import FtIrc.Invariant
import FtIrc.Delivery

/-!
# The channel store and the nickname index

What the invariant of the core says about the server's own maps, in every reachable state.
-/

namespace FtIrc.Server

open Std

variable {s s' : Server} {fd : Fd}

/-! ## From identities to clients -/

theorem who_of_client {c : Client} (h : s.clients[fd]? = some c) : s.core.who fd = c.identity := by
  simp [Core.who, core, h]

theorem exists_client (h : s.core.Live fd) :
    ∃ c, s.clients[fd]? = some c ∧ s.core.who fd = c.identity := by
  obtain ⟨c, hc⟩ := Option.isSome_iff_exists.1 ((live_iff s fd).1 h)
  exact ⟨c, hc, who_of_client hc⟩

theorem live_iff_mem : s.core.Live fd ↔ fd ∈ s.clients := by
  rw [live_iff, ExtTreeMap.mem_iff_isSome_getElem?]
  rfl

theorem label_iff_client (key : Text) :
    s.core.label fd = some key ↔
      ∃ c, s.clients[fd]? = some c ∧ c.nickname ≠ [] ∧ ircCaseFold c.nickname = key := by
  rw [Core.label_eq_some]
  constructor
  · intro h
    obtain ⟨c, hc, hid⟩ := exists_client (Core.live_of_nickname h.1)
    rw [hid] at h
    exact ⟨c, hc, h⟩
  · rintro ⟨c, hc, h⟩
    rw [who_of_client hc]
    exact h

/-! ## The channel store -/

/-- No loop over members or recipients has met a descriptor without a client. -/
def AllResolved (s : Server) : Prop := ∀ fd, .unresolved fd ∉ s.log

theorem AllResolved.append (h : s.AllResolved) {actions : List Action}
    (hlog : s'.log = s.log ++ actions)
    (hactions : ∀ a ∈ actions, ∀ fd, a ≠ .unresolved fd) : s'.AllResolved := by
  intro fd hmem
  rw [hlog, List.mem_append] at hmem
  rcases hmem with hmem | hmem
  · exact h fd hmem
  · exact hactions _ hmem fd rfl

theorem Move.log {e : Event} (hm : s.Move e s') :
    ∃ actions, s'.log = s.log ++ actions ∧ ∀ a ∈ actions, ∀ fd, a ≠ .unresolved fd := by
  have hdelivery {a : Action} (ha : a.isDelivery = true) (fd : Fd) : a ≠ .unresolved fd := by
    rintro rfl
    cases ha
  cases hm with
  | quiet _ hquiet =>
    obtain ⟨actions, hlog, hq⟩ := hquiet.log
    refine ⟨actions, hlog, ?_⟩
    rintro a ha fd rfl
    cases hq _ ha
  | connect _ _ hwire => exact ⟨_, congrArg Wire.log hwire, by simp⟩
  | @command fd line _ signals _ _ _ hwire =>
    obtain ⟨actions, hlog, hd⟩ := Wire.log_deliver _ signals
    refine ⟨_, log_handled hwire hlog, fun a ha fd => ?_⟩
    simp only [List.mem_append, List.mem_cons, List.not_mem_nil, or_false] at ha
    rcases ha with (rfl | rfl) | ha
    · exact nofun
    · exact nofun
    · exact hdelivery (hd a ha) fd
  | @disconnect _ p _ recipients pollFds _ _ _ _ hwire =>
    obtain ⟨actions, hlog, hd⟩ := Wire.log_deliver s.wire (toAll recipients (s.quitLine p.fd))
    refine ⟨_, log_removed hwire hlog, fun a ha fd => ?_⟩
    rcases List.mem_append.1 ha with ha | ha
    · exact hdelivery (hd a ha) fd
    · cases List.mem_singleton.1 ha
      exact nofun

theorem Reachable.allResolved (h : Reachable s) : s.AllResolved := by
  refine h.invariant (I := AllResolved) ?_ ?_
  · intro listenerFd password fd hmem
    cases hmem
  · intro s e s' hr ih hs
    obtain ⟨actions, hlog, hactions⟩ := (hr.move hs).log
    exact ih.append hlog hactions

/-- **The channel store is well formed, and every member is a registered client.** -/
theorem channels_wellFormed (h : Reachable s) :
    (∀ (key : Text) (c : Channel), s.channels[key]? = some c →
      key = ircCaseFold c.name ∧ (c.name.head? = some '#' ∨ c.name.head? = some '&') ∧
      (∃ m, m ∈ c.members) ∧
      ∀ m ∈ c.members, ∃ client, s.clients[m]? = some client ∧ client.registered = true ∧
        client.nickname ≠ []) ∧
    (∀ (key₁ : Text) (c₁ : Channel) (key₂ : Text) (c₂ : Channel), s.channels[key₁]? = some c₁ → s.channels[key₂]? = some c₂ →
      ircEquals c₁.name c₂.name = true → key₁ = key₂ ∧ c₁ = c₂) ∧
    ∀ fd, .unresolved fd ∉ s.log := by
  have hok := h.ok
  refine ⟨?_, ?_, h.allResolved⟩
  · intro key c hc
    have hch := hok.channel key c hc
    refine ⟨hch.key.symm, ?_, hch.inhabited, ?_⟩
    · have hname := hch.name
      unfold isChannelTarget at hname
      cases hcn : c.name with
      | nil => rw [hcn] at hname; cases hname
      | cons first rest =>
        rw [hcn] at hname
        simpa using hname
    · intro m hm
      have hreg := hch.members m hm
      obtain ⟨client, hclient, hid⟩ := exists_client (Core.live_of_registered hreg)
      have hnick := ((hok.identity m).registered hreg).2.1
      rw [hid] at hreg hnick
      exact ⟨client, hclient, hreg, hnick⟩
  · intro key₁ c₁ key₂ c₂ h₁ h₂ hname
    have hkey : key₁ = key₂ := by
      rw [← (hok.channel key₁ c₁ h₁).key, ← (hok.channel key₂ c₂ h₂).key]
      simpa [ircEquals] using hname
    subst hkey
    rw [h₁] at h₂
    exact ⟨rfl, Option.some.inj h₂⟩

theorem channels_wellFormed_session :
    ∃ c, session.channels["#c".toList]? = some c ∧
      ∀ m ∈ c.members, ∃ client, session.clients[m]? = some client ∧
        client.registered = true ∧ client.nickname ≠ [] := by
  have hc : (session.channels["#c".toList]?).isSome = true := by decide +kernel
  obtain ⟨c, hc⟩ := Option.isSome_iff_exists.1 hc
  exact ⟨c, hc, ((channels_wellFormed session_reachable).1 _ c hc).2.2.2⟩

/-! ## The nickname index -/

/-- The first client in descriptor order that satisfies `p`. -/
def scanClients (s : Server) (p : Client → Bool) : Option Fd :=
  (s.clients.toList.find? fun entry => p entry.2).map (·.1)

/-- A scan finds what satisfies `p` when at most one client does. -/
theorem scanClients_eq_some {p : Client → Bool}
    (hunique : ∀ (fd₁ : Fd) (c₁ : Client) (fd₂ : Fd) (c₂ : Client), s.clients[fd₁]? = some c₁ → s.clients[fd₂]? = some c₂ →
      p c₁ = true → p c₂ = true → fd₁ = fd₂) (fd : Fd) :
    s.scanClients p = some fd ↔ ∃ c, s.clients[fd]? = some c ∧ p c = true := by
  unfold scanClients
  constructor
  · intro h
    obtain ⟨⟨x, c⟩, hfind, rfl⟩ := Option.map_eq_some_iff.1 h
    exact ⟨c, ExtTreeMap.mem_toList_iff_getElem?_eq_some.1 (List.mem_of_find?_eq_some hfind),
      by simpa using List.find?_some hfind⟩
  · rintro ⟨c, hc, hp⟩
    have hsome : (s.clients.toList.find? fun entry => p entry.2).isSome = true := by
      rw [List.find?_isSome]
      exact ⟨(fd, c), ExtTreeMap.mem_toList_iff_getElem?_eq_some.2 hc, hp⟩
    obtain ⟨⟨x, d⟩, hfind⟩ := Option.isSome_iff_exists.1 hsome
    have hd := ExtTreeMap.mem_toList_iff_getElem?_eq_some.1 (List.mem_of_find?_eq_some hfind)
    rw [hfind, hunique fd c x d hc hd hp (by simpa using List.find?_some hfind)]
    rfl

theorem Reachable.index_iff (h : Reachable s) (key : Text) (fd : Fd) :
    s.nicknameIndex[key]? = some fd ↔
      ∃ c, s.clients[fd]? = some c ∧ c.nickname ≠ [] ∧ ircCaseFold c.nickname = key := by
  rw [← label_iff_client]
  exact h.ok.index key fd

theorem Reachable.findClientByNickname_iff (h : Reachable s) (nickname : Text) (fd : Fd) :
    s.findClientByNickname nickname = some fd ↔
      ∃ c, s.clients[fd]? = some c ∧ c.hasNickname = true ∧
        ircEquals c.nickname nickname = true := by
  rw [findClientByNickname_eq, h.ok.holder_eq_some, label_iff_client]
  simp [Client.hasNickname, ircEquals]

theorem Reachable.nickname_unique (h : Reachable s) {fd₁ fd₂ : Fd} {c₁ c₂ : Client}
    (h₁ : s.clients[fd₁]? = some c₁) (h₂ : s.clients[fd₂]? = some c₂)
    (hn₁ : c₁.nickname ≠ []) (hn₂ : c₂.nickname ≠ [])
    (heq : ircEquals c₁.nickname c₂.nickname = true) : fd₁ = fd₂ := by
  simp only [ircEquals, beq_iff_eq] at heq
  exact h.ok.index.injective ((label_iff_client _).2 ⟨c₁, h₁, hn₁, heq⟩)
    ((label_iff_client _).2 ⟨c₂, h₂, hn₂, rfl⟩)

/-- **The nickname index is exact, and a lookup is a scan of the clients.**  A client that
has not chosen a nickname holds none, not the empty one. -/
theorem nicknameIndex_exact (h : Reachable s) :
    (∀ key fd, s.nicknameIndex[key]? = some fd ↔
      ∃ c, s.clients[fd]? = some c ∧ c.nickname ≠ [] ∧ ircCaseFold c.nickname = key) ∧
    (∀ (fd : Fd) (c : Client), s.clients[fd]? = some c → c.nickname ≠ [] → isValidNickname c.nickname = true) ∧
    (∀ (fd₁ : Fd) (c₁ : Client) (fd₂ : Fd) (c₂ : Client), s.clients[fd₁]? = some c₁ → s.clients[fd₂]? = some c₂ →
      c₁.nickname ≠ [] → c₂.nickname ≠ [] → ircEquals c₁.nickname c₂.nickname = true →
      fd₁ = fd₂) ∧
    (∀ nickname, s.findClientByNickname nickname =
      s.scanClients fun c => c.hasNickname && ircEquals c.nickname nickname) ∧
    (∀ nickname, nickname ≠ [] → s.findClientByNickname nickname =
      s.scanClients fun c => ircEquals c.nickname nickname) ∧
    ∀ nickname, s.findClientByNickname nickname = none ↔
      ∀ (fd : Fd) (c : Client), s.clients[fd]? = some c → c.nickname ≠ [] →
        ircEquals c.nickname nickname = false := by
  have hscan (nickname : Text) : s.findClientByNickname nickname =
      s.scanClients fun c => c.hasNickname && ircEquals c.nickname nickname := by
    apply Option.ext
    intro fd
    rw [h.findClientByNickname_iff, scanClients_eq_some]
    · simp only [Bool.and_eq_true]
    · intro fd₁ c₁ fd₂ c₂ h₁ h₂ hp₁ hp₂
      simp only [Client.hasNickname, ircEquals, Bool.and_eq_true, Bool.not_eq_true',
        List.isEmpty_eq_false_iff, beq_iff_eq] at hp₁ hp₂
      exact h.nickname_unique h₁ h₂ hp₁.1 hp₂.1 (by simp [ircEquals, hp₁.2, hp₂.2])
  refine ⟨h.index_iff, ?_, ?_, hscan, ?_, ?_⟩
  · intro fd c hc hne
    have hid := (h.ok.identity fd).nickname
    rw [who_of_client hc] at hid
    exact hid hne
  · intro fd₁ c₁ fd₂ c₂ h₁ h₂ hn₁ hn₂ heq
    exact h.nickname_unique h₁ h₂ hn₁ hn₂ heq
  · intro nickname hne
    rw [hscan]
    congr 1
    funext c
    cases hn : c.nickname with
    | nil => simp [Client.hasNickname, ircEquals, hn, hne]
    | cons d ds => simp [Client.hasNickname, hn]
  · intro nickname
    rw [Option.eq_none_iff_forall_ne_some]
    constructor
    · intro hnone fd c hc hne
      by_contra heq
      exact hnone fd ((h.findClientByNickname_iff nickname fd).2
        ⟨c, hc, by simp [Client.hasNickname, hne], by simpa using heq⟩)
    · intro hall fd hfd
      obtain ⟨c, hc, hne, heq⟩ := (h.findClientByNickname_iff nickname fd).1 hfd
      rw [hall fd c hc (by simpa [Client.hasNickname] using hne)] at heq
      cases heq

theorem nicknameIndex_exact_session :
    session.nicknameIndex["al".toList]? = some 5 ∧
      ∃ c, session.clients[5]? = some c ∧ c.nickname ≠ [] ∧ ircCaseFold c.nickname = "al".toList :=
  have hindex : session.nicknameIndex["al".toList]? = some 5 := by decide +kernel
  ⟨hindex, ((nicknameIndex_exact session_reachable).1 _ _).1 hindex⟩

end FtIrc.Server
