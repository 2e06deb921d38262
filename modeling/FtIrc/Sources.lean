import FtIrc.Unregistered
import FtIrc.Lib.Separator

/-!
# Whether a source names one client

`getPrefix` puts a `!` between the nickname and the username, and neither
`isValidNickname` nor `handleUser` keeps a `!` out of them.  Two registered clients have
one prefix exactly when the nickname of one overruns the other's.
-/

namespace FtIrc

open Std

namespace Source

/-- The nickname of `a` is the one of `b` with a `!` and more behind it, and the username
of `b` begins with that. -/
def Overruns (a b : Source) : Prop :=
  Separator.Overruns '!' a.nickname a.username b.nickname b.username

/-- Neither overruns the other. -/
def Apart (a b : Source) : Prop := ¬ a.Overruns b ∧ ¬ b.Overruns a

theorem Apart.symm {a b : Source} (h : a.Apart b) : b.Apart a := ⟨h.2, h.1⟩

theorem render_eq_iff {a b : Source} :
    a.render = b.render ↔ a = b ∨ a.Overruns b ∨ b.Overruns a := by
  have hrender (c : Source) :
      c.render = (c.nickname ++ '!' :: c.username) ++ "@localhost".toList := by
    simp [render]
  rw [hrender, hrender, List.append_cancel_right_eq, Separator.append_eq_iff]
  exact or_congr_left (by cases a; cases b; simp)

end Source

/-! ## How a client comes by its source -/

/-- The source that a command gives the client on `A`, if it leaves it registered. -/
inductive Assumes (κ : Core) (A : Fd) (command : Command) : Source → Prop
  | pass : command.name = "PASS".toList → command.parameters.head? = some κ.password →
      (κ.who A).registered = false → (κ.who A).nickname ≠ [] → (κ.who A).hasUser = true →
      Assumes κ A command (κ.who A).source
  | user (username mode unused realname : Text) (rest : List Text) :
      command.name = "USER".toList →
      command.parameters = username :: mode :: unused :: realname :: rest →
      (κ.who A).registered = false → (κ.who A).passwordAccepted = true →
      (κ.who A).nickname ≠ [] → Assumes κ A command ⟨(κ.who A).nickname, username⟩
  | nick (nickname : Text) (rest : List Text) :
      command.name = "NICK".toList → command.parameters = nickname :: rest →
      Server.isValidNickname nickname = true → (κ.who A).nickname ≠ nickname →
      (∀ other, κ.nicknameIndex[ircCaseFold nickname]? = some other → other = A) →
      (κ.who A).registered = true ∨ (κ.who A).passwordAccepted = true ∧ (κ.who A).hasUser = true →
      Assumes κ A command ⟨nickname, (κ.who A).username⟩

namespace Core

variable {κ : Core} {A : Fd}

theorem source_complete (x : Fd) : ((κ.complete A).who x).source = (κ.who x).source :=
  who_complete_field (g := Identity.source) (fun _ => rfl) x

theorem registered_complete (h : ((κ.complete A).who A).registered = true) :
    (κ.who A).registered = true ∨ ((κ.who A).passwordAccepted = true ∧ (κ.who A).nickname ≠ []) ∧
      (κ.who A).hasUser = true := by
  unfold complete at h
  split at h
  · next hc =>
    unfold completes at hc
    simp only [Bool.and_eq_true, Bool.not_eq_true', List.isEmpty_eq_false_iff] at hc
    exact Or.inr hc.2
  · exact Or.inl h

end Core

theorem Effect.who_of_ne {κ κ' : Core} {A : Fd} {command : Command} {signals : List Signal}
    (he : Effect κ A command κ' signals) {x : Fd} (hx : A ≠ x) : κ'.who x = κ.who x := by
  cases he with
  | pass => rw [Core.who_complete_of_ne hx]; exact Core.who_modify_of_ne κ A hx
  | user => rw [Core.who_complete_of_ne hx]; exact Core.who_modify_of_ne κ A hx
  | nick => rw [Core.who_complete_of_ne hx, Core.who_rename]; exact Core.who_modify_of_ne κ A hx
  | kick =>
    unfold Core.dropMember
    split <;> rfl
  | mode _ _ _ _ _ _ _ _ _ _ _ _ hrun => unfold Core.who; rw [hrun.channels.1]
  | _ => rfl

/-- A registered client keeps its source, or assumes one. -/
theorem Effect.source {κ κ' : Core} {A : Fd} {command : Command} {signals : List Signal}
    (he : Effect κ A command κ' signals) (hlive : κ.Live A)
    (hreg : (κ'.who A).registered = true) :
    (κ.who A).registered = true ∧ (κ'.who A).source = (κ.who A).source ∨
      Assumes κ A command (κ'.who A).source := by
  cases he with
  | pass hname hunreg hpass =>
    right
    have hwho := Core.who_modify_self κ A (f := ({ · with passwordAccepted := true })) hlive
    rw [Core.source_complete, Core.acceptPassword, hwho]
    rcases Core.registered_complete hreg with h | h
    · rw [Core.acceptPassword, hwho] at h
      rw [hunreg] at h
      cases h
    · rw [Core.acceptPassword, hwho] at h
      exact .pass hname hpass hunreg h.1.2 h.2
  | user username mode unused realname rest hname hunreg hparams =>
    right
    have hwho := Core.who_modify_self κ A (f := ({ · with
      username := username, realname := realname, hasUser := true })) hlive
    rw [Core.source_complete, Core.setUser, hwho]
    rcases Core.registered_complete hreg with h | h
    · rw [Core.setUser, hwho] at h
      rw [hunreg] at h
      cases h
    · rw [Core.setUser, hwho] at h
      exact .user username mode unused realname rest hname hparams hunreg h.1.1 h.1.2
  | nick nickname rest _ hname hparams hvalid hfree hne =>
    right
    have hwho := Core.who_modify_self κ A (f := ({ · with nickname := nickname })) hlive
    rw [Core.source_complete, Core.who_rename, hwho]
    refine .nick nickname rest hname hparams hvalid hne hfree ?_
    rcases Core.registered_complete hreg with h | h
    · rw [Core.who_rename, hwho] at h
      exact Or.inl h
    · rw [Core.who_rename, hwho] at h
      exact Or.inr ⟨h.1.1, h.2⟩
  | kick =>
    left
    unfold Core.dropMember at hreg ⊢
    split at hreg
    · next h => rw [if_pos h]; exact ⟨hreg, rfl⟩
    · next h => rw [if_neg h]; exact ⟨hreg, rfl⟩
  | mode _ _ _ _ _ _ _ _ _ _ _ _ hrun =>
    left
    unfold Core.who at hreg ⊢
    rw [hrun.channels.1] at hreg ⊢
    exact ⟨hreg, rfl⟩
  | _ => exact Or.inl ⟨hreg, rfl⟩

namespace Server

variable {s s' : Server} {e : Event}

/-- No two registered clients have the same prefix. -/
def PrefixesDistinct (s : Server) : Prop :=
  ∀ a b, a ≠ b → (s.client a).registered = true → (s.client b).registered = true →
    (s.client a).getPrefix ≠ (s.client b).getPrefix

/-- No two registered clients overrun one another. -/
def SourcesApart (s : Server) : Prop :=
  ∀ a b, a ≠ b → (s.client a).registered = true → (s.client b).registered = true →
    (s.client a).source.Apart (s.client b).source

/-- The source that a line gives its client is apart from those of all other registered
clients. -/
def KeepsApart (s : Server) (e : Event) : Prop :=
  ∀ A line, e = .line A line → ∀ source, Assumes s.core A (Command.parse line) source →
    ∀ b, A ≠ b → (s.client b).registered = true → source.Apart (s.client b).source

theorem SourcesApart.step (h : s.SourcesApart) (hr : Reachable s) (hs : s.Step e s')
    (hkeeps : s.KeepsApart e) : s'.SourcesApart := by
  unfold SourcesApart at h ⊢
  simp only [client_registered, client_source] at h ⊢
  cases hr.move hs with
  | quiet hcore => rw [hcore]; exact h
  | connect hnew hcore => rw [hcore]; simp only [Core.who_connect hnew]; exact h
  | @disconnect _ p _ _ _ _ _ hcore =>
    have hstays {x : Fd} (hx : (s'.core.who x).registered = true) :
        s'.core.who x = s.core.who x := by
      rw [hcore, Core.who_disconnect] at hx ⊢
      split at hx
      · cases hx
      · next hne => rw [if_neg hne]
    intro a b hab ha hb
    have hwa := hstays ha
    have hwb := hstays hb
    rw [hwa] at ha ⊢
    rw [hwb] at hb ⊢
    exact h a b hab ha hb
  | @command A line _ signals hlive hvalid heffect =>
    -- the client of the line against another
    have hone {b : Fd} (hb : A ≠ b) (hA : (s'.core.who A).registered = true)
        (hreg : (s'.core.who b).registered = true) :
        (s'.core.who A).source.Apart (s'.core.who b).source := by
      rw [heffect.who_of_ne hb] at hreg ⊢
      rcases heffect.source hlive hA with ⟨hA, hsource⟩ | hassumes
      · rw [hsource]
        exact h A b hb hA hreg
      · have := hkeeps A line rfl _ hassumes b hb (by rw [client_registered]; exact hreg)
        rw [client_source] at this
        exact this
    intro a b hab ha hb
    by_cases haA : A = a
    · subst haA
      exact hone hab ha hb
    by_cases hbA : A = b
    · subst hbA
      exact (hone haA hb ha).symm
    rw [heffect.who_of_ne haA] at ha ⊢
    rw [heffect.who_of_ne hbA] at hb ⊢
    exact h a b hab ha hb

/-- In a reachable state two registered clients share a prefix only by overrunning. -/
theorem Reachable.prefix_ne_iff (h : Reachable s) {a b : Fd} (hab : a ≠ b)
    (ha : (s.client a).registered = true) (hb : (s.client b).registered = true) :
    (s.client a).getPrefix ≠ (s.client b).getPrefix ↔
      (s.client a).source.Apart (s.client b).source := by
  rw [← Client.source_render, ← Client.source_render, ne_eq, Source.render_eq_iff, not_or, not_or]
  refine and_iff_right fun heq => hab ?_
  rw [client_registered] at ha hb
  rw [client_source, client_source] at heq
  have hnick := congrArg Source.nickname heq
  refine h.ok.index.injective (Core.label_eq_some.2 ⟨((h.ok.identity a).registered ha).2.1, rfl⟩) ?_
  exact Core.label_eq_some.2 ⟨((h.ok.identity b).registered hb).2.1, by
    rw [show (s.core.who b).nickname = (s.core.who a).nickname from hnick.symm]⟩

/-- **When the source of a line identifies one client.**  In a reachable state exactly when
the sources are apart, and along a run whose lines keep them apart in every state. -/
theorem prefixes_distinct (listenerFd : Fd) (password : Text) (s : Server) :
    (Transition.Reachable Step (start listenerFd password) s →
      (s.PrefixesDistinct ↔ s.SourcesApart)) ∧
    ∀ es, Transition.Run (fun s e s' => Step s e s' ∧ s.KeepsApart e)
      (start listenerFd password) es s → s.PrefixesDistinct := by
  have hexact {s : Server} (h : Reachable s) : s.PrefixesDistinct ↔ s.SourcesApart :=
    ⟨fun hall a b hab ha hb => (h.prefix_ne_iff hab ha hb).1 (hall a b hab ha hb),
      fun hall a b hab ha hb => (h.prefix_ne_iff hab ha hb).2 (hall a b hab ha hb)⟩
  refine ⟨fun h => hexact ⟨listenerFd, password, h⟩, ?_⟩
  intro es hrun
  suffices h : Reachable s ∧ s.SourcesApart from (hexact h.1).2 h.2
  induction hrun with
  | nil =>
    refine ⟨Reachable.start listenerFd password, ?_⟩
    intro a b _ ha
    rw [client_registered] at ha
    simp [Core.who, core, start] at ha
  | snoc _ hs ih => exact ⟨ih.1.step hs.1, ih.2.step ih.1 hs.1 hs.2⟩

theorem prefixes_distinct_session :
    (session.client 4).getPrefix ≠ (session.client 5).getPrefix := by
  have hsession : (session.client 4).source = ⟨"bob".toList, "b".toList⟩ ∧
      (session.client 5).source = ⟨"al".toList, "a".toList⟩ ∧
      (session.client 4).registered = true ∧ (session.client 5).registered = true ∧
      ∀ entry ∈ session.clients.toList, entry.2.registered = true → entry.1 = 4 ∨ entry.1 = 5 := by
    decide +kernel
  obtain ⟨h4, h5, hreg4, hreg5, honly⟩ := hsession
  have honly {a : Fd} (ha : (session.client a).registered = true) : a = 4 ∨ a = 5 := by
    rw [client_registered] at ha
    obtain ⟨c, hc, hid⟩ := exists_client (Core.live_of_registered ha)
    rw [hid] at ha
    exact honly (a, c) (ExtTreeMap.mem_toList_iff_getElem?_eq_some.2 hc) ha
  have hapart : (session.client 4).source.Apart (session.client 5).source := by
    rw [h4, h5]
    constructor
    · rintro ⟨x, hx, -⟩
      cases hx
    · rintro ⟨x, hx, -⟩
      cases hx
  obtain ⟨listenerFd, password, hr⟩ := session_reachable
  refine ((prefixes_distinct listenerFd password session).1 hr).2 ?_ 4 5 (by decide) hreg4 hreg5
  intro a b hab ha hb
  rcases honly ha with rfl | rfl <;> rcases honly hb with rfl | rfl
  · exact absurd rfl hab
  · exact hapart
  · exact hapart.symm
  · exact absurd rfl hab

/-- Two clients, two nicknames and two usernames, and one prefix. -/
theorem prefixes_distinct_collision :
    ¬ ∀ s, Reachable s → s.PrefixesDistinct := by
  intro hall
  have hrun : ((start 3 "pw".toList).steps
      [.accept (.connected 4), .accept (.connected 5),
        .line 4 "PASS pw".toList, .line 4 "NICK a!b".toList, .line 4 "USER c 0 * :C".toList,
        .line 5 "PASS pw".toList, .line 5 "NICK a".toList, .line 5 "USER b!c 0 * :B".toList]).any
      (fun s => (s.client 4).registered && (s.client 5).registered &&
        (s.client 4).getPrefix == (s.client 5).getPrefix) = true := by decide +kernel
  obtain ⟨s, hs, hsame⟩ := (Option.any_eq_true _ _).1 hrun
  simp only [Bool.and_eq_true, beq_iff_eq] at hsame
  exact hall s ((Reachable.start 3 _).steps hs) 4 5 (by decide) hsame.1.1 hsame.1.2 hsame.2

end Server

end FtIrc
