import FtIrc.Queues
import FtIrc.Sources
import FtIrc.Descriptors

/-!
# What an unregistered client cannot do

Every handler but six stops at a client that has not registered, and those six answer the
client itself.  An invitation that was made to its nickname follows the nickname, and that is
all that others can notice of it.
-/

namespace FtIrc

open Std

theorem Client.ext_identity_port {c c' : Client} (hid : c'.identity = c.identity)
    (hport : c'.port = c.port) : c' = c := by
  cases c
  cases c'
  simp only [identity, port, Identity.mk.injEq, Port.mk.injEq] at hid hport
  simp only [mk.injEq]
  exact ⟨hid.1, hid.2.1, hid.2.2.1, hid.2.2.2.1, hid.2.2.2.2.1, hid.2.2.2.2.2, hport.1, hport.2.1,
    hport.2.2.1, hport.2.2.2⟩

/-- A client that has not registered is no member. -/
theorem Core.Ok.notMem {κ : Core} (hok : κ.Ok) {A : Fd} (hreg : (κ.who A).registered = false)
    {key : Text} {c : Channel} (hc : κ.channels[key]? = some c) : A ∉ c.members := by
  intro hm
  rw [(hok.channel key c hc).members A hm] at hreg
  cases hreg

/-- It writes to itself only. -/
theorem Effect.unregistered_signals {κ κ' : Core} {A : Fd} {command : Command}
    {signals : List Signal} (he : Effect κ A command κ' signals)
    (hreg : (κ.who A).registered = false) : ∀ x ∈ signals, x.fd = A := by
  have habsurd {P : Prop} (h : (κ.who A).registered = true) : P := by
    rw [hreg] at h
    cases h
  intro x hx
  cases he with
  | silent => cases hx
  | reply => cases List.mem_singleton.1 hx; rfl
  | quit => cases List.mem_singleton.1 hx; rfl
  | pass => exact Core.expected_welcome hx
  | user => exact Core.expected_welcome hx
  | nick _ _ recipients _ _ _ _ _ _ hrec =>
    rcases List.mem_append.1 hx with hx | hx
    · exact habsurd ((hrec _).1 (fd_toAll hx)).1
    · exact Core.expected_welcome hx
  | create _ _ _ _ h => exact habsurd h
  | join _ _ _ _ _ h => exact habsurd h
  | privmsgChannel _ _ _ _ _ _ h => exact habsurd h
  | privmsgUser _ _ _ _ _ _ h => exact habsurd h
  | topic _ _ _ _ _ _ h => exact habsurd h
  | kick _ _ _ _ _ _ _ h => exact habsurd h
  | invite _ _ _ _ _ _ _ h => exact habsurd h
  | mode _ _ _ _ _ _ _ _ h => exact habsurd h

/-- An invitation to its old nickname becomes one to its new nickname. -/
theorem Effect.unregistered_channels {κ κ' : Core} {A : Fd} {command : Command}
    {signals : List Signal} (he : Effect κ A command κ' signals) (hok : κ.Ok) (hlive : κ.Live A)
    (hreg : (κ.who A).registered = false) (key : Text) :
    κ'.channels[key]? = κ.channels[key]? ∨ (κ.who A).nickname ≠ [] ∧
      κ'.channels[key]? = (κ.channels[key]?).map
        (Server.renameInvite (κ.who A).nickname (κ'.who A).nickname) := by
  have hmove := he.channelMove hok hlive key
  generalize hx : κ.channels[key]? = x at hmove
  generalize hy : κ'.channels[key]? = y at hmove
  have hnot {c : Channel} (hc : κ.channels[key]? = some c) (h : c.hasMember A = true) : False :=
    hok.notMem hreg hc ((Server.hasMember_iff c A).1 h)
  cases hmove with
  | same => exact Or.inl rfl
  | rename c nickname rest _ _ hne hnick => exact Or.inr ⟨hne, by rw [hnick]; rfl⟩
  | create _ _ _ _ _ h => rw [hreg] at h; cases h
  | join _ _ _ _ _ _ h => rw [hreg] at h; cases h
  | topic _ _ _ _ _ _ _ hm => exact (hnot hx hm).elim
  | kick _ _ _ _ _ _ _ _ hop => exact (hnot hx (Server.isMemberOperator_hasMember hop)).elim
  | invite _ _ _ _ _ _ _ _ hop => exact (hnot hx (Server.isMemberOperator_hasMember hop)).elim
  | mode _ _ _ _ _ _ _ _ hop => exact (hnot hx (Server.isMemberOperator_hasMember hop)).elim

namespace Server

variable {s s' : Server} {A : Fd}

theorem clients_ext {x : Fd} (hlive : s'.core.Live x ↔ s.core.Live x)
    (hwho : s'.core.who x = s.core.who x) (hport : s'.wire.port x = s.wire.port x) :
    s'.clients[x]? = s.clients[x]? := by
  have heq : s'.client x = s.client x := Client.ext_identity_port
    (by rw [identity_client, identity_client, hwho]) (by rw [port_client, port_client, hport])
  by_cases hx : s.core.Live x
  · have h := findClient_of_live (hlive.2 hx)
    rw [heq, ← findClient_of_live hx] at h
    exact h
  · have hx' := mt hlive.1 hx
    rw [live_iff, Option.not_isSome_iff_eq_none] at hx hx'
    exact hx'.trans hx.symm

/-- Every channel is as before, but that an invitation to the nickname of the client on `A`
may have become one to its new nickname. -/
def KeepsChannels (s s' : Server) (A : Fd) : Prop :=
  ∀ key : Text, (s.channels[key]? = none → s'.channels[key]? = none) ∧
    ∀ c : Channel, s.channels[key]? = some c → ∃ c' : Channel, s'.channels[key]? = some c' ∧
      c' = { c with invitedUsers := c'.invitedUsers } ∧
      (c'.invitedUsers = c.invitedUsers ∨
        (s.client A).nickname ≠ [] ∧ c.isInvited (s.client A).nickname = true ∧
        c'.invitedUsers = (c.invitedUsers.erase (ircCaseFold (s.client A).nickname)).insert
          (ircCaseFold (s'.client A).nickname))

theorem keepsChannels (h : ∀ key : Text, s'.core.channels[key]? = s.core.channels[key]? ∨
      (s.core.who A).nickname ≠ [] ∧ s'.core.channels[key]? = (s.core.channels[key]?).map
        (renameInvite (s.core.who A).nickname (s'.core.who A).nickname)) :
    s.KeepsChannels s' A := by
  intro key
  rw [client_nickname, client_nickname]
  rcases h key with h | ⟨hne, h⟩
  · exact ⟨fun hn => h.trans hn, fun c hc => ⟨c, h.trans hc, rfl, Or.inl rfl⟩⟩
  · refine ⟨fun hn => h.trans (by rw [show s.core.channels[key]? = none from hn]; rfl), ?_⟩
    intro c hc
    refine ⟨_, h.trans (by rw [show s.core.channels[key]? = some c from hc]; rfl),
      Core.renameInvite_kept _ _ _, ?_⟩
    unfold renameInvite
    split
    · next hinv => exact Or.inr ⟨hne, hinv, rfl⟩
    · exact Or.inl rfl

/-- A removal leaves of a channel that the client is not in all but its invitation. -/
theorem purged_stranger {c : Channel} {nickname : Text} (hm : A ∉ c.members)
    (hinh : ∃ m, m ∈ c.members) :
    purgeChannel A nickname c = some { c with invitedUsers :=
      if nickname = [] then c.invitedUsers else c.invitedUsers.erase (ircCaseFold nickname) } := by
  have hmembers : c.members.erase A = c.members := by
    apply ExtTreeMap.ext_getElem?
    intro x
    simp only [ExtTreeMap.getElem?_erase, Std.compare_eq_iff_eq]
    split
    · next hx =>
      subst hx
      symm
      rw [Option.eq_none_iff_forall_ne_some]
      intro flag hflag
      exact hm (ExtTreeMap.mem_iff_isSome_getElem?.2 (by rw [hflag]; rfl))
    · rfl
  have heq : Core.purged A nickname c = { c with invitedUsers :=
      if nickname = [] then c.invitedUsers else c.invitedUsers.erase (ircCaseFold nickname) } := by
    unfold Core.purged
    rw [hmembers]
  rw [Core.purgeChannel_eq_some, heq]
  exact ⟨rfl, hinh⟩

/-- A line of the client on `A`. -/
theorem unregistered_line (h : Reachable s) (hreg : (s.core.who A).registered = false)
    (hs : s.Step (.line A line) s') :
    (∀ B, B ≠ A → s'.clients[B]? = s.clients[B]?) ∧ s.KeepsChannels s' A := by
  have hok := h.ok
  obtain ⟨hlive, ⟨-, hcore, hqueued⟩ | ⟨-, signals, heffect, hqueued⟩⟩ := h.queued hs
  · refine ⟨fun B _ => clients_ext (by rw [hcore]) (by rw [hcore]) ?_, ?_⟩
    · rw [← port_client, ← port_client]
      exact (hqueued B).port
    · exact keepsChannels fun key => Or.inl (by rw [hcore])
  · have hown := heffect.unregistered_signals hreg
    refine ⟨fun B hB => clients_ext (heffect.live B) (heffect.who_of_ne (Ne.symm hB)) ?_,
      keepsChannels (heffect.unregistered_channels hok hlive hreg)⟩
    have hnone : ∀ reason, .disconnect B reason ∉ signals := fun reason hmem =>
      hB (hown _ hmem)
    have hq := hqueued B hnone
    rw [linesFor_of_ne fun x hx => by rw [hown x hx]; exact Ne.symm hB] at hq
    rw [← port_client, ← port_client]
    exact hq.port

/-- Its removal. -/
theorem unregistered_removed (h : Reachable s) {index : Nat} {p : PollFd}
    (hreg : (s.core.who p.fd).registered = false) (hs : s.Step (.remove index) s')
    (hp : s.pollFds[index]? = some p) :
    s'.log = s.log ++ [.removed p.fd] ∧
    (∀ B, B ≠ p.fd → s'.clients[B]? = s.clients[B]?) ∧
    ∀ key : Text, (s.channels[key]? = none → s'.channels[key]? = none) ∧
      ∀ c : Channel, s.channels[key]? = some c → s'.channels[key]? = some
        { c with
          invitedUsers := if (s.client p.fd).nickname = [] then c.invitedUsers
            else c.invitedUsers.erase (ircCaseFold (s.client p.fd).nickname) } := by
  have hok := h.ok
  unfold Step step at hs
  dsimp only at hs
  split at hs
  swap
  · cases hs
  next hi =>
  cases hs
  obtain ⟨q, recipients, hq, -, -, hcore, hrec, hwire⟩ := h.polled.removeClient hok.membersLive hi
  rw [hp] at hq
  cases hq
  have hnone : recipients = [] := by
    rw [List.eq_nil_iff_forall_not_mem]
    intro m hm
    have := ((hrec.2 m).1 hm).1
    rw [hreg] at this
    cases this
  subst hnone
  refine ⟨congrArg Wire.log hwire, fun B hB => clients_ext ?_ ?_ ?_, fun key => ⟨fun hn => ?_, ?_⟩⟩
  · rw [hcore, Core.live_disconnect]
    exact and_iff_right (Ne.symm hB)
  · rw [hcore, Core.who_disconnect, if_neg (Ne.symm hB)]
  · rw [hwire, Wire.port_disconnect_of_ne _ (Ne.symm hB)]
    rfl
  · show (s.removeClient index).core.channels[key]? = none
    rw [hcore, Core.getElem?_disconnect, show s.core.channels[key]? = none from hn]
    rfl
  · intro c hc
    show (s.removeClient index).core.channels[key]? = _
    rw [hcore, Core.getElem?_disconnect, show s.core.channels[key]? = some c from hc, client_nickname]
    exact purged_stranger (hok.notMem hreg hc) (hok.channel key c hc).inhabited

/-- **An unregistered client cannot act on others**, neither by a line nor by leaving. -/
theorem unregistered_isolated (h : Reachable s) (hreg : (s.client A).registered = false) :
    (∀ line s', s.Step (.line A line) s' →
      (∀ B, B ≠ A → s'.clients[B]? = s.clients[B]?) ∧ s.KeepsChannels s' A) ∧
    ∀ index p s', s.Step (.remove index) s' → s.pollFds[index]? = some p → p.fd = A →
      s'.log = s.log ++ [.removed A] ∧
      (∀ B, B ≠ A → s'.clients[B]? = s.clients[B]?) ∧
      ∀ key : Text, (s.channels[key]? = none → s'.channels[key]? = none) ∧
        ∀ c : Channel, s.channels[key]? = some c → s'.channels[key]? = some
          { c with
            invitedUsers := if (s.client A).nickname = [] then c.invitedUsers
              else c.invitedUsers.erase (ircCaseFold (s.client A).nickname) } := by
  rw [client_registered] at hreg
  refine ⟨fun line s' hs => unregistered_line h hreg hs, ?_⟩
  rintro index p s' hs hp rfl
  exact unregistered_removed h hreg hs hp

/-- `eve` on 6 has given no password. -/
theorem unregistered_isolated_session :
    ∃ s', session.Step (.line 6 "PRIVMSG bob :hi".toList) s' ∧ s'.clients[4]? = session.clients[4]? := by
  have hsession : (session.step (.line 6 "PRIVMSG bob :hi".toList)).isSome = true ∧
      (session.client 6).registered = false := by decide +kernel
  obtain ⟨hstep, hreg⟩ := hsession
  obtain ⟨s', hs⟩ := Option.isSome_iff_exists.1 hstep
  exact ⟨s', hs, ((unregistered_isolated session_reachable hreg).1 _ s' hs).1 4 (by decide)⟩

end Server

end FtIrc
