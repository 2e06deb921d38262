import FtIrc.Removal
import FtIrc.Enrolment

/-!
# Who reads a relay

A relay goes once to each client of its audience: the members of a channel, or the client
and all who share a channel with it.  Nobody else reads anything, but for the numerics the
issuer of a command is answered with (`Server.Relayed`).
-/

namespace FtIrc

open Std

/-! ## Signals -/

def Line.isNumeric : Line → Bool
  | .numeric .. => true
  | _ => false

/-- `signals` take `relays` to each client of the audience, and other lines to `A` only. -/
structure Carries (A : Fd) (audience : Fd → Prop) (relays : List Line) (signals : List Signal) :
    Prop where
  relayed : ∀ m, audience m → (linesFor m signals).filter Line.isRelay = relays
  signal : ∀ x ∈ signals, ∃ m line, x = .line m line ∧
    (line.isRelay = true → audience m) ∧ (line.isRelay = false → m = A)

namespace Carries

variable {A : Fd} {audience : Fd → Prop} {relays later : List Line} {xs ys : List Signal}

theorem nil : Carries A audience [] [] := ⟨fun _ _ => rfl, fun _ hx => absurd hx List.not_mem_nil⟩

theorem append (h : Carries A audience relays xs) (h' : Carries A audience later ys) :
    Carries A audience (relays ++ later) (xs ++ ys) := by
  refine ⟨fun m hm => ?_, fun x hx => ?_⟩
  · rw [linesFor_append, List.filter_append, h.relayed m hm, h'.relayed m hm]
  · rcases List.mem_append.1 hx with hx | hx
    · exact h.signal x hx
    · exact h'.signal x hx

/-- One relay, to everyone it is meant for. -/
theorem toAll {fds : List Fd} (hnodup : fds.Nodup) (hfds : ∀ m, m ∈ fds ↔ audience m) {line : Line}
    (hline : line.isRelay = true) : Carries A audience [line] (toAll fds line) := by
  refine ⟨fun m hm => ?_, fun x hx => ?_⟩
  · rw [linesFor_toAll hnodup ((hfds m).2 hm), List.filter_cons_of_pos hline, List.filter_nil]
  · obtain ⟨fd, hfd, rfl⟩ := List.mem_map.1 hx
    refine ⟨fd, line, rfl, fun _ => (hfds fd).1 hfd, fun hnot => ?_⟩
    rw [hline] at hnot
    cases hnot

/-- Replies are no relays. -/
theorem replies (h : ∀ x ∈ xs, ∃ line, x = .line A line ∧ line.isRelay = false) :
    Carries A audience [] xs := by
  refine ⟨fun m _ => ?_, fun x hx => ?_⟩
  · rw [List.filter_eq_nil_iff]
    intro line hline
    obtain ⟨line', heq, hnot⟩ := h _ (mem_linesFor.1 hline)
    cases heq
    simp [hnot]
  · obtain ⟨line, rfl, hnot⟩ := h x hx
    refine ⟨A, line, rfl, fun hrelay => ?_, fun _ => rfl⟩
    rw [hnot] at hrelay
    cases hrelay

/-- All that others than the issuer are sent is relays. -/
theorem linesFor_of_ne (h : Carries A audience relays xs) {m : Fd} (hm : m ≠ A) :
    (linesFor m xs).filter Line.isRelay = linesFor m xs := by
  rw [List.filter_eq_self]
  intro line hline
  obtain ⟨_, _, heq, -, hreply⟩ := h.signal _ (mem_linesFor.1 hline)
  cases heq
  by_contra hnot
  exact hm (hreply (by simpa using hnot))

theorem filter_of_not (h : Carries A audience relays xs) {m : Fd} (hm : ¬ audience m) :
    (linesFor m xs).filter Line.isRelay = [] := by
  rw [List.filter_eq_nil_iff]
  intro line hline hrelay
  obtain ⟨_, _, heq, haudience, -⟩ := h.signal _ (mem_linesFor.1 hline)
  cases heq
  exact hm (haudience hrelay)

theorem disconnect_notMem (h : Carries A audience relays xs) {m : Fd} {reason : Text} :
    .disconnect m reason ∉ xs := by
  intro hmem
  obtain ⟨_, _, heq, -⟩ := h.signal _ hmem
  cases heq

end Carries

namespace Server

variable {s s' : Server} {e : Event} {A fd : Fd} {line : Text}

/-! ## Steps -/

/-- From `s` to `s'` just `relays` are queued to each client of the audience, and numerics to
the issuer `A`; for everyone else nothing changes. -/
structure Relayed (s s' : Server) (A : Fd) (audience : Fd → Prop) (relays : List Line) : Prop where
  member : ∀ m, m ≠ A → audience m → s.Queued s' m relays
  stranger : ∀ m, m ≠ A → ¬ audience m → s.Queued s' m []
  issuer : ∃ lines, s.Queued s' A lines ∧
    (audience A → lines.filter Line.isRelay = relays) ∧
    (¬ audience A → lines.filter Line.isRelay = []) ∧
    ∀ line ∈ lines, line.isRelay = true ∨ line.isNumeric = true

theorem Reachable.relayed (hr : Reachable s) (hs : s.Step (.line A line) s')
    (hname : (Command.parse line).name ∉ ["PING".toList, "CAP".toList]) {audience : Fd → Prop}
    {relays : List Line} {signals : List Signal} (hcarries : Carries A audience relays signals)
    (hlive : ∀ m, audience m → s.core.Live m)
    (hwire : s'.wire = ((s.wire.record (.completeLine A line)).record
      (.dispatched A (Command.parse line))).deliver signals) :
    s.Relayed s' A audience relays := by
  have hA : s.core.Live A := (hr.queued hs).1
  have hqueued (m : Fd) : s.Queued s' m (linesFor m signals) := by
    refine queued_dispatched hwire ?_ fun _ => hcarries.disconnect_notMem
    intro x hx
    obtain ⟨m, line, rfl, haudience, hreply⟩ := hcarries.signal x hx
    cases hrelay : line.isRelay with
    | true => exact hlive m (haudience hrelay)
    | false => exact hreply hrelay ▸ hA
  refine ⟨fun m hm haudience => ?_, fun m hm hnot => ?_, linesFor A signals, hqueued A,
    hcarries.relayed A, hcarries.filter_of_not, fun l hl => ?_⟩
  · have h := hqueued m
    rwa [← hcarries.linesFor_of_ne hm, hcarries.relayed m haudience] at h
  · have h := hqueued m
    rwa [← hcarries.linesFor_of_ne hm, hcarries.filter_of_not hnot] at h
  · -- a plain line would answer a PING or a CAP
    obtain ⟨actions, hlog, hactions⟩ := (hqueued A).log
    obtain ⟨actions', hlog', hsaid⟩ := hr.voiced hs
    cases List.append_cancel_left (hlog.symm.trans hlog')
    obtain ⟨accepted, hmem⟩ := mem_queuedTo.1 (hactions ▸ hl)
    cases l with
    | relay => exact Or.inl rfl
    | numeric => exact Or.inr rfl
    | plain =>
      have hplain := (hsaid A _ accepted hmem).2.plain rfl
      simp only [List.mem_cons, List.not_mem_nil, or_false] at hname
      exact absurd hplain hname

/-! ## NICK -/

/-- Nobody who is registered is welcomed. -/
theorem welcome_of_registered {κ : Core} (hreg : (κ.who A).registered = true) : κ.welcome A = [] := by
  unfold Core.welcome Core.completes
  simp [hreg]

/-- A command that gives its registered client another nickname tells it to the client and all
who share a channel with it, and to nobody else. -/
theorem renames {κ κ' : Core} {command : Command} {signals : List Signal}
    (he : Effect κ A command κ' signals) (hlive : κ.Live A) (hok : κ.Ok)
    (hreg : (κ.who A).registered = true) (hne : (κ'.who A).nickname ≠ (κ.who A).nickname) :
    ∃ recipients : List Fd, recipients.Nodup ∧ (∀ m, m ∈ recipients ↔ m = A ∨ κ.Peers A m) ∧
      signals = toAll recipients (.relay (κ.who A).source (.nick (κ'.who A).nickname)) := by
  cases he with
  | nick nickname rest recipients _ _ _ _ _ hnodup hrec =>
    have hwho : ((κ.rename A nickname).who A).registered = true := by
      rw [Core.who_rename, Core.who_modify_self κ A hlive]
      exact hreg
    have hnick : (((κ.rename A nickname).complete A).who A).nickname = nickname := by
      rw [Core.nickname_complete, Core.nickname_rename hlive]
    have hnamed := ((hok.identity A).registered hreg).2.1
    refine ⟨recipients, hnodup, fun m => ?_, ?_⟩
    · rw [hrec]
      simp [hreg, hnamed]
    · rw [welcome_of_registered hwho, List.append_nil, hnick]
  | pass =>
    refine absurd ?_ hne
    rw [Core.nickname_complete]
    exact Core.who_modify_field κ A (f := ({ · with passwordAccepted := true }))
      (g := Identity.nickname) (fun _ => rfl) A
  | user username _ _ realname =>
    refine absurd ?_ hne
    rw [Core.nickname_complete]
    exact Core.who_modify_field κ A
      (f := ({ · with username := username, realname := realname, hasUser := true }))
      (g := Identity.nickname) (fun _ => rfl) A
  | kick =>
    refine absurd ?_ hne
    unfold Core.dropMember
    split <;> rfl
  | mode _ _ _ _ _ _ _ _ _ _ _ _ hrun =>
    refine absurd ?_ hne
    unfold Core.who
    rw [hrun.channels.1]
  | _ => exact absurd rfl hne

theorem Reachable.renamed (hr : Reachable s) (hs : s.Step e s') (hreg : (s.client A).registered = true)
    (hlive : s'.core.Live A) (hne : (s'.client A).nickname ≠ (s.client A).nickname) :
    (∀ m, m = A ∨ s.core.Peers A m →
      s.Queued s' m [.relay (s.client A).source (.nick (s'.client A).nickname)]) ∧
    ∀ m, ¬ (m = A ∨ s.core.Peers A m) → s.Queued s' m [] := by
  rw [client_registered] at hreg
  rw [client_nickname, client_nickname] at hne
  rw [client_source, client_nickname]
  cases hr.move hs with
  | quiet hcore => exact absurd (by rw [hcore]) hne
  | connect hnew hcore => exact absurd (by rw [hcore, Core.who_connect hnew]) hne
  | @command fd line _ signals hfd hvalid heffect hwire =>
    by_cases hA : fd = A
    swap
    · exact absurd (by rw [heffect.who_of_ne hA]) hne
    subst hA
    obtain ⟨recipients, hnodup, hrec, rfl⟩ := renames heffect hfd hr.ok hreg hne
    have hqueued (m : Fd) := queued_dispatched (m := m) hwire (heffect.signals_live hr.ok hfd)
      fun _ => disconnect_notMem_toAll
    refine ⟨fun m hm => ?_, fun m hm => ?_⟩
    · have h := hqueued m
      rwa [linesFor_toAll hnodup ((hrec m).2 hm)] at h
    · have h := hqueued m
      rwa [linesFor_toAll_of_notMem fun hmem => hm ((hrec m).1 hmem)] at h
  | @disconnect _ p _ _ _ _ _ hcore =>
    have hA : p.fd ≠ A := by
      rw [hcore, Core.live_disconnect] at hlive
      exact hlive.1
    exact absurd (by rw [hcore, Core.who_disconnect, if_neg hA]) hne

theorem render_nick (source : Source) (nickname : Text) : (Line.relay source (.nick nickname)).render =
    ":".toList ++ source.render ++ " NICK :".toList ++ nickname := by
  have hname : " NICK :".toList = " ".toList ++ "NICK :".toList := by decide
  rw [hname, ← List.append_assoc]
  exact (List.append_assoc _ _ _).symm

theorem render_quit (source : Source) (reason : Text) : (Line.relay source (.quit reason)).render =
    ":".toList ++ source.render ++ " QUIT :".toList ++ reason := by
  have hname : " QUIT :".toList = " ".toList ++ "QUIT :".toList := by decide
  rw [hname, ← List.append_assoc]
  exact (List.append_assoc _ _ _).symm

/-! ## QUIT -/

/-- The client that is removed is queued nothing. -/
theorem unannounced {recipients : List Fd} (hrec : QuitRecipients s.core A recipients) {line : Line}
    {pollFds : List PollFd} (hwire : s'.wire = (s.wire.deliver (toAll recipients line)).disconnect A pollFds) :
    ∃ actions, s'.log = s.log ++ actions ∧ queuedTo A actions = [] := by
  obtain ⟨actions, hlog, hqueued⟩ := s.wire.log_deliver_queued (toAll recipients line)
  have hnot : A ∉ recipients := fun hmem => ((hrec.2 A).1 hmem).2.2 rfl
  refine ⟨_, log_removed hwire hlog, ?_⟩
  rw [queuedTo_append, hqueued, linesFor_toAll_of_notMem hnot]
  rfl

/-- A client that goes in a step is removed by it. -/
theorem Reachable.departed (hr : Reachable s) (hs : s.Step e s') (hlive : s.core.Live A)
    (hgone : ¬ s'.core.Live A) :
    s.Announced s' A ∧ ∃ actions, s'.log = s.log ++ actions ∧ queuedTo A actions = [] := by
  cases hr.move hs with
  | quiet hcore => exact absurd (by rw [hcore]; exact hlive) hgone
  | connect hnew hcore =>
    refine absurd ?_ hgone
    rw [hcore]
    unfold Core.Live Core.connect
    dsimp only
    split
    · rfl
    · exact hlive
  | command signals _ _ heffect => exact absurd ((heffect.live A).2 hlive) hgone
  | @disconnect _ p _ recipients pollFds _ _ hcore hrec hwire =>
    have hA : p.fd = A := by
      by_contra hne
      refine hgone ?_
      rw [hcore, Core.live_disconnect]
      exact ⟨hne, hlive⟩
    subst hA
    exact ⟨announced hr.ok hrec hwire, unannounced hrec hwire⟩

/-- **NICK and QUIT reach the peers of a client, each once.** -/
theorem rename_and_quit_reach (h : Reachable s) (hs : s.Step e s')
    (hreg : (s.client A).registered = true) :
    (A ∈ s'.clients → (s'.client A).nickname ≠ (s.client A).nickname →
      ∃ line : Line, line.render = ":".toList ++ (s.client A).getPrefix ++ " NICK :".toList ++
          (s'.client A).nickname ∧
        (∀ m, m = A ∨ s.core.Peers A m → s.Queued s' m [line]) ∧
        ∀ m, ¬ (m = A ∨ s.core.Peers A m) → s.Queued s' m []) ∧
    (A ∉ s'.clients →
      ∃ (line : Line) (reason : Text), line.render = ":".toList ++ (s.client A).getPrefix ++
          " QUIT :".toList ++ reason ∧
        (∀ m, m ≠ A → s.core.Peers A m → s.Queued s' m [line]) ∧
        (∀ m, m ≠ A → ¬ s.core.Peers A m → s.Queued s' m []) ∧
        ∃ actions, s'.log = s.log ++ actions ∧ queuedTo A actions = []) := by
  rw [← live_iff_mem]
  refine ⟨fun hlive hne => ?_, fun hgone => ?_⟩
  · refine ⟨_, ?_, h.renamed hs hreg hlive hne⟩
    rw [render_nick, Client.source_render]
  · have hlive : s.core.Live A := by
      rw [client_registered] at hreg
      exact Core.live_of_registered hreg
    obtain ⟨⟨hpeer, hstranger⟩, hsilent⟩ := h.departed hs hlive hgone
    exact ⟨s.farewell A, _, render_quit _ _, hpeer hreg,
      fun m hm hnot => hstranger m hm fun hp => hnot hp.2, hsilent⟩

/-- `al` on 5 is in `#c` with `bob` on 4, and `eve` on 6 in no channel. -/
theorem rename_and_quit_reach_session :
    (∃ s' line, company.Step (.line 4 "NICK rob".toList) s' ∧
      line.render = ":bob!b@localhost NICK :rob".toList ∧
      company.Queued s' 4 [line] ∧ company.Queued s' 5 [line]) ∧
    ∃ s' line reason, company.Step (.remove 1) s' ∧
      line.render = ":bob!b@localhost QUIT :".toList ++ reason ∧
      company.Queued s' 5 [line] ∧ company.Queued s' 6 [] := by
  have hview : (company.step (.line 4 "NICK rob".toList)).map
        (fun s' => (s'.clients.contains 4, (s'.client 4).nickname)) = some (true, "rob".toList) ∧
      (company.step (.remove 1)).map (fun s' => s'.clients.contains 4) = some false ∧
      (company.client 4).registered = true ∧
      (company.client 4).getPrefix = "bob!b@localhost".toList ∧
      (company.client 4).nickname = "bob".toList ∧ (company.client 6).registered = false := by
    decide +kernel
  have hr := company_reachable
  have hpeers := company_peers
  generalize company = s at *
  obtain ⟨hnamed, hremoved, hreg, hprefix, hnick, heve⟩ := hview
  constructor
  · obtain ⟨s', hs, hnamed⟩ := Option.map_eq_some_iff.1 hnamed
    rw [Prod.mk.injEq] at hnamed
    obtain ⟨line, hline, hheard, -⟩ := (rename_and_quit_reach hr hs hreg).1
      (ExtTreeMap.mem_iff_contains.2 hnamed.1) (by rw [hnamed.2, hnick]; decide)
    refine ⟨s', line, hs, ?_, hheard 4 (Or.inl rfl), hheard 5 (Or.inr hpeers)⟩
    rw [hline, hprefix, hnamed.2]
    decide
  · obtain ⟨s', hs, hgone⟩ := Option.map_eq_some_iff.1 hremoved
    obtain ⟨line, reason, hline, hheard, hnot, -⟩ := (rename_and_quit_reach hr hs hreg).2
      fun hmem => Bool.false_ne_true (hgone.symm.trans (ExtTreeMap.mem_iff_contains.1 hmem))
    have hstranger : ¬ s.core.Peers 4 6 := by
      rintro ⟨key, c, hc, -, hmem⟩
      rw [client_registered] at heve
      exact hr.ok.notMem heve hc hmem
    refine ⟨s', line, reason, hs, ?_, hheard 5 (by decide) hpeers, hnot 6 (by decide) hstranger⟩
    rw [hline, hprefix]
    simp

/-! ## MODE -/

/-- Of `changes`, applied one after the other, those that alter the channel. -/
inductive Effective (fd : Fd) (key : Text) : Server → List ModeChange → List ModeChange → Prop
  | nil (s : Server) : Effective fd key s [] []
  | idle {s : Server} {change : ModeChange} {changes effective : List ModeChange} :
      (s.applyChannelModeChange fd key change).channels[key]? = s.channels[key]? →
      Effective fd key (s.applyChannelModeChange fd key change) changes effective →
      Effective fd key s (change :: changes) effective
  | applied {s : Server} {change : ModeChange} {changes effective : List ModeChange} :
      (s.applyChannelModeChange fd key change).channels[key]? ≠ s.channels[key]? →
      Effective fd key (s.applyChannelModeChange fd key change) changes effective →
      Effective fd key s (change :: changes) (change :: effective)

theorem exists_effective (s : Server) (fd : Fd) (key : Text) (changes : List ModeChange) :
    ∃ effective, Effective fd key s changes effective := by
  induction changes generalizing s with
  | nil => exact ⟨[], .nil s⟩
  | cons change changes ih =>
    obtain ⟨effective, h⟩ := ih (s.applyChannelModeChange fd key change)
    by_cases hsame : (s.applyChannelModeChange fd key change).channels[key]? = s.channels[key]?
    · exact ⟨effective, .idle hsame h⟩
    · exact ⟨change :: effective, .applied hsame h⟩

/-- Which changes alter the channel does not depend on the wire. -/
theorem Effective.congr {key : Text} {changes effective : List ModeChange} {t : Server}
    (h : Effective fd key s changes effective) (hcore : t.core = s.core) :
    Effective fd key t changes effective := by
  have hchannels {t s : Server} (h : t.core = s.core) : t.channels = s.channels :=
    congrArg Core.channels h
  have happly {t s : Server} (h : t.core = s.core) (change : ModeChange) :
      (t.applyChannelModeChange fd key change).core = (s.applyChannelModeChange fd key change).core :=
    core_applyChannelModeChange_congr h key change
  induction h generalizing t with
  | nil => exact .nil t
  | @idle s change _ _ hsame _ ih =>
    have hlater := happly hcore change
    refine .idle ?_ (ih hlater)
    rw [hchannels hlater, hchannels hcore, hsame]
  | @applied s change _ _ hne _ ih =>
    have hlater := happly hcore change
    refine .applied ?_ (ih hlater)
    rwa [hchannels hlater, hchannels hcore]

end Server

/-- A change that is applied alters the channel. -/
theorem ModeApplied.ne {κ : Core} {change : ModeChange} {c c' : Channel} (h : ModeApplied κ change c c') :
    c' ≠ c := by
  intro heq
  cases h with
  | inviteOnly _ hne => exact hne (congrArg Channel.inviteOnly heq).symm
  | topicRestricted _ hne => exact hne (congrArg Channel.topicRestricted heq).symm
  | setKey _ _ _ hne => exact hne ⟨(congrArg Channel.hasKey heq).symm, (congrArg Channel.key heq).symm⟩
  | removeKey _ _ hkey =>
    have hnot : false = c.hasKey := congrArg Channel.hasKey heq
    rw [hkey] at hnot
    cases hnot
  | setOperator target _ _ hmem hne =>
    refine hne ?_
    rw [← heq]
    unfold Channel.setMemberOperator
    rw [if_pos hmem]
    simp [Channel.isMemberOperator]
  | setUserLimit limit _ _ _ hne =>
    exact hne ⟨(congrArg Channel.hasUserLimit heq).symm, (congrArg Channel.userLimit heq).symm⟩
  | removeUserLimit _ _ hlimit =>
    have hnot : false = c.hasUserLimit := congrArg Channel.hasUserLimit heq
    rw [hlimit] at hnot
    cases hnot

/-- One change is answered to the issuer, or announced to the members. -/
theorem ModeRun.single {κ κ' : Core} {fd : Fd} {key : Text} {change : ModeChange} {signals : List Signal}
    (h : ModeRun fd key κ [change] κ' signals) :
    (κ' = κ ∧ ∀ x ∈ signals, ∃ line, x = .line fd line ∧ line.isRelay = false) ∨
    ∃ c c', κ.channels[key]? = some c ∧ ModeApplied κ change c c' ∧ κ' = κ.setChannel key c' ∧
      signals = toAll c'.members.keys (.relay (κ.who fd).source (.mode c'.name change)) := by
  cases h with
  | refused line hreply hrest =>
    cases hrest
    refine Or.inl ⟨rfl, fun x hx => ⟨line, List.mem_singleton.1 hx, ?_⟩⟩
    cases line <;> first | rfl | cases hreply
  | unchanged hrest =>
    cases hrest
    exact Or.inl ⟨rfl, fun x hx => absurd hx List.not_mem_nil⟩
  | @applied _ _ _ _ _ c c' hc happ hrest =>
    cases hrest
    exact Or.inr ⟨c, c', hc, happ, rfl, List.append_nil _⟩

namespace Server

variable {s s' : Server} {A fd : Fd} {line : Text}

/-- The changes that alter the channel are announced to its members, in order. -/
theorem Effective.carries {key : Text} {changes effective : List ModeChange}
    (h : Effective fd key s changes effective) (hlive : s.core.MembersLive) {c : Channel}
    (hc : s.channels[key]? = some c) :
    ∃ signals, (changes.foldl (fun s change => s.applyChannelModeChange fd key change) s).wire =
        s.wire.deliver signals ∧
      Carries fd (· ∈ c.members) (effective.map fun change =>
        .relay (s.core.who fd).source (.mode c.name change)) signals := by
  induction h generalizing c with
  | nil => exact ⟨[], rfl, .nil⟩
  | @idle s change changes effective hsame _ ih =>
    obtain ⟨hlive', now, hnow, hrun⟩ := s.applyChannelModeChange_step fd key change hlive
    obtain ⟨later, hlater, hcarries⟩ := ih hlive' (hsame.trans hc)
    rcases (hrun [] _ [] (.nil _)).single with ⟨hcore, hreplies⟩ | ⟨d, d', hd, happ, hcore, -⟩
    · rw [List.append_nil] at hreplies
      rw [hcore] at hcarries
      refine ⟨now ++ later, ?_, (Carries.replies hreplies).append hcarries⟩
      rw [List.foldl_cons, hlater, hnow, Wire.deliver_append]
    · refine absurd ?_ happ.ne
      have hd' : (s.applyChannelModeChange fd key change).core.channels[key]? = some d' := by
        rw [hcore, Core.getElem?_setChannel, if_pos rfl]
      exact Option.some.inj (hd'.symm.trans (hsame.trans hd))
  | @applied s change changes effective hne _ ih =>
    obtain ⟨hlive', now, hnow, hrun⟩ := s.applyChannelModeChange_step fd key change hlive
    rcases (hrun [] _ [] (.nil _)).single with ⟨hcore, -⟩ | ⟨d, d', hd, happ, hcore, hsignals⟩
    · exact absurd (congrArg (fun κ : Core => κ.channels[key]?) hcore) hne
    · cases hd.symm.trans hc
      have hd' : (s.applyChannelModeChange fd key change).core.channels[key]? = some d' := by
        rw [hcore, Core.getElem?_setChannel, if_pos rfl]
      have hmembers : (fun m => m ∈ d'.members) = fun m => m ∈ c.members :=
        funext fun m => propext (happ.mem_members m)
      obtain ⟨later, hlater, hcarries⟩ := ih hlive' hd'
      rw [hcore, hmembers, happ.name.1] at hcarries
      rw [List.append_nil, happ.name.1] at hsignals
      refine ⟨now ++ later, ?_, ?_⟩
      · rw [List.foldl_cons, hlater, hnow, Wire.deliver_append]
      · rw [hsignals]
        exact (Carries.toAll ExtTreeMap.nodup_keys
          (fun m => ExtTreeMap.mem_keys.trans (happ.mem_members m)) rfl).append hcarries

/-! ## Commands that take effect -/

/-- How a JOIN makes its client a member, and that it tells all members. -/
theorem effect_joined {κ κ' : Core} {command : Command} {signals : List Signal}
    (he : Effect κ A command κ' signals) (hname : command.name = "JOIN".toList) {key : Text}
    (hfresh : ∀ c : Channel, κ.channels[key]? = some c → A ∉ c.members) {c' : Channel}
    (hc' : κ'.channels[key]? = some c') (hm : A ∈ c'.members) :
    signals = κ.joinSignals A c' ∧ κ'.identities = κ.identities ∧
      ((κ.channels[key]? = none ∧ ∃ channelName rest, command.parameters = channelName :: rest ∧
          c' = ({ name := channelName } : Channel).addMember A true) ∨
        ∃ c, κ.channels[key]? = some c ∧ c.hasMember A = false ∧
          c' = (c.addMember A false).removeInvite (κ.who A).nickname) := by
  cases he with
  | silent => exact absurd hm (hfresh c' hc')
  | reply => exact absurd hm (hfresh c' hc')
  | create channelName rest _ hparams _ _ hnone =>
    rw [Core.getElem?_setChannel] at hc'
    split at hc'
    · next hk =>
      cases hc'
      subst hk
      exact ⟨rfl, rfl, Or.inl ⟨hnone, channelName, rest, hparams, rfl⟩⟩
    · exact absurd hm (hfresh c' hc')
  | join channelName rest c _ _ _ _ hc hmem =>
    rw [Core.getElem?_setChannel] at hc'
    split at hc'
    · next hk =>
      cases hc'
      subst hk
      exact ⟨rfl, rfl, Or.inr ⟨c, hc, hmem, rfl⟩⟩
    · exact absurd hm (hfresh c' hc')
  | _ => exact absurd (hname.symm.trans ‹command.name = _›) (by decide)

/-- A KICK that takes a member out tells all who were members. -/
theorem kicks {κ κ' : Core} {command : Command} {signals : List Signal}
    (he : Effect κ A command κ' signals) (hok : κ.Ok) (hname : command.name = "KICK".toList)
    {channelName targetNick : Text} {rest : List Text}
    (hparams : command.parameters = channelName :: targetNick :: rest) {key : Text} {c : Channel} {target : Fd}
    (hc : κ.channels[key]? = some c) (hm : target ∈ c.members)
    (hgone : ∀ c' : Channel, κ'.channels[key]? = some c' → target ∉ c'.members) :
    signals = toAll c.members.keys (.relay (κ.who A).source
      (.kick channelName targetNick (rest.head?.getD (κ.who A).nickname))) := by
  cases he with
  | silent => exact absurd hm (hgone c hc)
  | reply => exact absurd hm (hgone c hc)
  | kick channelName' targetNick' rest' c₁ _ _ hparams' _ hc₁ =>
    cases hparams.symm.trans hparams'
    by_cases hkey : ircCaseFold channelName = key
    · subst hkey
      cases hc.symm.trans hc₁
      rfl
    · refine absurd hm (hgone c ?_)
      rw [Core.getElem?_dropMember (hok.channel _ c₁ hc₁).key, if_neg hkey]
      exact hc
  | _ => exact absurd (hname.symm.trans ‹command.name = _›) (by decide)

/-- Only what begins like a channel is the name of one. -/
theorem isChannelTarget_of_found {name : Text} {c : Channel} (hok : s.core.Ok)
    (hc : s.findChannel name = some c) : isChannelTarget name = true := by
  have hch := hok.channel _ c hc
  rw [← isChannelTarget_fold, ← hch.key, isChannelTarget_fold]
  exact hch.name

theorem registered_of_member {name : Text} {c : Channel} (hok : s.core.Ok)
    (hc : s.findChannel name = some c) (hm : c.hasMember A = true) : (s.client A).registered = true := by
  rw [client_registered]
  exact (hok.channel _ c hc).members A ((hasMember_iff c A).1 hm)

section Handlers

variable {command : Command} {channelName text : Text} {rest : List Text} {c : Channel}

theorem dispatchCommand_privmsg (hname : command.name = "PRIVMSG".toList) :
    s.dispatchCommand fd command = s.handlePrivmsg fd command := by
  unfold dispatchCommand
  simp [hname]

theorem dispatchCommand_topic (hname : command.name = "TOPIC".toList) :
    s.dispatchCommand fd command = s.handleTopic fd command := by
  unfold dispatchCommand
  simp [hname]

theorem dispatchCommand_mode (hname : command.name = "MODE".toList) :
    s.dispatchCommand fd command = s.handleMode fd command := by
  unfold dispatchCommand
  simp [hname]

theorem handlePrivmsg_member (hok : s.core.Ok) (hparams : command.parameters = channelName :: text :: rest)
    (hc : s.findChannel channelName = some c) (hm : c.hasMember fd = true) :
    s.handlePrivmsg fd command =
      s.broadcastToChannel c (.relay (s.client fd).source (.privmsg channelName text)) (some fd) := by
  have hreg := registered_of_member hok hc hm
  have htarget := isChannelTarget_of_found hok hc
  unfold handlePrivmsg
  simp only [hreg, hparams, htarget, hc, hm, Bool.not_true, Bool.false_eq_true, if_false, if_true]

theorem handleTopic_member (hok : s.core.Ok) (hparams : command.parameters = channelName :: text :: rest)
    (hc : s.findChannel channelName = some c) (hm : c.hasMember fd = true)
    (hop : c.topicRestricted = true → c.isMemberOperator fd = true) :
    s.handleTopic fd command =
      (s.setChannel (ircCaseFold channelName) (c.setTopic text)).broadcastToChannel (c.setTopic text)
        (.relay (s.client fd).source (.topic channelName text)) := by
  have hreg := registered_of_member hok hc hm
  have hallowed : (c.topicRestricted && !c.isMemberOperator fd) = false := by
    cases hr : c.topicRestricted with
    | false => rfl
    | true => rw [hop hr]; rfl
  unfold handleTopic
  simp only [hreg, hparams, hc, hm, hallowed, Bool.not_true, Bool.false_eq_true, if_false]

theorem handleMode_operator (hok : s.core.Ok) (hparams : command.parameters = channelName :: rest)
    (hc : s.findChannel channelName = some c) (hop : c.isMemberOperator fd = true)
    {changes : List ModeChange} (hchanges : parseChannelModeChanges command.parameters = some changes) :
    s.handleMode fd command =
      changes.foldl (fun s change => s.applyChannelModeChange fd (ircCaseFold channelName) change) s := by
  have hreg := registered_of_member hok hc (isMemberOperator_hasMember hop)
  have htarget := isChannelTarget_of_found hok hc
  have hrest : rest.isEmpty = false := by
    cases rest with
    | nil => rw [hparams] at hchanges; cases hchanges
    | cons => rfl
  rw [hparams] at hchanges
  unfold handleMode
  simp only [hreg, hparams, htarget, hc, hop, hrest, hchanges, Bool.not_true, Bool.false_eq_true, if_false]

end Handlers

/-- A command of the client on `A` takes effect on a channel: who is to read of it, and what. -/
inductive TakesEffect (s : Server) (A : Fd) (command : Command) (s' : Server) :
    (Fd → Prop) → List Line → Prop
  | join (key : Text) (c' : Channel) : command.name = "JOIN".toList →
      (∀ c : Channel, s.channels[key]? = some c → A ∉ c.members) → s'.channels[key]? = some c' →
      A ∈ c'.members →
      TakesEffect s A command s' (· ∈ c'.members) [.relay (s.client A).source (.join c'.name)]
  | privmsg (targetName text : Text) (rest : List Text) (c : Channel) :
      command.name = "PRIVMSG".toList → command.parameters = targetName :: text :: rest →
      s.findChannel targetName = some c → c.hasMember A = true →
      TakesEffect s A command s' (fun m => m ∈ c.members ∧ m ≠ A)
        [.relay (s.client A).source (.privmsg targetName text)]
  | topic (channelName newTopic : Text) (rest : List Text) (c : Channel) :
      command.name = "TOPIC".toList → command.parameters = channelName :: newTopic :: rest →
      s.findChannel channelName = some c → c.hasMember A = true →
      (c.topicRestricted = true → c.isMemberOperator A = true) →
      TakesEffect s A command s' (· ∈ c.members)
        [.relay (s.client A).source (.topic channelName newTopic)]
  | kick (channelName targetNick : Text) (rest : List Text) (key : Text) (c : Channel) (target : Fd) :
      command.name = "KICK".toList → command.parameters = channelName :: targetNick :: rest →
      s.channels[key]? = some c → target ∈ c.members →
      (∀ c' : Channel, s'.channels[key]? = some c' → target ∉ c'.members) →
      TakesEffect s A command s' (· ∈ c.members)
        [.relay (s.client A).source
          (.kick channelName targetNick (rest.head?.getD (s.client A).nickname))]
  | mode (target : Text) (rest : List Text) (c : Channel) (changes effective : List ModeChange) :
      command.name = "MODE".toList → command.parameters = target :: rest →
      s.findChannel target = some c → c.isMemberOperator A = true →
      parseChannelModeChanges command.parameters = some changes →
      Effective A (ircCaseFold target) s changes effective →
      TakesEffect s A command s' (· ∈ c.members)
        (effective.map fun change => .relay (s.client A).source (.mode c.name change))

/-- What the handler of a line finds, behind the entries that say that the line is handled. -/
theorem Step.handled (hs : s.Step (.line A line) s') (hvalid : (Command.parse line).valid = true) :
    ∃ t : Server, t.core = s.core ∧ t.client A = s.client A ∧
      t.wire = (s.wire.record (.completeLine A line)).record (.dispatched A (Command.parse line)) ∧
      s' = t.dispatchCommand A (Command.parse line) :=
  ⟨(s.record (.completeLine A line)).record (.dispatched A (Command.parse line)), rfl, rfl, rfl,
    hs.dispatched hvalid⟩

theorem findChannel_congr {t : Server} (hcore : t.core = s.core) (name : Text) :
    t.findChannel name = s.findChannel name := by
  rw [findChannel_eq, findChannel_eq, hcore]

theorem joinReplies_numeric {κ : Core} {c : Channel} : ∀ x ∈ κ.joinReplies A c,
    ∃ code arguments, x = .line A (.numeric code (κ.replyTarget A) arguments) ∧
      code ∈ ["331".toList, "332".toList, "353".toList, "366".toList] := by
  intro x hx
  simp only [Core.joinReplies, List.mem_cons, List.not_mem_nil, or_false] at hx
  rcases hx with rfl | rfl | rfl
  · split
    · exact ⟨_, _, rfl, by decide⟩
    · exact ⟨_, _, rfl, by decide⟩
  · exact ⟨_, _, rfl, by decide⟩
  · exact ⟨_, _, rfl, by decide⟩

theorem joinReplies_spec {κ : Core} {c : Channel} : ∀ x ∈ κ.joinReplies A c,
    ∃ line, x = .line A line ∧ line.isRelay = false := by
  intro x hx
  obtain ⟨code, arguments, rfl, -⟩ := joinReplies_numeric x hx
  exact ⟨_, rfl, rfl⟩

theorem carries_join {κ : Core} (c : Channel) :
    Carries A (· ∈ c.members) [.relay (κ.who A).source (.join c.name)] (κ.joinSignals A c) :=
  (Carries.toAll ExtTreeMap.nodup_keys (fun _ => ExtTreeMap.mem_keys) rfl).append
    (Carries.replies joinReplies_spec)

/-- The changes of a MODE line that alter the channel are relayed to its members. -/
theorem Reachable.mode_relayed (h : Reachable s) (hs : s.Step (.line A line) s')
    (hvalid : (Command.parse line).valid = true) (hname : (Command.parse line).name = "MODE".toList)
    {target : Text} {rest : List Text} (hparams : (Command.parse line).parameters = target :: rest)
    {c : Channel} (hc : s.findChannel target = some c) (hop : c.isMemberOperator A = true)
    {changes effective : List ModeChange}
    (hchanges : parseChannelModeChanges (Command.parse line).parameters = some changes)
    (heffective : Effective A (ircCaseFold target) s changes effective) :
    s.Relayed s' A (· ∈ c.members)
      (effective.map fun change => .relay (s.client A).source (.mode c.name change)) := by
  obtain ⟨t, hcore, -, hwire, hdispatched⟩ := hs.handled hvalid
  have hok : t.core.Ok := hcore ▸ h.ok
  rw [dispatchCommand_mode hname, handleMode_operator hok hparams
    ((findChannel_congr hcore _).trans hc) hop hchanges] at hdispatched
  obtain ⟨signals, hdelivered, hcarries⟩ := (heffective.congr hcore).carries hok.membersLive
    ((findChannel_congr hcore _).trans hc)
  rw [hcore] at hcarries
  rw [client_source]
  refine h.relayed hs (by rw [hname]; decide) hcarries (fun m hm => h.ok.membersLive _ c hc m hm) ?_
  rw [hdispatched, ← hwire]
  exact hdelivered

/-- **A command that takes effect on a channel is told to its members, each once, and to nobody
else.** -/
theorem channel_relays_reach (h : Reachable s) (hs : s.Step (.line A line) s')
    (hvalid : (Command.parse line).valid = true) {audience : Fd → Prop} {relays : List Line}
    (ht : s.TakesEffect A (Command.parse line) s' audience relays) :
    s.Relayed s' A audience relays := by
  have hmembers {key : Text} {c : Channel} (hc : s.channels[key]? = some c) (m : Fd) (hm : m ∈ c.members) :
      s.core.Live m := h.ok.membersLive key c hc m hm
  obtain ⟨t, hcore, hclient, hwire, hdispatched⟩ := hs.handled hvalid
  have hok : t.core.Ok := hcore ▸ h.ok
  obtain ⟨signals, heffect, hsignals⟩ := dispatchCommand_effect t A (Command.parse line) hok.membersLive
    (hcore ▸ (h.queued hs).1)
  rw [← hdispatched, hcore] at heffect
  rw [← hdispatched, hwire] at hsignals
  cases ht with
  | join key c' hname hfresh hc' hm =>
    cases (effect_joined heffect hname hfresh hc' hm).1
    rw [client_source]
    refine h.relayed hs (by rw [hname]; decide) (carries_join c') (fun m hm => ?_) hsignals
    exact (heffect.live m).1 ((h.step hs).ok.membersLive key c' hc' m hm)
  | privmsg targetName text rest c hname hparams hc hm =>
    rw [dispatchCommand_privmsg hname, handlePrivmsg_member hok hparams
      ((findChannel_congr hcore _).trans hc) hm, hclient] at hdispatched
    have hothers (m : Fd) : m ∈ c.members.keys.filter (some · ≠ some A) ↔ m ∈ c.members ∧ m ≠ A := by
      rw [List.mem_filter, ExtTreeMap.mem_keys]
      simp
    refine h.relayed hs (by rw [hname]; decide) (Carries.toAll (ExtTreeMap.nodup_keys.filter _) hothers rfl)
      (fun m hm => hmembers hc m hm.1) ?_
    · rw [hdispatched, ← hwire]
      exact wire_broadcastToChannel t c _ _ (fun m hm => hcore ▸ hmembers hc m hm)
  | topic channelName newTopic rest c hname hparams hc hm hop =>
    rw [dispatchCommand_topic hname, handleTopic_member hok hparams
      ((findChannel_congr hcore _).trans hc) hm hop, hclient] at hdispatched
    refine h.relayed hs (by rw [hname]; decide) (Carries.toAll ExtTreeMap.nodup_keys
      (fun m => ExtTreeMap.mem_keys) rfl) (hmembers hc) ?_
    have hlive : ∀ m ∈ (c.setTopic newTopic).members, t.core.Live m := fun m hm => hcore ▸ hmembers hc m hm
    rw [hdispatched, ← hwire]
    exact wire_broadcast (t.setChannel _ _) (c.setTopic newTopic) _ hlive
  | kick channelName targetNick rest key c target hname hparams hc hm hgone =>
    cases kicks heffect h.ok hname hparams hc hm hgone
    rw [client_source, client_nickname]
    exact h.relayed hs (by rw [hname]; decide) (Carries.toAll ExtTreeMap.nodup_keys
      (fun m => ExtTreeMap.mem_keys) rfl) (hmembers hc) hsignals
  | mode target rest c changes effective hname hparams hc hop hchanges heffective =>
    exact h.mode_relayed hs hvalid hname hparams hc hop hchanges heffective

/-- `al`, on 5, joins `bob` on `#c`. -/
theorem channel_relays_reach_session :
    ∃ s' c', session.Step (.line 5 "JOIN #C".toList) s' ∧ s'.channels["#c".toList]? = some c' ∧
      session.Relayed s' 5 (· ∈ c'.members) [.relay ⟨"al".toList, "a".toList⟩ (.join "#c".toList)] := by
  have hview : (session.step (.line 5 "JOIN #C".toList)).bind (fun s' =>
        (s'.channels["#c".toList]?).map fun c' => (c'.members.contains 5, c'.name)) =
          some (true, "#c".toList) ∧
      (session.client 5).source = ⟨"al".toList, "a".toList⟩ ∧
      (session.channels["#c".toList]?).all (fun c => !c.members.contains 5) = true := by
    decide +kernel
  have hr := session_reachable
  generalize session = s at *
  obtain ⟨hview, hsource, hfresh⟩ := hview
  obtain ⟨s', hs, hview⟩ := Option.bind_eq_some_iff.1 hview
  obtain ⟨c', hc', hview⟩ := Option.map_eq_some_iff.1 hview
  rw [Prod.mk.injEq] at hview
  refine ⟨s', c', hs, hc', ?_⟩
  rw [← hsource, ← hview.2]
  refine channel_relays_reach hr hs (by decide) (.join _ c' (by decide) (fun c hc => ?_) hc' ?_)
  · intro hm
    rw [hc, Option.all_some, ExtTreeMap.mem_iff_contains.1 hm] at hfresh
    cases hfresh
  · exact ExtTreeMap.mem_iff_contains.2 hview.1

end Server

end FtIrc
