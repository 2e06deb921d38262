import FtIrc.Enrolment
import FtIrc.Traffic

/-!
# What the server keeps

A text the server keeps after a step it kept before, or it is spelled from the line it handled
(`Server.Reachable.keeps`).  So a property of characters that the server's own words have, and
every text its commands repeat, is one of every line ever queued (`Server.Reachable.tidy`).
-/

namespace FtIrc

open Std

/-! ## Reasons on the wire -/

/-- The reason a connection is left with: the one it had, none, the one for a full buffer, or
one that was signalled. -/
theorem Wire.Step.reason {w w' : Wire} {t : Traffic} (hs : w.Step t w') (m : Fd) :
    (w'.port m).disconnectReason = (w.port m).disconnectReason ∨
    (w'.port m).disconnectReason = [] ∨
    (w'.port m).disconnectReason = "Exceeded Client OutputBuffer".toList ∨
    t = .signal (.disconnect m (w'.port m).disconnectReason) := by
  have hmodify {fd : Fd} {f : Port → Port} (hf : ∀ p, (f p).disconnectReason = p.disconnectReason) :
      ((w.modify fd f).port m).disconnectReason = (w.port m).disconnectReason := by
    unfold Wire.port Wire.modify
    by_cases hm : fd = m
    · subst hm
      cases hp : w.ports fd <;> simp [hp, hf]
    · simp [hm]
  have hrequest (fd : Fd) (reason : Text) :
      ((w.requestDisconnect fd reason).port m).disconnectReason = (w.port m).disconnectReason ∨
      fd = m ∧ ((w.requestDisconnect fd reason).port m).disconnectReason = reason := by
    by_cases hm : fd = m
    · subst hm
      by_cases hlive : (w.ports fd).isSome
      · exact Or.inr ⟨rfl, congrArg Port.disconnectReason (Wire.port_modify_self (w := w) hlive)⟩
      · left
        unfold Wire.port Wire.requestDisconnect Wire.modify Wire.record
        simp [Option.not_isSome_iff_eq_none.1 hlive]
    · exact Or.inl (congrArg Port.disconnectReason (Wire.port_modify_of_ne (w := w) hm))
  cases hs with
  | connect fd =>
    unfold Wire.port Wire.connect
    dsimp only
    split
    · exact Or.inr (Or.inl rfl)
    · exact Or.inl rfl
  | note => exact Or.inl rfl
  | input => exact Or.inl (hmodify fun _ => rfl)
  | signal x =>
    cases x with
    | line fd line =>
      rw [Wire.signal_line]
      unfold Wire.queueLine
      split
      · exact Or.inl rfl
      split
      · exact Or.inl (hmodify fun _ => rfl)
      · rcases hrequest fd "Exceeded Client OutputBuffer".toList with h | ⟨-, h⟩
        · exact Or.inl h
        · exact Or.inr (Or.inr (Or.inl h))
    | disconnect fd reason =>
      rcases hrequest fd reason with h | ⟨rfl, h⟩
      · exact Or.inl h
      · refine Or.inr (Or.inr (Or.inr ?_))
        rw [Wire.signal_disconnect, h]
  | drainSome => exact Or.inl (hmodify fun _ => rfl)
  | drainAll => exact Or.inl (hmodify fun _ => rfl)
  | rest => exact Or.inl rfl
  | leave fd =>
    unfold Wire.port Wire.disconnect
    dsimp only
    split
    · exact Or.inr (Or.inl rfl)
    · exact Or.inl rfl
  | poll => exact Or.inl rfl

theorem Wire.reason_run {w w' : Wire} {ts : List Traffic} (hrun : Transition.Run Wire.Step w ts w')
    (m : Fd) :
    (w'.port m).disconnectReason = (w.port m).disconnectReason ∨
    (w'.port m).disconnectReason = [] ∨
    (w'.port m).disconnectReason = "Exceeded Client OutputBuffer".toList ∨
    .signal (.disconnect m (w'.port m).disconnectReason) ∈ ts := by
  induction hrun with
  | nil => exact Or.inl rfl
  | snoc _ hs ih =>
    rcases hs.reason m with h | h | h | h
    · rw [h]
      rcases ih with ih | ih | ih | ih
      · exact Or.inl ih
      · exact Or.inr (Or.inl ih)
      · exact Or.inr (Or.inr (Or.inl ih))
      · exact Or.inr (Or.inr (Or.inr (List.mem_append_left _ ih)))
    · exact Or.inr (Or.inl h)
    · exact Or.inr (Or.inr (Or.inl h))
    · exact Or.inr (Or.inr (Or.inr (List.mem_append_right _ (by rw [← h]; exact List.mem_singleton_self _))))

namespace Server

variable {s s' : Server} {e : Event} {A : Fd} {command : Command} {line : Text}

/-! ## Names and topics -/

theorem spelled_identity {signals : List Signal} (hlive : s.core.Live A)
    (he : Effect s.core A command s'.core signals) (x : Fd) :
    s.Spelled A command (s'.core.who x).nickname ∧ s.Spelled A command (s'.core.who x).username := by
  by_cases hx : A = x
  swap
  · rw [he.who_of_ne hx]
    exact ⟨spelled_nickname x, spelled_username x⟩
  subst hx
  have hmove := he.identityMove hlive
  generalize s'.core.who A = id' at hmove ⊢
  cases hmove with
  | same => exact ⟨spelled_nickname A, spelled_username A⟩
  | pass =>
    rw [Identity.complete_field (g := Identity.nickname) fun _ => rfl,
      Identity.complete_field (g := Identity.username) fun _ => rfl]
    exact ⟨spelled_nickname A, spelled_username A⟩
  | user username mode unused realname rest hname hreg hparams =>
    rw [Identity.complete_field (g := Identity.nickname) fun _ => rfl,
      Identity.complete_field (g := Identity.username) fun _ => rfl]
    exact ⟨spelled_nickname A,
      .said (.user username mode unused realname rest hname (by rw [client_registered]; exact hreg) hparams)⟩
  | nick nickname rest hname hparams =>
    rw [Identity.complete_field (g := Identity.nickname) fun _ => rfl,
      Identity.complete_field (g := Identity.username) fun _ => rfl]
    exact ⟨.said (.nick nickname rest hname hparams), spelled_username A⟩

theorem spelled_channel {signals : List Signal} (hok : s.core.Ok) (hlive : s.core.Live A)
    (he : Effect s.core A command s'.core signals) {key : Text} {c' : Channel}
    (hc' : s'.core.channels[key]? = some c') :
    s.Spelled A command c'.name ∧ s.Spelled A command c'.topic := by
  have kept {c c₁ : Channel} (hc : s.core.channels[key]? = some c) (hname : c₁.name = c.name)
      (htopic : c₁.topic = c.topic) : s.Spelled A command c₁.name ∧ s.Spelled A command c₁.topic := by
    rw [hname, htopic]
    exact ⟨.kept (.name key c hc), .kept (.topic key c hc)⟩
  have hmove := he.channelMove hok hlive key
  generalize hx : s.core.channels[key]? = x at hmove
  generalize hy : s'.core.channels[key]? = y at hmove
  rw [hc'] at hy
  cases hmove with
  | same =>
    subst hy
    exact kept hx rfl rfl
  | rename c =>
    cases hy
    rw [Core.renameInvite_kept]
    exact kept hx rfl rfl
  | create channelName rest hname hparams _ hreg =>
    cases hy
    exact ⟨.said (.join channelName rest hname (by rw [client_registered]; exact hreg) hparams),
      .own rfl⟩
  | join channelName rest c _ _ _ _ hmem =>
    cases hy
    rw [Channel.addMember_eq hmem]
    exact kept hx rfl rfl
  | topic channelName newTopic rest c hname hparams hkey hmem hop =>
    cases hy
    subst hkey
    have hreg : (s.core.who A).registered = true :=
      (hok.channel _ c hx).members A ((hasMember_iff c A).1 hmem)
    exact ⟨.kept (.name _ c hx), .said (.topic channelName newTopic rest c hname
      (by rw [client_registered]; exact hreg) hparams hx hmem hop)⟩
  | kick _ _ _ c target =>
    split at hy
    · cases hy
    · cases hy
      exact kept hx rfl rfl
  | invite =>
    cases hy
    exact kept hx rfl rfl
  | mode _ _ _ c _ _ _ _ _ _ hchain =>
    cases hy
    exact kept hx hchain.name.1 hchain.name.2

/-! ## Every step -/

/-- Kept before, a word of the server's own, or spelled from the line it handled. -/
def Learns (s : Server) (e : Event) (text : Text) : Prop :=
  s.Kept text ∨ text.all isPrintable = true ∨
    ∃ A line, e = .line A line ∧ (Command.parse line).valid = true ∧
      s.Spelled A (Command.parse line) text

theorem Reachable.learns_identity (hr : Reachable s) (hs : s.Step e s') (x : Fd) :
    s.Learns e (s'.core.who x).nickname ∧ s.Learns e (s'.core.who x).username := by
  have hsame (h : s'.core.who x = s.core.who x) :
      s.Learns e (s'.core.who x).nickname ∧ s.Learns e (s'.core.who x).username := by
    rw [h, ← client_nickname, ← client_username]
    exact ⟨Or.inl (.nickname x), Or.inl (.username x)⟩
  cases hr.move hs with
  | quiet hcore => exact hsame (by rw [hcore])
  | connect hnew hcore => exact hsame (by rw [hcore, Core.who_connect hnew])
  | @command A line _ signals hA hvalid heffect =>
    obtain ⟨hnick, huser⟩ := spelled_identity hA heffect x
    exact ⟨Or.inr (Or.inr ⟨A, line, rfl, hvalid, hnick⟩), Or.inr (Or.inr ⟨A, line, rfl, hvalid, huser⟩)⟩
  | @disconnect _ p _ _ _ _ _ hcore =>
    by_cases hx : p.fd = x
    · rw [hcore, Core.who_disconnect, if_pos hx]
      exact ⟨Or.inr (Or.inl rfl), Or.inr (Or.inl rfl)⟩
    · refine hsame ?_
      rw [hcore, Core.who_disconnect, if_neg hx]

theorem Reachable.learns_channel (hr : Reachable s) (hs : s.Step e s') {key : Text} {c' : Channel}
    (hc' : s'.core.channels[key]? = some c') : s.Learns e c'.name ∧ s.Learns e c'.topic := by
  have hsame {c : Channel} (hc : s.core.channels[key]? = some c) (hname : c'.name = c.name)
      (htopic : c'.topic = c.topic) : s.Learns e c'.name ∧ s.Learns e c'.topic := by
    rw [hname, htopic]
    exact ⟨Or.inl (.name key c hc), Or.inl (.topic key c hc)⟩
  cases hr.move hs with
  | quiet hcore => exact hsame (by rw [← hcore]; exact hc') rfl rfl
  | connect _ hcore =>
    rw [hcore] at hc'
    exact hsame hc' rfl rfl
  | @command A line _ signals hA hvalid heffect =>
    obtain ⟨hname, htopic⟩ := spelled_channel hr.ok hA heffect hc'
    exact ⟨Or.inr (Or.inr ⟨A, line, rfl, hvalid, hname⟩), Or.inr (Or.inr ⟨A, line, rfl, hvalid, htopic⟩)⟩
  | @disconnect _ p _ _ _ _ _ hcore =>
    rw [hcore, Core.getElem?_disconnect] at hc'
    obtain ⟨c, hc, hpurge⟩ := Option.bind_eq_some_iff.1 hc'
    obtain ⟨rfl, -⟩ := Core.purgeChannel_eq_some.1 hpurge
    exact hsame hc rfl rfl

theorem Reachable.learns_reason (hr : Reachable s) (hs : s.Step e s') (x : Fd) :
    s.Learns e (s'.client x).disconnectReason := by
  obtain ⟨ts, hrun, hasked⟩ := hr.traffic hs
  rw [client_disconnectReason]
  rcases Wire.reason_run hrun x with h | h | h | h
  · rw [h, ← client_disconnectReason]
    exact Or.inl (.reason x)
  · rw [h]
    exact Or.inr (Or.inl rfl)
  · rw [h]
    exact Or.inr (Or.inl (all_literal (by decide)))
  · rcases hasked x _ h with h | ⟨line, rfl, hvalid, hname, h⟩
    · rw [h]
      exact Or.inr (Or.inl (all_literal (by decide)))
    · refine Or.inr (Or.inr ⟨x, line, rfl, hvalid, ?_⟩)
      rw [h]
      cases hparams : (Command.parse line).parameters with
      | nil => exact .own (all_literal (by decide))
      | cons reason rest => exact .said (.quit reason rest hname hparams)

theorem Reachable.keeps (hr : Reachable s) (hs : s.Step e s') {text : Text} (h : s'.Kept text) :
    s.Learns e text := by
  cases h with
  | nickname x =>
    rw [client_nickname]
    exact (hr.learns_identity hs x).1
  | username x =>
    rw [client_username]
    exact (hr.learns_identity hs x).2
  | reason x => exact hr.learns_reason hs x
  | name key c hc => exact (hr.learns_channel hs hc).1
  | topic key c hc => exact (hr.learns_channel hs hc).2

/-! ## A property of all characters -/

section Clean

variable {P : Char → Prop}

/-- What the server keeps has `P`. -/
def Tidy (P : Char → Prop) (s : Server) : Prop := ∀ text, s.Kept text → Clean P text

/-- So has what the handler of a line repeats or keeps. -/
def Utters (P : Char → Prop) (s : Server) (e : Event) : Prop :=
  ∀ A line, e = .line A line → (Command.parse line).valid = true →
    ∀ text, s.Echoes A (Command.parse line) text → Clean P text

theorem tidy_start (P : Char → Prop) (listenerFd : Fd) (password : Text) :
    (Server.start listenerFd password).Tidy P := by
  intro text h
  cases h with
  | nickname => exact nofun
  | username => exact nofun
  | reason => exact nofun
  | name key c hc => cases hc
  | topic key c hc => cases hc

theorem Tidy.step (h : s.Tidy P) (hP : ∀ c, isPrintable c = true → P c) (hr : Reachable s)
    (hs : s.Step e s') (hutters : s.Utters P e) : s'.Tidy P := by
  intro text htext
  rcases hr.keeps hs htext with hkept | hown | ⟨A, line, rfl, hvalid, hspelled⟩
  · exact h text hkept
  · exact clean_own hP hown
  · exact hspelled.clean hP h (hutters A line rfl hvalid)

/-- The lines that a step queues have `P`. -/
theorem Tidy.lines (h : s.Tidy P) (hP : ∀ c, isPrintable c = true → P c) (hr : Reachable s)
    (hs : s.Step e s') (hutters : s.Utters P e) : Logged (fun l => Clean P l.render) s s' := by
  have hquiet (hquiet : s.wire.Quiet s'.wire) : Logged (fun l => Clean P l.render) s s' := by
    obtain ⟨actions, hlog, hq⟩ := hquiet.log
    exact ⟨actions, hlog, fun m l accepted hmem => by cases hq _ hmem⟩
  cases hr.move hs with
  | quiet _ hq => exact hquiet hq
  | @connect x _ _ _ hwire => exact ⟨[.accepted x], congrArg Wire.log hwire, by simp⟩
  | @command A line =>
    obtain ⟨actions, hlog, hsaid⟩ := hr.voiced hs
    refine ⟨actions, hlog, fun m l accepted hmem => Line.clean_render hP fun t ht => ?_⟩
    obtain ⟨hvalid, hvoiced⟩ := hsaid m l accepted hmem
    exact (hvoiced.texts t ht).clean hP h (hutters A line rfl hvalid)
  | @disconnect _ p _ recipients pollFds _ _ _ _ hwire =>
    obtain ⟨actions, hlog, hqueued⟩ :=
      s.wire.log_deliver_queued (toAll recipients (s.quitLine p.fd))
    refine ⟨_, log_removed hwire hlog, fun m l accepted hmem => ?_⟩
    have hmem : .queued m l accepted ∈ actions := by simpa using hmem
    have hline := mem_queuedTo.2 ⟨accepted, hmem⟩
    rw [hqueued] at hline
    obtain ⟨x, -, heq⟩ := List.mem_map.1 (mem_linesFor.1 hline)
    cases heq
    refine Line.clean_render hP fun t ht => ?_
    unfold quitLine Wire.quitReason at ht
    simp only [Line.texts, Relay.texts, List.mem_cons, List.not_mem_nil, or_false] at ht
    rcases ht with rfl | rfl | rfl
    · show Clean P (s.core.who p.fd).nickname
      rw [← client_nickname]
      exact h _ (.nickname p.fd)
    · show Clean P (s.core.who p.fd).username
      rw [← client_username]
      exact h _ (.username p.fd)
    · split
      · exact clean_own hP (all_literal (by decide))
      · rw [← client_disconnectReason]
        exact h _ (.reason p.fd)

/-- **A property of all characters that the server's own words have, and all that its commands
repeat, is one of every line ever queued.** -/
theorem tidy_run (hP : ∀ c, isPrintable c = true → P c) {listenerFd : Fd} {password : Text}
    {es : List Event} (hrun : Transition.Run (fun s e s' => Step s e s' ∧ s.Utters P e)
      (Server.start listenerFd password) es s) :
    Reachable s ∧ s.Tidy P ∧ ∀ m line accepted, .queued m line accepted ∈ s.log → Clean P line.render := by
  induction hrun with
  | nil => exact ⟨Reachable.start _ _, tidy_start P _ _, fun _ _ _ hmem => by cases hmem⟩
  | snoc _ hs ih =>
    obtain ⟨hr, htidy, hlines⟩ := ih
    obtain ⟨actions, hlog, hnew⟩ := htidy.lines hP hr hs.1 hs.2
    refine ⟨hr.step hs.1, htidy.step hP hr hs.1 hs.2, fun m line accepted hmem => ?_⟩
    rw [hlog] at hmem
    rcases List.mem_append.1 hmem with hmem | hmem
    · exact hlines m line accepted hmem
    · exact hnew m line accepted hmem

end Clean

end Server

end FtIrc
