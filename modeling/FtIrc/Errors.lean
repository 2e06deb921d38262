import FtIrc.Decoding

/-!
# Errors change nothing

A handler answers with an error before it changes anything: when a command is answered with a
4xx line, this line to its issuer is all that the command does.
-/

namespace FtIrc

open Std

/-- The reply is one of the numerics from 400 to 499. -/
def Line.isError (line : Line) : Bool := ":ircserv 4".toList.isPrefixOf line.render

/-- The source of a relay is not the server. -/
theorem isError_relay {source : Source} (hsource : ' ' ∉ source.render) (event : Relay) :
    (Line.relay source event).isError = false := by
  have hmark : '!' ∈ source.render := by
    unfold Source.render
    refine List.mem_append_left _ (List.mem_append_left _ (List.mem_append_right _ ?_))
    decide
  have hspace (behind : Text) : (' ' :: behind).head? = none ∨ (' ' :: behind).head? = some ' ' := Or.inr rfl
  have hword := (Command.takeWhile_middle hsource (hspace event.render)).1
  by_contra h
  rw [Bool.not_eq_false] at h
  unfold Line.isError at h
  rw [List.isPrefixOf_iff_prefix] at h
  obtain ⟨rest, heq⟩ := h
  have hrender : (Line.relay source event).render = ':' :: (source.render ++ ' ' :: event.render) := by
    show ":".toList ++ source.render ++ " ".toList ++ event.render = _
    rw [show ":".toList = [':'] by decide, show " ".toList = [' '] by decide]
    simp
  rw [hrender, show ":ircserv 4".toList = ':' :: ("ircserv".toList ++ ' ' :: ['4']) by decide,
    List.cons_append, List.append_assoc, List.cons_append] at heq
  have hserver := (Command.takeWhile_middle (show ' ' ∉ "ircserv".toList by decide) (hspace (['4'] ++ rest))).1
  rw [(List.cons.inj heq).2, hword] at hserver
  rw [hserver] at hmark
  exact absurd hmark (by decide)

theorem isError_welcome {κ : Core} {A : Fd} : ∀ x ∈ κ.welcome A, ∃ line, x = .line A line ∧ line.isError = false := by
  intro x hx
  unfold Core.welcome at hx
  split at hx
  · simp only [List.mem_cons, List.not_mem_nil, or_false] at hx
    rcases hx with rfl | rfl
    · exact ⟨_, rfl, rfl⟩
    · exact ⟨_, rfl, rfl⟩
  · cases hx

theorem isError_joinReplies {κ : Core} {A : Fd} {c : Channel} : ∀ x ∈ κ.joinReplies A c, ∃ line, x = .line A line ∧
    line.isError = false := by
  intro x hx
  obtain ⟨code, arguments, rfl, hcode⟩ := Server.joinReplies_numeric x hx
  refine ⟨_, rfl, ?_⟩
  simp only [List.mem_cons, List.not_mem_nil, or_false] at hcode
  rcases hcode with rfl | rfl | rfl | rfl <;> rfl

/-- **A command that is answered with an error does nothing else.** -/
theorem Effect.error {κ κ' : Core} {A : Fd} {command : Command} {signals : List Signal}
    (he : Effect κ A command κ' signals) (hsource : ' ' ∉ (κ.who A).source.render)
    (hmode : command.name ≠ "MODE".toList) {m : Fd} {line : Line} (hx : .line m line ∈ signals)
    (herror : line.isError = true) : m = A ∧ κ' = κ ∧ signals = [.line A line] := by
  have relayed {fds : List Fd} {event : Relay} : .line m line ∉ toAll fds (.relay (κ.who A).source event) := by
    intro hmem
    obtain ⟨fd, -, heq⟩ := List.mem_map.1 hmem
    cases heq
    rw [isError_relay hsource] at herror
    cases herror
  have answered {xs : List Signal} (hxs : ∀ x ∈ xs, ∃ line, x = .line A line ∧ line.isError = false) :
      .line m line ∉ xs := by
    intro hmem
    obtain ⟨line', heq, hnot⟩ := hxs _ hmem
    cases heq
    rw [hnot] at herror
    cases herror
  have single {n : Fd} {event : Relay} :
      Signal.line m line ≠ Signal.line n (.relay (κ.who A).source event) := by
    rintro heq
    cases heq
    rw [isError_relay hsource] at herror
    cases herror
  cases he with
  | silent => cases hx
  | reply line' =>
    cases List.mem_singleton.1 hx
    exact ⟨rfl, rfl, rfl⟩
  | quit => cases List.mem_singleton.1 hx
  | pass => exact absurd hx (answered isError_welcome)
  | user => exact absurd hx (answered isError_welcome)
  | nick =>
    rcases List.mem_append.1 hx with hx | hx
    · exact absurd hx relayed
    · exact absurd hx (answered isError_welcome)
  | create =>
    rcases List.mem_append.1 hx with hx | hx
    · exact absurd hx relayed
    · exact absurd hx (answered isError_joinReplies)
  | join =>
    rcases List.mem_append.1 hx with hx | hx
    · exact absurd hx relayed
    · exact absurd hx (answered isError_joinReplies)
  | privmsgChannel => exact absurd hx relayed
  | privmsgUser => exact absurd (List.mem_singleton.1 hx) single
  | topic => exact absurd hx relayed
  | kick => exact absurd hx relayed
  | invite =>
    rcases List.mem_cons.1 hx with heq | hx
    · cases heq
      cases herror
    · exact absurd (List.mem_singleton.1 hx) single
  | mode _ _ _ _ _ _ hname => exact absurd hname hmode

namespace Server

variable {s s' : Server} {A : Fd} {line : Text}

/-- From `s` to `s'` the client on `A` is queued `reply`, or is to be disconnected when it has
no room for it.  Nothing else changes. -/
structure Answered (s s' : Server) (A : Fd) (reply : Line) : Prop where
  core : s'.core = s.core
  issuer : s.Queued s' A [reply]
  others : ∀ m, m ≠ A → s.Queued s' m [] ∧ s'.clients[m]? = s.clients[m]?
  client : s'.client A =
    if (s.client A).port.Fits reply.bytes then (s.client A).appendOutput reply.bytes
    else (s.client A).requestDisconnect "Exceeded Client OutputBuffer".toList

theorem Reachable.answered (h : Reachable s) (hs : s.Step (.line A line) s')
    (hmode : (Command.parse line).name ≠ "MODE".toList) (hflag : (s.client A).disconnectRequested = false) {actions : List Action}
    (hlog : s'.log = s.log ++ actions) {m : Fd} {reply : Line} {accepted : Bool}
    (hq : .queued m reply accepted ∈ actions) (herror : reply.isError = true) :
    m = A ∧ s.Answered s' A reply := by
  have hsource : ' ' ∉ (s.core.who A).source.render := by
    rw [← client_source]
    exact h.source A
  rcases h.spoken hs hlog hq with ⟨B, line', signals, heq, -, heffect, hx, hqueued⟩ | ⟨index, p, heq, -⟩
  swap
  · cases heq
  cases heq
  obtain ⟨hm, hcore, rfl⟩ := heffect.error hsource hmode hx herror
  have hissuer : s.Queued s' A [reply] := by
    have := hqueued A (by simp)
    rwa [linesFor, if_pos rfl] at this
  refine ⟨hm, hcore, hissuer, fun x hx => ?_, ?_⟩
  · have hother : s.Queued s' x [] := by
      have := hqueued x (by simp)
      rwa [linesFor, if_neg (Ne.symm hx)] at this
    refine ⟨hother, clients_ext (by rw [hcore]) (by rw [hcore]) ?_⟩
    rw [← port_client, ← port_client]
    exact hother.port
  · have hport := hissuer.port
    refine Client.ext_identity_port ?_ ?_
    · rw [identity_client, hcore, ← identity_client]
      split <;> rfl
    · rw [hport]
      show (s.client A).port.queue reply = _
      have hopen : ¬ (s.client A).port.disconnectRequested = true := by
        rw [show (s.client A).port.disconnectRequested = false from hflag]
        exact Bool.false_ne_true
      unfold Port.queue
      rw [if_neg hopen]
      split <;> rfl

/-- A line that `Command` rejects leaves its trace in the history, and nothing else. -/
theorem Step.malformed (hs : s.Step (.line A line) s') (hvalid : (Command.parse line).valid = false) :
    s' = s.record (.completeLine A line) := by
  unfold Step Server.step at hs
  dsimp only at hs
  split at hs
  · cases hs
    unfold handleCompleteLine
    dsimp only
    rw [hvalid]
    rfl
  · cases hs

/-- So does a MODE line whose mode string is rejected. -/
theorem Step.mode_rejected (hs : s.Step (.line A line) s') (h : s.core.Ok) {target : Text} {rest : List Text}
    {c : Channel} (hparse : Command.parse line = ⟨true, "MODE".toList, target :: rest⟩)
    (hc : s.findChannel target = some c) (hop : c.isMemberOperator A = true)
    (hreject : parseChannelModeChanges (target :: rest) = none) :
    s' = (s.record (.completeLine A line)).record (.dispatched A (Command.parse line)) := by
  have hreg := registered_of_member h hc (isMemberOperator_hasMember hop)
  have htarget := isChannelTarget_of_found h hc
  rw [hs.dispatched (by rw [hparse]), hparse, dispatchCommand_mode rfl]
  generalize ht : (s.record (.completeLine A line)).record (.dispatched A ⟨true, "MODE".toList, target :: rest⟩) = t
  have hclient : t.client A = s.client A := by rw [← ht]; rfl
  have hfound : t.findChannel target = some c := by rw [← ht]; exact hc
  unfold handleMode
  simp only [hclient, hreg, htarget, hfound, hop, hreject, Bool.not_true, Bool.false_eq_true, if_false]
  split <;> rfl

/-- **Errors change nothing.** -/
theorem errors_atomic (h : Reachable s) (hs : s.Step (.line A line) s') :
    ((Command.parse line).name ≠ "MODE".toList → (s.client A).disconnectRequested = false →
      ∀ actions m reply accepted, s'.log = s.log ++ actions → .queued m reply accepted ∈ actions →
        reply.isError = true → m = A ∧ s.Answered s' A reply) ∧
    ((Command.parse line).valid = false → s' = s.record (.completeLine A line)) ∧
    ∀ target rest c, Command.parse line = ⟨true, "MODE".toList, target :: rest⟩ →
      s.findChannel target = some c → c.isMemberOperator A = true →
      parseChannelModeChanges (target :: rest) = none →
      s' = (s.record (.completeLine A line)).record (.dispatched A (Command.parse line)) :=
  ⟨fun hmode hflag _ _ _ _ hlog hq herror => h.answered hs hmode hflag hlog hq herror, hs.malformed,
    fun _ _ _ hparse hc hop hreject => hs.mode_rejected h.ok hparse hc hop hreject⟩

/-- `bob`, on 4, invites somebody who is not there, sends a line without a name, and a `+k`
without a key. -/
theorem errors_atomic_session :
    (∃ s' reply, session.Step (.line 4 "INVITE eva #c".toList) s' ∧ session.Answered s' 4 reply) ∧
    (∃ s', session.Step (.line 4 ":bob".toList) s' ∧ s' = session.record (.completeLine 4 ":bob".toList)) ∧
    ∃ s', session.Step (.line 4 "MODE #c +k".toList) s' ∧
      s' = (session.record (.completeLine 4 "MODE #c +k".toList)).record
        (.dispatched 4 (Command.parse "MODE #c +k".toList)) := by
  have hview : (session.step (.line 4 "INVITE eva #c".toList)).map
        (fun s' => s'.log.drop (session.log.length + 2)) =
      some [.queued 4 (.numeric "401".toList "bob".toList
        (.text "eva :No such nick/channel".toList)) true] ∧
      (session.client 4).disconnectRequested = false ∧
      (session.step (.line 4 ":bob".toList)).isSome = true ∧
      (session.step (.line 4 "MODE #c +k".toList)).isSome = true ∧
      (session.findChannel "#c".toList).any (·.isMemberOperator 4) = true := by decide +kernel
  have hr := session_reachable
  generalize session = s at *
  obtain ⟨hview, hflag, hcolon, hmode, hop⟩ := hview
  refine ⟨?_, ?_, ?_⟩
  · obtain ⟨s', hs, hview⟩ := Option.map_eq_some_iff.1 hview
    obtain ⟨actions, hlog, hnews⟩ := hr.news hs 2
    have hq := hnews _ (hview ▸ List.mem_singleton_self _)
    exact ⟨s', _, hs, ((errors_atomic hr hs).1 (by decide) hflag actions 4 _ true hlog hq rfl).2⟩
  · obtain ⟨s', hs⟩ := Option.isSome_iff_exists.1 hcolon
    exact ⟨s', hs, (errors_atomic hr hs).2.1 (by decide)⟩
  · obtain ⟨s', hs⟩ := Option.isSome_iff_exists.1 hmode
    obtain ⟨c, hc, hop⟩ := (Option.any_eq_true _ _).1 hop
    exact ⟨s', hs, (errors_atomic hr hs).2.2 "#c".toList ["+k".toList] c (by decide) hc hop (by decide)⟩

end Server

end FtIrc
