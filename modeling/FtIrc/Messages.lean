import FtIrc.Naming
import FtIrc.Spellings

/-!
# Messages to a nickname

Whatever NICK accepts can be written to: a nickname is one word of a command line, no channel
target, and found under each of its spellings.
-/

namespace FtIrc

open Std

/-! ## Nicknames -/

theorem isChannelTarget_congr {left right : Text} (h : ircCaseFold left = ircCaseFold right) :
    Server.isChannelTarget left = Server.isChannelTarget right := by
  rw [← isChannelTarget_fold, h, isChannelTarget_fold]

theorem isChannelTarget_nickname {nickname : Text} (h : Server.isValidNickname nickname = true) :
    Server.isChannelTarget nickname = false := by
  unfold Server.isValidNickname at h
  split at h
  · cases h
  next first rest =>
  split at h
  · cases h
  next hfirst =>
  obtain ⟨hhash, hamp, -⟩ := not_or.1 hfirst |>.imp_right not_or.1
  simp [Server.isChannelTarget, hhash, hamp]

/-- What the spelling of a nickname has to survive. -/
structure Reaches (s : Server) (nickname : Text) (B : Fd) : Prop where
  middle : Middle nickname
  target : Server.isChannelTarget nickname = false
  found : s.findClientByNickname nickname = some B

namespace Server

variable {s : Server} {A B : Fd} {nickname text : Text}

/-- **Every spelling of a nickname reaches its holder.** -/
theorem reaches (hok : s.core.Ok) (hreg : (s.client B).registered = true)
    (hfold : ircCaseFold nickname = ircCaseFold (s.client B).nickname) : Reaches s nickname B := by
  rw [client_registered] at hreg
  rw [client_nickname] at hfold
  obtain ⟨-, hne, -⟩ := (hok.identity B).registered hreg
  have hvalid := (hok.identity B).nickname hne
  refine ⟨middle_congr hfold.symm (middle_nickname hvalid), ?_, ?_⟩
  · rw [isChannelTarget_congr hfold]
    exact isChannelTarget_nickname hvalid
  · rw [findClientByNickname_eq, holder_fold hfold, hok.holder_eq_some]
    exact Core.label_eq_some.2 ⟨hne, rfl⟩

/-! ## The line -/

theorem handlePrivmsg_nickname {command : Command} {targetName : Text} {rest : List Text}
    (hreg : (s.client A).registered = true) (hparams : command.parameters = targetName :: text :: rest)
    (h : Reaches s targetName B) :
    s.handlePrivmsg A command =
      s.queueLine B (.relay (s.client A).source (.privmsg (s.client B).nickname text)) := by
  unfold handlePrivmsg
  simp only [hreg, hparams, h.target, h.found, Bool.not_true, Bool.false_eq_true, if_false]

/-- A line there is room for. -/
theorem queueLine_of_room {line : Line} (hflag : (s.client B).disconnectRequested = false)
    (hroom : (s.client B).outputBuffer.length + line.bytes.length ≤ maxPendingOutput) :
    s.queueLine B line =
      { s with
        clients := s.clients.modify B (·.appendOutput line.bytes)
        pollFds := armPollout B s.pollFds
        log := s.log ++ [.queued B line true] } := by
  have hne : (line.render ++ "\r\n".toList).length ≠ 0 := bytes_length_pos line
  have hsize : ¬ ((line.render ++ "\r\n".toList).length > maxPendingOutput ∨
      (s.client B).getOutputSize > maxPendingOutput - (line.render ++ "\r\n".toList).length) := by
    unfold Line.bytes at hroom
    unfold Client.getOutputSize
    omega
  unfold queueLine queueRaw
  simp only [hflag, Bool.false_eq_true, if_false, if_neg hne, if_neg hsize]
  rfl

/-! ## The message -/

/-- What `b` gets when `a` writes to it. -/
def message (a b : Client) (text : Text) : Line := .relay a.source (.privmsg b.nickname text)

/-- **Every accepted nickname can be written to, under each of its spellings.**  The line is
queued to the holder of the nickname, with the text as its last parameter, and the state is the
same otherwise. -/
theorem private_message (h : Reachable s) {a b : Client} (ha : s.clients[A]? = some a)
    (hareg : a.registered = true) (hb : s.clients[B]? = some b) (hbreg : b.registered = true)
    (hfold : ircCaseFold nickname = ircCaseFold b.nickname) (text : Text)
    (hflag : b.disconnectRequested = false)
    (hroom : b.outputBuffer.length + (message a b text).bytes.length ≤ maxPendingOutput) :
    Command.parse ("PRIVMSG ".toList ++ nickname ++ " :".toList ++ text) =
      ⟨true, "PRIVMSG".toList, [nickname, text]⟩ ∧
    s.dispatchCommand A (Command.parse ("PRIVMSG ".toList ++ nickname ++ " :".toList ++ text)) =
      { s with
        clients := s.clients.modify B (·.appendOutput (message a b text).bytes)
        pollFds := armPollout B s.pollFds
        log := s.log ++ [.queued B (message a b text) true] } ∧
    (s.clients.modify B (·.appendOutput (message a b text).bytes))[B]? =
      some { b with outputBuffer := b.outputBuffer ++ (message a b text).bytes } ∧
    (∀ x, x ≠ B → (s.clients.modify B (·.appendOutput (message a b text).bytes))[x]? = s.clients[x]?) ∧
    (message a b text).render =
      ":".toList ++ a.source.render ++ " ".toList ++ (Relay.privmsg b.nickname text).render ∧
    ' ' ∉ a.source.render ∧
    Command.parse (Relay.privmsg b.nickname text).render =
      ⟨true, "PRIVMSG".toList, [b.nickname, text]⟩ := by
  obtain rfl := client_of_found ha
  obtain rfl := client_of_found hb
  have hreaches := reaches h.ok hbreg hfold
  have hparse : Command.parse ("PRIVMSG ".toList ++ nickname ++ " :".toList ++ text) =
      ⟨true, "PRIVMSG".toList, [nickname, text]⟩ :=
    parse_named (show Middle "PRIVMSG".toList by decide) (by decide) hreaches.middle text
  refine ⟨hparse, ?_, ?_, fun x hx => ?_, rfl, h.source A, ?_⟩
  · rw [hparse, dispatchCommand_privmsg rfl, handlePrivmsg_nickname hareg rfl hreaches]
    exact queueLine_of_room hflag hroom
  · rw [ExtTreeMap.getElem?_modify_self, hb]
    rfl
  · rw [ExtTreeMap.getElem?_modify, if_neg (by simpa using hx.symm)]
  · exact parse_named (show Middle "PRIVMSG".toList by decide) (by decide) (reaches h.ok hbreg rfl).middle text

/-- `bob`, on 4, writes to `al`, on 5, under another spelling. -/
theorem private_message_session :
    ∃ a b, session.clients[4]? = some a ∧ session.clients[5]? = some b ∧
      (session.dispatchCommand 4 (Command.parse "PRIVMSG AL ::) hi".toList)).log =
        session.log ++ [.queued 5 (message a b ":) hi".toList) true] ∧
      Command.parse (Relay.privmsg b.nickname ":) hi".toList).render =
        ⟨true, "PRIVMSG".toList, [b.nickname, ":) hi".toList]⟩ := by
  have hview : (session.clients[4]?).any (fun a => a.registered &&
      (session.clients[5]?).any fun b => b.registered && b.nickname == "al".toList && !b.disconnectRequested &&
        decide (b.outputBuffer.length + (message a b ":) hi".toList).bytes.length ≤ maxPendingOutput)) = true := by
    decide +kernel
  have hr := session_reachable
  generalize session = s at *
  obtain ⟨a, ha, hview⟩ := (Option.any_eq_true _ _).1 hview
  obtain ⟨hareg, hview⟩ := Bool.and_eq_true_iff.1 hview
  obtain ⟨b, hb, hview⟩ := (Option.any_eq_true _ _).1 hview
  simp only [Bool.and_eq_true, beq_iff_eq, Bool.not_eq_true', decide_eq_true_eq] at hview
  obtain ⟨⟨⟨hbreg, hnick⟩, hflag⟩, hroom⟩ := hview
  have hfold : ircCaseFold "AL".toList = ircCaseFold b.nickname := by rw [hnick]; decide
  obtain ⟨-, hstate, -, -, -, -, hlast⟩ := private_message hr ha hareg hb hbreg hfold _ hflag hroom
  exact ⟨a, b, ha, hb, congrArg Server.log hstate, hlast⟩

end Server

end FtIrc
