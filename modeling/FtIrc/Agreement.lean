import FtIrc.Relays
import FtIrc.Turns
import FtIrc.Messages
import FtIrc.Transcript

/-!
# The conversation of a channel

What happens in a channel is one sequence of lines, `Core.converse` over the inputs.  A member
that stays reads all of it in this order, but for its own messages, which are not sent back
(`Server.conversation_shared`): two members never disagree on what was said, or on the order.
-/

namespace FtIrc

open Std

/-! ## Lines about a channel -/

/-- The channel a relay is about.  A message to a nickname is about none. -/
def Relay.about : Relay → Option Text
  | .join channel => some channel
  | .privmsg target _ => if Server.isChannelTarget target then some target else none
  | .topic channel _ => some channel
  | .kick channel _ _ => some channel
  | .mode channel _ => some channel
  | _ => none

namespace Line

def isAbout (key : Text) : Line → Bool
  | .relay _ event => event.about.map ircCaseFold == some key
  | _ => false

def isMessage : Line → Bool
  | .relay _ (.privmsg ..) => true
  | _ => false

theorem isAbout_of_isReply {key : Text} {line : Line} (h : line.isReply = true) :
    line.isAbout key = false := by
  cases line <;> first | rfl | cases h

end Line

/-- What the client on `m` reads about the channel stored under `key`. -/
def remarks (key : Text) (m : Fd) (signals : List Signal) : List Line :=
  (linesFor m signals).filter (Line.isAbout key)

section Remarks

variable {key : Text} {m : Fd} {xs ys : List Signal} {fds : List Fd} {line : Line}

theorem remarks_append (key : Text) (m : Fd) (xs ys : List Signal) :
    remarks key m (xs ++ ys) = remarks key m xs ++ remarks key m ys := by
  unfold remarks
  rw [linesFor_append, List.filter_append]

theorem remarks_toAll (hnodup : fds.Nodup) (h : line.isAbout key = true → m ∈ fds) :
    remarks key m (toAll fds line) = [line].filter (Line.isAbout key) := by
  unfold remarks
  by_cases hm : m ∈ fds
  · rw [linesFor_toAll hnodup hm]
  · rw [linesFor_toAll_of_notMem hm, List.filter_cons_of_neg (fun hline => hm (h hline))]

theorem remarks_eq_nil (h : ∀ x ∈ xs, ∀ fd line, x = .line fd line → line.isAbout key = false) :
    remarks key m xs = [] := by
  refine List.filter_eq_nil_iff.2 fun line hline => ?_
  rw [h _ (mem_linesFor.1 hline) m line rfl]
  exact Bool.false_ne_true

theorem remarks_toAll_of_notMem (h : m ∉ fds) : remarks key m (toAll fds line) = [] := by
  unfold remarks
  rw [linesFor_toAll_of_notMem h, List.filter_nil]

theorem remarks_toAll_of_other (h : line.isAbout key = false) : remarks key m (toAll fds line) = [] :=
  remarks_eq_nil fun x hx fd words heq => by
    obtain ⟨_, _, rfl⟩ := List.mem_map.1 hx
    cases heq
    exact h

theorem remarks_line {fd : Fd} (h : line.isAbout key = false) : remarks key m [.line fd line] = [] :=
  remarks_eq_nil fun x hx fd words heq => by
    cases (List.mem_singleton.1 hx).symm.trans heq
    exact h

/-- A QUIT is about no channel. -/
theorem remarks_quitSignals (κ : Core) (fd : Fd) (reason : Text) :
    remarks key m (κ.quitSignals fd reason) = [] := by
  unfold Core.quitSignals
  split
  · exact remarks_toAll_of_other rfl
  · rfl

end Remarks

/-- Signals in which `A` and the issuer `fd` read the same about a channel, and no message. -/
structure Shared (key : Text) (A fd : Fd) (signals : List Signal) : Prop where
  same : remarks key A signals = remarks key fd signals
  wordless : ∀ line ∈ remarks key fd signals, line.isMessage = false

namespace Shared

variable {key : Text} {A fd : Fd} {xs ys : List Signal}

theorem silent (h : ∀ x ∈ xs, ∀ fd line, x = .line fd line → line.isAbout key = false) :
    Shared key A fd xs := by
  refine ⟨by rw [remarks_eq_nil h, remarks_eq_nil h], ?_⟩
  rw [remarks_eq_nil h]
  exact fun _ hline => absurd hline List.not_mem_nil

theorem nil : Shared key A fd [] := silent fun _ hx => absurd hx List.not_mem_nil

theorem append (h : Shared key A fd xs) (h' : Shared key A fd ys) : Shared key A fd (xs ++ ys) := by
  refine ⟨by rw [remarks_append, remarks_append, h.same, h'.same], fun line hline => ?_⟩
  rw [remarks_append] at hline
  rcases List.mem_append.1 hline with hline | hline
  · exact h.wordless line hline
  · exact h'.wordless line hline

/-- A relay that is no message, to all who are in the channel. -/
theorem toAll {fds : List Fd} (hnodup : fds.Nodup) {line : Line} (hline : line.isMessage = false)
    (h : line.isAbout key = true → A ∈ fds ∧ fd ∈ fds) : Shared key A fd (toAll fds line) := by
  refine ⟨?_, fun l hl => ?_⟩
  · rw [remarks_toAll hnodup fun ha => (h ha).1, remarks_toAll hnodup fun ha => (h ha).2]
  · rw [remarks_toAll hnodup fun ha => (h ha).2] at hl
    rw [List.mem_singleton.1 (List.mem_of_mem_filter hl)]
    exact hline

/-- Replies to the issuer. -/
theorem replies (h : ∀ x ∈ xs, ∃ line, x = .line fd line ∧ line.isRelay = false) :
    Shared key A fd xs := by
  refine silent fun x hx m line heq => ?_
  obtain ⟨line', heq', hnot⟩ := h x hx
  cases heq.symm.trans heq'
  cases line <;> first | rfl | cases hnot

end Shared

/-! ## Every command but PRIVMSG -/

theorem ModeRun.shared {κ κ' : Core} {fd A : Fd} {key target : Text} {changes : List ModeChange}
    {signals : List Signal} (h : ModeRun fd target κ changes κ' signals)
    (hc : ∀ c, κ.channels[target]? = some c →
      ircCaseFold c.name = target ∧ fd ∈ c.members ∧ (target = key → A ∈ c.members)) :
    Shared key A fd signals := by
  induction h with
  | nil => exact .nil
  | @refused _ _ _ _ signals line hreply _ ih =>
    have hrefused : Shared key A fd [.line fd line] := .silent fun x hx m l heq => by
      cases (List.mem_singleton.1 hx).symm.trans heq
      exact Line.isAbout_of_isReply hreply
    exact hrefused.append (ih hc)
  | unchanged _ ih => exact ih hc
  | @applied κ _ _ _ _ c c' hkc happ _ ih =>
    obtain ⟨hname, hfd, hA⟩ := hc c hkc
    have hmem (x : Fd) : x ∈ c'.members ↔ x ∈ c.members := happ.mem_members x
    refine Shared.append (.toAll ExtTreeMap.nodup_keys rfl fun habout => ?_) (ih fun d hd => ?_)
    · have hkey : target = key := by
        rw [← hname, ← happ.name.1]
        simpa [Line.isAbout, Relay.about] using habout
      rw [ExtTreeMap.mem_keys, ExtTreeMap.mem_keys, hmem, hmem]
      exact ⟨hA hkey, hfd⟩
    · rw [Core.getElem?_setChannel, if_pos rfl] at hd
      cases hd
      rw [happ.name.1, hmem, hmem]
      exact ⟨hname, hfd, hA⟩

theorem welcome_isRelay {κ : Core} {fd : Fd} :
    ∀ x ∈ κ.welcome fd, ∃ line, x = .line fd line ∧ line.isRelay = false := by
  intro x hx
  unfold Core.welcome at hx
  split at hx
  · simp only [List.mem_cons, List.not_mem_nil, or_false] at hx
    rcases hx with rfl | rfl
    · exact ⟨_, rfl, rfl⟩
    · exact ⟨_, rfl, rfl⟩
  · cases hx

/-- A member reads about its channel what the issuer of the command reads about it. -/
theorem Effect.shared {κ κ' : Core} {fd A : Fd} {command : Command} {key : Text} {c : Channel}
    {signals : List Signal} (he : Effect κ fd command κ' signals) (hok : κ.Ok)
    (hname : command.name ≠ "PRIVMSG".toList) (hc : κ.channels[key]? = some c) (hA : A ∈ c.members) :
    Shared key A fd signals := by
  have habout {name : Text} {source : Source} {event : Relay} (hevent : event.about = some name)
      (h : (Line.relay source event).isAbout key = true) : ircCaseFold name = key := by
    simpa [Line.isAbout, hevent] using h
  have hfound {name : Text} {d : Channel} (hd : κ.channels[ircCaseFold name]? = some d)
      (h : ircCaseFold name = key) : d = c := by
    rw [h, hc] at hd
    exact (Option.some.inj hd).symm
  cases he with
  | silent => exact .nil
  | reply line hreply =>
    refine .silent fun x hx m l heq => ?_
    cases (List.mem_singleton.1 hx).symm.trans heq
    exact Line.isAbout_of_isReply hreply
  | quit =>
    refine .silent fun x hx m l heq => ?_
    cases (List.mem_singleton.1 hx).symm.trans heq
  | pass => exact .replies welcome_isRelay
  | user => exact .replies welcome_isRelay
  | nick nickname rest recipients _ _ _ _ _ hnodup =>
    exact .append (.toAll hnodup rfl fun h => absurd h Bool.false_ne_true) (.replies welcome_isRelay)
  | create channelName rest _ _ _ _ hnone =>
    refine .append (.toAll ExtTreeMap.nodup_keys rfl fun h => ?_) (.replies Server.joinReplies_spec)
    have hkey : ircCaseFold channelName = key := habout (by rw [Server.addMember_name]; rfl) h
    rw [hkey, hc] at hnone
    cases hnone
  | join channelName rest d _ _ _ _ hd hnew =>
    refine .append (.toAll ExtTreeMap.nodup_keys rfl fun h => ?_) (.replies Server.joinReplies_spec)
    have hkey : ircCaseFold (d.addMember fd false).name = key := habout rfl h
    rw [Server.addMember_name, (hok.channel _ d hd).key] at hkey
    cases hfound hd hkey
    rw [ExtTreeMap.mem_keys, ExtTreeMap.mem_keys]
    show A ∈ (c.addMember fd false).members ∧ fd ∈ (c.addMember fd false).members
    rw [Channel.addMember_eq hnew]
    simp [ExtTreeMap.mem_insert, hA]
  | privmsgChannel _ _ _ _ hprivmsg => exact absurd hprivmsg hname
  | privmsgUser _ _ _ _ hprivmsg => exact absurd hprivmsg hname
  | topic channelName newTopic rest d _ _ _ hd hfd =>
    refine .toAll ExtTreeMap.nodup_keys rfl fun h => ?_
    cases hfound hd (habout rfl h)
    rw [ExtTreeMap.mem_keys, ExtTreeMap.mem_keys]
    exact ⟨hA, (Server.hasMember_iff c fd).1 hfd⟩
  | kick channelName targetNick rest d target _ _ _ hd hop =>
    refine .toAll ExtTreeMap.nodup_keys rfl fun h => ?_
    cases hfound hd (habout rfl h)
    rw [ExtTreeMap.mem_keys, ExtTreeMap.mem_keys]
    exact ⟨hA, (Server.hasMember_iff c fd).1 (Server.isMemberOperator_hasMember hop)⟩
  | invite =>
    refine .silent fun x hx m l heq => ?_
    simp only [List.mem_cons, List.not_mem_nil, or_false] at hx
    rcases hx with rfl | rfl <;> cases heq <;> rfl
  | mode target rest d changes κ' signals _ _ _ hd hop _ hrun =>
    refine hrun.shared fun d' hd' => ?_
    rw [hd] at hd'
    cases hd'
    refine ⟨(hok.channel _ d hd).key,
      (Server.hasMember_iff d fd).1 (Server.isMemberOperator_hasMember hop), fun hkey => ?_⟩
    cases hfound hd hkey
    exact hA

/-! ## PRIVMSG -/

/-- The message a PRIVMSG takes to the channel stored under `key`. -/
def Core.message (κ : Core) (key : Text) (fd : Fd) (command : Command) : List Line :=
  match command.parameters with
  | targetName :: text :: _ =>
    if (κ.who fd).registered = true ∧ Server.isChannelTarget targetName = true ∧
        ircCaseFold targetName = key ∧ (κ.channels[key]?).any (·.hasMember fd) = true then
      [.relay (κ.who fd).source (.privmsg targetName text)]
    else []
  | _ => []

/-- What is said about a channel in answer to an input, with the client that caused it.  But for
a message, the issuer is told itself. -/
def Core.converse (key : Text) (κ : Core) : Input → Core × List (Fd × Line)
  | .command fd command =>
    ((κ.dispatch fd command).1,
      (if command.name = "PRIVMSG".toList then κ.message key fd command
        else remarks key fd (κ.dispatch fd command).2).map (fd, ·))
  | i => ((κ.respond i).1, [])

/-- A message is not sent back to its sender. -/
def heardBy (A : Fd) (remark : Fd × Line) : Bool := !(remark.1 == A && remark.2.isMessage)

section Heard

variable {A fd : Fd} {lines : List Line}

theorem heard_all (h : ∀ line ∈ lines, heardBy A (fd, line) = true) :
    ((lines.map (fd, ·)).filter (heardBy A)).map Prod.snd = lines := by
  rw [List.filter_eq_self.2 (by simpa using h), List.map_map]
  exact List.map_id lines

theorem heard_none (h : ∀ line ∈ lines, heardBy A (fd, line) = false) :
    ((lines.map (fd, ·)).filter (heardBy A)).map Prod.snd = [] := by
  rw [List.filter_eq_nil_iff.2 (by simpa using h), List.map_nil]

end Heard

section Message

variable {κ : Core} {fd A : Fd} {command : Command} {key : Text}

theorem dispatch_privmsg (h : command.name = "PRIVMSG".toList) :
    κ.dispatch fd command = κ.handlePrivmsg fd command := by
  unfold Core.dispatch
  rw [h, if_neg (by decide), if_neg (by decide), if_neg (by decide), if_neg (by decide),
    if_neg (by decide), if_neg (by decide), if_pos rfl]

theorem remarks_refuse (m : Fd) (numeric text : Text) :
    remarks key m (κ.refuse fd numeric text).2 = [] := remarks_line rfl

/-- A message is read by all in the channel but its sender. -/
theorem remarks_privmsg (hok : κ.Ok) {c : Channel} (hc : κ.channels[key]? = some c) (hA : A ∈ c.members) :
    remarks key A (κ.handlePrivmsg fd command).2 =
      if A = fd then [] else κ.message key fd command := by
  unfold Core.handlePrivmsg Core.ifRegistered Core.message
  have hnothing {xs : List Signal} {lines : List Line} (hxs : remarks key A xs = []) (hlines : lines = []) :
      remarks key A xs = if A = fd then [] else lines := by
    rw [hxs, hlines]
    split <;> rfl
  split
  swap
  · next hreg =>
    refine hnothing (remarks_refuse _ _ _) ?_
    split
    · exact if_neg fun h => hreg h.1
    · rfl
  next hreg =>
  rcases command.parameters with _ | ⟨targetName, _ | ⟨text, rest⟩⟩
  · exact hnothing (remarks_refuse _ _ _) rfl
  · exact hnothing (remarks_refuse _ _ _) rfl
  dsimp only
  by_cases htarget : Server.isChannelTarget targetName = true
  swap
  · -- a nickname is the name of no channel
    rw [if_neg htarget]
    refine hnothing ?_ (if_neg fun h => htarget h.2.1)
    cases hholder : κ.holder targetName with
    | none => exact remarks_refuse _ _ _
    | some target =>
      have hnick : Server.isChannelTarget (κ.who target).nickname = false :=
        isChannelTarget_nickname ((hok.identity target).nickname
          (Core.label_eq_some.1 (hok.holder_eq_some.1 hholder)).1)
      exact remarks_line (by simp [Line.isAbout, Relay.about, hnick])
  rw [if_pos htarget]
  by_cases hkey : ircCaseFold targetName = key
  swap
  · refine hnothing ?_ (if_neg fun h => hkey h.2.2.1)
    cases hd : κ.channels[ircCaseFold targetName]? with
    | none => exact remarks_refuse _ _ _
    | some d =>
      dsimp only
      split
      · exact remarks_refuse _ _ _
      · exact remarks_toAll_of_other (by simp [Line.isAbout, Relay.about, htarget, hkey])
  subst hkey
  rw [hc]
  dsimp only
  cases hfd : c.hasMember fd with
  | false => exact hnothing (remarks_refuse _ _ _) (if_neg fun h => by simp [hfd] at h)
  | true =>
    by_cases hAfd : A = fd
    · rw [if_pos hAfd]
      exact remarks_toAll_of_notMem (by simp [hAfd])
    · rw [if_neg hAfd, if_neg (by decide : ¬ (!true) = true), if_pos ⟨hreg, htarget, rfl, hfd⟩]
      refine (remarks_toAll (ExtTreeMap.nodup_keys.filter _) fun _ => ?_).trans ?_
      · rw [List.mem_filter, ExtTreeMap.mem_keys]
        exact ⟨hA, by simpa using hAfd⟩
      · simp [Line.isAbout, Relay.about, htarget]

theorem message_isMessage : ∀ line ∈ κ.message key fd command, line.isMessage = true := by
  intro line hline
  unfold Core.message at hline
  split at hline
  · split at hline
    · rw [List.mem_singleton.1 hline]
      rfl
    · cases hline
  · cases hline

end Message

/-! ## Every command -/

/-- The lines for `m` among utterances. -/
def linesOf (m : Fd) : List Utterance → List Line
  | [] => []
  | .opened _ :: us => linesOf m us
  | .line fd words :: us => if fd = m then words :: linesOf m us else linesOf m us

theorem linesFor_eq (m : Fd) (signals : List Signal) :
    linesFor m signals = linesOf m (signals.filterMap Signal.utterance) := by
  induction signals with
  | nil => rfl
  | cons x signals ih =>
    cases x with
    | line fd words =>
      show (if fd = m then words :: linesFor m signals else linesFor m signals) = _
      rw [ih]
      rfl
    | disconnect => exact ih

/-- While its connection is not opened, the transcript of a client goes on. -/
theorem transcript_extend (us : List Utterance) {vs : List Utterance} {m : Fd} (h : .opened m ∉ vs) :
    transcript (us ++ vs) m = transcript us m ++ linesOf m vs := by
  rw [transcript_append]
  generalize transcript us m = lines
  induction vs generalizing lines with
  | nil => exact (List.append_nil _).symm
  | cons v vs ih =>
    rw [List.mem_cons, not_or] at h
    cases v with
    | opened fd =>
      have hfd : fd ≠ m := fun heq => h.1 (by rw [heq])
      rw [List.foldl_cons, hear, if_neg hfd, ih h.2]
      rfl
    | line fd words =>
      rw [List.foldl_cons, hear, linesOf]
      split
      · rw [ih h.2, List.append_assoc]
        rfl
      · exact ih h.2 _

namespace Server

variable {s s' : Server} {e : Event} {fd A : Fd} {key name : Text}

/-- What the machine says to a command is the effect of the command. -/
theorem dispatch_effect (hlive : s.core.MembersLive) (hfd : s.core.Live fd) (command : Command) :
    ∃ signals, Effect s.core fd command (s.core.dispatch fd command).1 signals ∧
      ∀ m, linesFor m signals = linesFor m (s.core.dispatch fd command).2 := by
  obtain ⟨signals, heffect, hwire⟩ := dispatchCommand_effect s fd command hlive hfd
  obtain ⟨hcore, hwire'⟩ := dispatchCommand_answers s fd command hlive hfd
  refine ⟨signals, hcore ▸ heffect, fun m => ?_⟩
  have hsaid := congrArg (fun w : Wire => utterances w.log) (hwire.symm.trans hwire')
  simp only [Wire.utterances_deliver] at hsaid
  rw [linesFor_eq, linesFor_eq, List.append_cancel_left hsaid]

/-- **A member reads what is said, but for its own messages.** -/
theorem remarks_dispatch (hok : s.core.Ok) (hfd : s.core.Live fd) (command : Command) {c : Channel}
    (hc : s.core.channels[key]? = some c) (hA : A ∈ c.members) :
    remarks key A (s.core.dispatch fd command).2 =
      ((s.core.converse key (.command fd command)).2.filter (heardBy A)).map Prod.snd := by
  unfold Core.converse
  dsimp only
  by_cases hname : command.name = "PRIVMSG".toList
  · rw [if_pos hname, dispatch_privmsg hname, remarks_privmsg hok hc hA]
    split
    · next hAfd =>
      refine (heard_none fun line hline => ?_).symm
      simp [heardBy, hAfd, message_isMessage line hline]
    · next hAfd =>
      refine (heard_all fun line _ => ?_).symm
      simp [heardBy, Ne.symm hAfd]
  · obtain ⟨signals, heffect, hlines⟩ := dispatch_effect hok.membersLive hfd command
    have hshared := heffect.shared hok hname hc hA
    have hremarks (m : Fd) : remarks key m (s.core.dispatch fd command).2 = remarks key m signals := by
      unfold remarks
      rw [hlines]
    rw [if_neg hname, hremarks, hremarks, hshared.same]
    refine (heard_all fun line hline => ?_).symm
    simp [heardBy, hshared.wordless line hline]

/-- A member whose disconnection is not requested. -/
def Attends (name : Text) (A : Fd) (s : Server) : Prop :=
  (s.client A).disconnectRequested = false ∧ ∃ c, s.findChannel name = some c ∧ A ∈ c.members

theorem Attends.live (h : s.Attends name A) (hok : s.core.Ok) : s.core.Live A := by
  obtain ⟨-, c, hc, hA⟩ := h
  exact hok.membersLive _ c hc A hA

/-- Who attends has been queued all it was told. -/
theorem Attends.stream (h : s.Attends name A) (hr : Reachable s) :
    stream s.log A = transcript (utterances s.log) A := by
  refine (hr.heeds (h.live hr.ok)).complete ?_
  rw [← client_disconnectRequested]
  exact h.1

theorem opened_notMem (signals : List Signal) (A : Fd) :
    .opened A ∉ signals.filterMap Signal.utterance := by
  intro hmem
  obtain ⟨x, -, hx⟩ := List.mem_filterMap.1 hmem
  cases x <;> cases hx

theorem opened_respond {κ : Core} {i : Input} (hfits : i.Fits κ) (hA : κ.Live A) :
    .opened A ∉ (κ.respond i).2 := by
  cases i with
  | connect fd =>
    intro hmem
    cases List.mem_singleton.1 hmem
    exact hfits hA
  | command => exact opened_notMem _ A
  | disconnect => exact opened_notMem _ A

/-- What is queued to who attends when the server takes an input. -/
theorem Takes.stream {i : Input} (h : s.Takes i s') (hr : Reachable s) (hs : s.Step e s')
    (hfits : i.Fits s.core) (hA : s.Attends name A) (hA' : s'.Attends name A) :
    stream s'.log A = stream s.log A ++ linesOf A (s.core.respond i).2 := by
  rw [hA'.stream (hr.step hs), hA.stream hr, h.utterances,
    transcript_extend _ (opened_respond hfits (hA.live hr.ok))]

theorem remarks_eq (key : Text) (m : Fd) (signals : List Signal) :
    (linesOf m (signals.filterMap Signal.utterance)).filter (Line.isAbout key) =
      remarks key m signals := by
  rw [← linesFor_eq]
  rfl

/-- Who attends reads the remarks on one input that it hears. -/
theorem Takes.converses {i : Input} (h : s.Takes i s') (hr : Reachable s) (hs : s.Step e s')
    (hfits : i.Fits s.core) (hA : s.Attends name A) (hA' : s'.Attends name A) :
    ∃ lines, FtIrc.stream s'.log A = FtIrc.stream s.log A ++ lines ∧
      lines.filter (Line.isAbout (ircCaseFold name)) =
        ((s.core.converse (ircCaseFold name) i).2.filter (heardBy A)).map Prod.snd := by
  refine ⟨_, h.stream hr hs hfits hA hA', ?_⟩
  cases i with
  | connect fd => rfl
  | command fd command =>
    obtain ⟨-, c, hc, hmem⟩ := hA
    exact (remarks_eq _ _ _).trans (remarks_dispatch hr.ok hfits command hc hmem)
  | disconnect fd reason => exact (remarks_eq _ _ _).trans (remarks_quitSignals _ _ _)

/-- **One step of the conversation.** -/
theorem Reachable.converses (hr : Reachable s) (hs : s.Step e s') (name : Text) :
    ∃ is, inputs s'.log = inputs s.log ++ is ∧
      s'.core = Machine.after (Core.converse (ircCaseFold name)) s.core is ∧
      ∀ A, s.Attends name A → s'.Attends name A → ∃ lines,
        FtIrc.stream s'.log A = FtIrc.stream s.log A ++ lines ∧
        lines.filter (Line.isAbout (ircCaseFold name)) =
          ((Machine.said (Core.converse (ircCaseFold name)) s.core is).filter (heardBy A)).map Prod.snd := by
  rcases hr.takes hs with hidle | ⟨i, hfits, htakes⟩
  · refine ⟨[], by rw [hidle.inputs, List.append_nil], hidle.core, fun A hA hA' => ⟨[], ?_, rfl⟩⟩
    rw [hA'.stream (hr.step hs), hA.stream hr, hidle.utterances, List.append_nil]
  · have hcore : (s.core.converse (ircCaseFold name) i).1 = (s.core.respond i).1 := by cases i <;> rfl
    have hsaid : Machine.said (Core.converse (ircCaseFold name)) s.core [i] =
        (s.core.converse (ircCaseFold name) i).2 := List.append_nil _
    refine ⟨[i], htakes.inputs, htakes.core.trans hcore.symm, fun A hA hA' => ?_⟩
    rw [hsaid]
    exact htakes.converses hr hs hfits hA hA'

/-- **One conversation.**  In any run, what happens in a channel is one sequence of lines, each with
the client that caused it, and it follows from the inputs.  All members that stay throughout are
queued just that sequence about the channel, in that order, without their own messages. -/
theorem conversation_shared (hr : Reachable s) {S : Set Fd} {es : List Event}
    (hrun : Transition.Run (Transition.Within Step fun t => ∀ A ∈ S, t.Attends name A) s es s') :
    ∃ is, inputs s'.log = inputs s.log ++ is ∧
      s'.core = Machine.after (Core.converse (ircCaseFold name)) s.core is ∧
      ∀ A ∈ S, ∃ lines, FtIrc.stream s'.log A = FtIrc.stream s.log A ++ lines ∧
        lines.filter (Line.isAbout (ircCaseFold name)) =
          ((Machine.said (Core.converse (ircCaseFold name)) s.core is).filter (heardBy A)).map Prod.snd := by
  induction hrun with
  | nil => exact ⟨[], (List.append_nil _).symm, rfl, fun A _ => ⟨[], (List.append_nil _).symm, rfl⟩⟩
  | @snoc es s₁ e s₂ hrun hs ih =>
    obtain ⟨is, hinputs, hcore, hheard⟩ := ih
    obtain ⟨hs, hattend, hattend'⟩ := hs
    have hr₁ : Reachable s₁ := hr.run (hrun.mono fun _ _ _ h => h.1).reachable
    obtain ⟨js, hinputs', hcore', hheard'⟩ := hr₁.converses hs name
    refine ⟨is ++ js, by rw [hinputs', hinputs, List.append_assoc], ?_, fun A hA => ?_⟩
    · rw [hcore', hcore, Machine.after_append]
    · obtain ⟨xs, hxs, habout⟩ := hheard A hA
      obtain ⟨ys, hys, habout'⟩ := hheard' A (hattend A hA) (hattend' A hA)
      refine ⟨xs ++ ys, by rw [hys, hxs, List.append_assoc], ?_⟩
      rw [List.filter_append, habout, habout', hcore, Machine.said_append, List.filter_append,
        List.map_append]

/-- Whether the clients on `fds` attend, evaluated. -/
def attendance (name : Text) (fds : List Fd) (s : Server) : Bool :=
  fds.all fun A => !(s.client A).disconnectRequested && (s.findChannel name).any (·.hasMember A)

theorem attends_of_attendance {fds : List Fd} (h : s.attendance name fds = true) :
    ∀ A ∈ {A | A ∈ fds}, s.Attends name A := by
  intro A hA
  have hboth := Bool.and_eq_true_iff.1 (List.all_eq_true.1 h A hA)
  obtain ⟨c, hc, hmem⟩ := (Option.any_eq_true _ _).1 hboth.2
  exact ⟨by simpa using hboth.1, c, hc, (hasMember_iff c A).1 hmem⟩

theorem conversation_shared_session :
    ∃ s s' is, session.Step (.line 5 "JOIN #C".toList) s ∧ s.Step (.line 4 "PRIVMSG #c :hi".toList) s' ∧
      inputs s'.log = inputs s.log ++ is ∧
      ∃ lines, stream s'.log 5 = stream s.log 5 ++ lines ∧
        lines.filter (Line.isAbout (ircCaseFold "#c".toList)) =
          ((Machine.said (Core.converse (ircCaseFold "#c".toList)) s.core is).filter
            (heardBy 5)).map Prod.snd := by
  have hview : ((session.step (.line 5 "JOIN #C".toList)).bind fun s =>
      (s.step (.line 4 "PRIVMSG #c :hi".toList)).map fun s' =>
        (s.attendance "#c".toList [4, 5], s'.attendance "#c".toList [4, 5])) = some (true, true) := by
    decide +kernel
  have hr := session_reachable
  generalize session = s₀ at *
  obtain ⟨s, hs, hview⟩ := Option.bind_eq_some_iff.1 hview
  obtain ⟨s', hs', hview⟩ := Option.map_eq_some_iff.1 hview
  rw [Prod.mk.injEq] at hview
  obtain ⟨is, hinputs, -, hheard⟩ := conversation_shared (hr.step hs)
    (Transition.Run.single ⟨hs', attends_of_attendance hview.1, attends_of_attendance hview.2⟩)
  exact ⟨s, s', is, hs, hs', hinputs, hheard 5 (by simp)⟩

end Server

end FtIrc
