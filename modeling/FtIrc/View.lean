import FtIrc.Sources
import FtIrc.Invitations
import FtIrc.Lib.Roster

/-!
# What a member can tell of its channel

A client that reads its lines in order can keep the roster of a channel: the list of names
it was sent when it joined, and every JOIN, KICK, QUIT, NICK and MODE relayed to it since.
That roster is the server's, as long as no line to the client was lost.
-/

namespace FtIrc

open Std

/-- The folded nicknames of a channel's members, each with its operator flag. -/
abbrev Roster := Finset (Text × Bool)

/-- What one line tells about the channel under `key`.  There is no roster before the first
list of names. -/
def readLine (key : Text) (roster : Option Roster) : Line → Option Roster
  | .numeric _ _ (.names channel members) =>
    if ircCaseFold channel = key then
      some (members.map fun m => (ircCaseFold m.2, m.1)).toFinset
    else roster
  | .relay source (.join channel) =>
    if ircCaseFold channel = key then
      roster.map (insert (ircCaseFold source.nickname, false))
    else roster
  | .relay _ (.kick channel nickname _) =>
    if ircCaseFold channel = key then roster.map (Roster.leave (ircCaseFold nickname)) else roster
  | .relay source (.quit _) => roster.map (Roster.leave (ircCaseFold source.nickname))
  | .relay source (.nick nickname) =>
    roster.map (Roster.rename (ircCaseFold source.nickname) (ircCaseFold nickname))
  | .relay _ (.mode channel change) =>
    if ircCaseFold channel = key ∧ change.mode = 'o' then
      roster.map (Roster.setFlag (ircCaseFold change.argument) change.adding)
    else roster
  | _ => roster

/-- The roster of the channel under `key`, to a reader of `lines`. -/
def view (key : Text) (lines : List Line) : Option Roster := lines.foldl (readLine key) none

theorem view_append (key : Text) (lines more : List Line) :
    view key (lines ++ more) = more.foldl (readLine key) (view key lines) := List.foldl_append

namespace Core

variable {κ κ' : Core} {A m : Fd} {key : Text} {c c' : Channel} {lines : List Line}

/-- The name a client has in rosters. -/
def rosterName (κ : Core) (x : Fd) : Text := ircCaseFold (κ.who x).nickname

/-- A reader of `lines` knows the roster of `c`, the channel under `key`. -/
def Sees (κ : Core) (key : Text) (c : Channel) (lines : List Line) : Prop :=
  ∃ roster, view key lines = some roster ∧
    Roster.Represents roster (fun x => c.members[x]?) κ.rosterName

/-- A line that says nothing about the channel under `key`. -/
def Silent (key : Text) (line : Line) : Prop := ∀ roster, readLine key roster line = roster

theorem view_silent {more : List Line} (h : ∀ line ∈ more, Silent key line) :
    view key (lines ++ more) = view key lines := by
  rw [view_append]
  generalize view key lines = roster
  induction more with
  | nil => rfl
  | cons line more ih =>
    rw [List.foldl_cons, h line List.mem_cons_self]
    exact ih fun l hl => h l (List.mem_cons_of_mem _ hl)

theorem Sees.silent (h : κ.Sees key c lines) {more : List Line}
    (hmore : ∀ line ∈ more, Silent key line) : κ.Sees key c (lines ++ more) := by
  obtain ⟨roster, hview, hrep⟩ := h
  exact ⟨roster, by rw [view_silent hmore, hview], hrep⟩

theorem mem_of_flag {x : Fd} {f : Bool} (h : c.members[x]? = some f) : x ∈ c.members := by
  rw [ExtTreeMap.mem_iff_isSome_getElem?, h]
  rfl

/-- The members and their names stay. -/
theorem Sees.congr (h : κ.Sees key c lines) (hmembers : c'.members = c.members)
    (hname : ∀ x, x ∈ c.members → κ'.rosterName x = κ.rosterName x) :
    κ'.Sees key c' lines := by
  obtain ⟨roster, hview, hrep⟩ := h
  refine ⟨roster, hview, ?_⟩
  rw [hmembers]
  exact hrep.congr fun x f hx => hname x (mem_of_flag hx)

/-- No two members, and nobody else, have one name. -/
theorem sole (hok : κ.Ok) (hc : κ.ChannelOk key c) (a : Fd) :
    Roster.Sole (fun x => c.members[x]?) κ.rosterName a := by
  intro x f hx hname
  have hmem : x ∈ c.members := mem_of_flag hx
  have hnick := ((hok.identity x).registered (hc.members x hmem)).2.1
  have hx := label_eq_some.2 ⟨hnick, rfl⟩
  have ha : (κ.who a).nickname ≠ [] := by
    intro h
    unfold rosterName at hname
    rw [h] at hname
    exact hnick (ircCaseFold_eq_nil.1 hname)
  exact hok.index.injective hx (label_eq_some.2 ⟨ha, hname.symm⟩)

/-! ## The lines that tell of the channel -/

theorem snapshot_represents (κ : Core) (c : Channel) :
    Roster.Represents ((κ.namesOf c).map fun m => (ircCaseFold m.2, m.1)).toFinset
      (fun x => c.members[x]?) κ.rosterName := by
  intro n f
  unfold namesOf
  simp only [List.map_map, List.mem_toFinset, List.mem_map, Function.comp_apply, Prod.mk.injEq]
  constructor
  · rintro ⟨p, hp, rfl, rfl⟩
    exact ⟨p.1, ExtTreeMap.mem_toList_iff_getElem?_eq_some.1 hp, rfl⟩
  · rintro ⟨x, hx, rfl⟩
    exact ⟨(x, f), ExtTreeMap.mem_toList_iff_getElem?_eq_some.2 hx, rfl, rfl⟩

theorem silent_reply {line : Line} (h : line.isReply = true) : Silent key line := by
  intro roster
  cases line with
  | numeric _ _ arguments =>
    cases arguments with
    | text => rfl
    | names => cases h
  | relay => cases h
  | plain => rfl

end Core

/-! ## Lines for one client -/

theorem linesFor_replies {A m : Fd} {key : Text} {signals : List Signal}
    (h : ∀ x ∈ signals, ∃ line, x = .line A line ∧ Core.Silent key line) :
    ∀ line ∈ linesFor m signals, Core.Silent key line := by
  induction signals with
  | nil => nofun
  | cons x signals ih =>
    obtain ⟨line, rfl, hline⟩ := h x List.mem_cons_self
    have ih := ih fun y hy => h y (List.mem_cons_of_mem _ hy)
    intro l hl
    rw [linesFor] at hl
    split at hl
    · rcases List.mem_cons.1 hl with rfl | hl
      · exact hline
      · exact ih l hl
    · exact ih l hl

theorem nodup_keys (members : MemberMap) : members.keys.Nodup := ExtTreeMap.nodup_keys

/-- A relay to all members reaches a member once. -/
theorem linesFor_members {m : Fd} {c : Channel} (h : m ∈ c.members) (line : Line) :
    linesFor m (toAll c.members.keys line) = [line] :=
  linesFor_toAll (nodup_keys _) (ExtTreeMap.mem_keys.2 h) line

theorem linesFor_silent {m : Fd} {key : Text} {fds : List Fd} {line : Line}
    (h : Core.Silent key line) : ∀ l ∈ linesFor m (toAll fds line), Core.Silent key l := by
  induction fds with
  | nil => nofun
  | cons fd fds ih =>
    intro l hl
    rw [toAll_cons, linesFor] at hl
    split at hl
    · rcases List.mem_cons.1 hl with rfl | hl
      · exact h
      · exact ih l hl
    · exact ih l hl

theorem silent_welcome {κ : Core} {A : Fd} {key : Text} {x : Signal} (h : x ∈ κ.welcome A) :
    ∃ line, x = .line A line ∧ Core.Silent key line := by
  unfold Core.welcome at h
  split at h
  · simp only [List.mem_cons, List.not_mem_nil, or_false] at h
    rcases h with rfl | rfl
    · exact ⟨_, rfl, Core.silent_reply rfl⟩
    · exact ⟨_, rfl, Core.silent_reply rfl⟩
  · cases h

/-! ## What each command does to a view -/

namespace Core

variable {κ κ' : Core} {A m : Fd} {key : Text} {c c' : Channel} {lines : List Line}

theorem rosterName_modify {f : Identity → Identity} (hf : ∀ id, (f id).nickname = id.nickname)
    (x : Fd) : (κ.modify A f).rosterName x = κ.rosterName x :=
  congrArg ircCaseFold (who_modify_field κ A (g := Identity.nickname) hf x)

theorem rosterName_complete (x : Fd) : (κ.complete A).rosterName x = κ.rosterName x :=
  congrArg ircCaseFold (nickname_complete x)

theorem rosterName_rename (hlive : κ.Live A) (nickname : Text) (x : Fd) :
    (κ.rename A nickname).rosterName x =
      if A = x then ircCaseFold nickname else κ.rosterName x := by
  unfold rosterName
  rw [who_rename]
  split
  · next hx => subst hx; rw [who_modify_self κ A hlive]
  · next hx => rw [who_modify_of_ne κ A hx]

/-- A NICK relay, to a member of a channel that may or may not have the renamed client. -/
theorem Sees.nick (h : κ.Sees key c lines) (hok : κ.Ok) (hc : κ.ChannelOk key c)
    (hlive : κ.Live A) (nickname : Text) (hmembers : c'.members = c.members) :
    (κ.rename A nickname).Sees key c'
      (lines ++ [.relay (κ.who A).source (.nick nickname)]) := by
  obtain ⟨roster, hview, hrep⟩ := h
  refine ⟨_, by rw [view_append, hview]; rfl, ?_⟩
  rw [hmembers]
  exact hrep.rename (sole hok hc A) (rosterName_rename hlive nickname)

/-- A JOIN relay, to a member that was there. -/
theorem Sees.join (h : κ.Sees key c lines) (hc : κ.ChannelOk key c) (hmem : c.hasMember A = false)
    (hmembers : c'.members = c.members.insert A false) :
    κ.Sees key c' (lines ++ [.relay (κ.who A).source (.join c.name)]) := by
  obtain ⟨roster, hview, hrep⟩ := h
  refine ⟨_, by rw [view_append, hview]; exact if_pos hc.key, ?_⟩
  rw [hmembers]
  refine hrep.join ?_ ?_
  · show c.members[A]? = none
    rw [ExtTreeMap.getElem?_eq_none]
    intro hA
    rw [(Server.hasMember_iff c A).2 hA] at hmem
    cases hmem
  · intro x
    show (c.members.insert A false)[x]? = _
    rw [ExtTreeMap.getElem?_insert]
    simp only [Std.compare_eq_iff_eq]

/-- A KICK or QUIT relay. -/
theorem Sees.leave (h : κ.Sees key c lines) (hok : κ.Ok) (hc : κ.ChannelOk key c) {target : Fd}
    {line : Line} (hline : ∀ roster, readLine key (some roster) line =
      some (Roster.leave (κ.rosterName target) roster))
    (hmembers : c'.members = c.members.erase target)
    (hname : ∀ x ∈ c'.members, κ'.rosterName x = κ.rosterName x) :
    κ'.Sees key c' (lines ++ [line]) := by
  obtain ⟨roster, hview, hrep⟩ := h
  refine ⟨_, by rw [view_append, hview]; exact hline roster, ?_⟩
  have hflags : ∀ x, c'.members[x]? = if target = x then none else c.members[x]? := by
    intro x
    rw [hmembers, ExtTreeMap.getElem?_erase]
    simp only [Std.compare_eq_iff_eq]
  exact (hrep.leave (sole hok hc target) hflags).congr fun x f hx => hname x (mem_of_flag hx)

/-- What the client that joins reads ends in the list of names. -/
theorem Sees.names (hkey : ircCaseFold c.name = key) (hmem : A ∈ c.members) :
    κ.Sees key c (lines ++ linesFor A (κ.joinSignals A c)) := by
  refine ⟨_, ?_, snapshot_represents κ c⟩
  unfold joinSignals joinReplies
  rw [linesFor_append, linesFor_members hmem, ← List.append_assoc, view_append]
  simp only [linesFor, if_true, List.foldl_cons, List.foldl_nil]
  show readLine key _ (.numeric "353".toList (κ.replyTarget A) (.names c.name (κ.namesOf c))) = _
  exact if_pos hkey

/-- The lines of a JOIN elsewhere. -/
theorem silent_joinSignals (hkey : ircCaseFold c.name ≠ key) :
    ∀ line ∈ linesFor m (κ.joinSignals A c), Silent key line := by
  intro line hline
  have hjoin : Silent key (.relay (κ.who A).source (.join c.name)) := fun roster => if_neg hkey
  unfold joinSignals at hline
  rw [linesFor_append, List.mem_append] at hline
  rcases hline with hline | hline
  · exact linesFor_silent hjoin line hline
  · refine linesFor_replies (A := A) ?_ line hline
    intro x hx
    simp only [joinReplies, List.mem_cons, List.not_mem_nil, or_false] at hx
    rcases hx with rfl | rfl | rfl
    · refine ⟨_, rfl, ?_⟩
      split <;> exact silent_reply rfl
    · exact ⟨_, rfl, fun roster => if_neg hkey⟩
    · exact ⟨_, rfl, silent_reply rfl⟩

end Core

/-! ## MODE -/

/-- A MODE relay, for the change that was applied. -/
theorem ModeApplied.sees {κ : Core} {key : Text} {change : ModeChange} {c c' : Channel}
    {lines : List Line} {source : Source} (h : ModeApplied κ change c c') (hok : κ.Ok)
    (hc : κ.ChannelOk key c) (hsees : κ.Sees key c lines) :
    κ.Sees key c' (lines ++ [.relay source (.mode c'.name change)]) := by
  have hname : ircCaseFold c'.name = key := (hc.mode h).key
  have hother (hmode : change.mode ≠ 'o') (hmembers : c'.members = c.members) :
      κ.Sees key c' (lines ++ [.relay source (.mode c'.name change)]) := by
    refine (hsees.congr hmembers fun _ _ => rfl).silent ?_
    intro line hline
    cases List.mem_singleton.1 hline
    exact fun roster => if_neg fun hand => hmode hand.2
  cases h with
  | inviteOnly hmode => exact hother (by rw [hmode]; decide) rfl
  | topicRestricted hmode => exact hother (by rw [hmode]; decide) rfl
  | setKey hmode => exact hother (by rw [hmode]; decide) rfl
  | removeKey hmode => exact hother (by rw [hmode]; decide) rfl
  | setUserLimit _ hmode => exact hother (by rw [hmode]; decide) rfl
  | removeUserLimit hmode => exact hother (by rw [hmode]; decide) rfl
  | setOperator target hmode hholder hmem =>
    have hset : c.setMemberOperator target change.adding =
        { c with members := c.members.insert target change.adding } := if_pos hmem
    obtain ⟨roster, hview, hrep⟩ := hsees
    have hlabel := Core.label_eq_some.1 (hok.holder_eq_some.1 hholder)
    have hread : readLine key (some roster)
        (.relay source (.mode (c.setMemberOperator target change.adding).name change)) =
        some (Roster.setFlag (κ.rosterName target) change.adding roster) := by
      unfold Core.rosterName
      rw [hlabel.2]
      exact if_pos ⟨hname, hmode⟩
    refine ⟨_, by rw [view_append, hview]; exact hread, ?_⟩
    refine hrep.setFlag (Core.sole hok hc target) ?_ ?_
    · exact Option.isSome_iff_ne_none.1
        (ExtTreeMap.mem_iff_isSome_getElem?.1 ((Server.hasMember_iff c target).1 hmem))
    · intro x
      rw [hset]
      show (c.members.insert target change.adding)[x]? = _
      rw [ExtTreeMap.getElem?_insert]
      simp only [Std.compare_eq_iff_eq]

theorem ModeRun.sees {κ κ' : Core} {A m : Fd} {key₀ key : Text} {changes : List ModeChange}
    {signals : List Signal} (h : ModeRun A key₀ κ changes κ' signals) (hok : κ.Ok)
    {c c' : Channel} {lines : List Line} (hc : κ.channels[key]? = some c)
    (hc' : κ'.channels[key]? = some c') (hm : m ∈ c.members) (hsees : κ.Sees key c lines) :
    κ'.Sees key c' (lines ++ linesFor m signals) := by
  induction h generalizing c lines with
  | nil =>
    rw [hc] at hc'
    cases hc'
    exact hsees.silent nofun
  | @refused _ _ _ _ signals line hreply _ ih =>
    have hline : ∀ l ∈ linesFor m [.line A line], Core.Silent key l :=
      linesFor_replies (A := A) fun x hx =>
        ⟨line, List.mem_singleton.1 hx, Core.silent_reply hreply⟩
    have := ih hok hc hc' hm (hsees.silent hline)
    rw [List.append_assoc, ← linesFor_append] at this
    exact this
  | unchanged _ ih => exact ih hok hc hc' hm hsees
  | @applied κ _ change _ signals c₀ c₁ hc₀ hmode _ ih =>
    have hc₀ok := hok.channel _ c₀ hc₀
    rw [linesFor_append, ← List.append_assoc]
    refine ih (hok.setChannel (hc₀ok.mode hmode)) (c := if key₀ = key then c₁ else c) ?_ hc' ?_ ?_
    · rw [Core.getElem?_setChannel]
      split
      · rfl
      · exact hc
    · split
      · next hk =>
        subst hk
        rw [hc₀] at hc
        cases hc
        exact (hmode.mem_members m).2 hm
      · exact hm
    · split
      · next hk =>
        subst hk
        rw [hc₀] at hc
        cases hc
        rw [linesFor_members ((hmode.mem_members m).2 hm)]
        exact hmode.sees hok hc₀ok hsees
      · next hk =>
        refine hsees.silent (linesFor_silent fun roster => if_neg ?_)
        rintro ⟨hname, -⟩
        exact hk ((hc₀ok.mode hmode).key.symm.trans hname)

/-! ## Every command -/

namespace Core

variable {κ κ' : Core} {A m : Fd} {key key₀ : Text} {c c₀ : Channel} {lines more : List Line}

/-- While `m` is on the channel under `key`, a reader of `lines` knows its roster. -/
def Informs (κ : Core) (key : Text) (m : Fd) (lines : List Line) : Prop :=
  ∀ c, κ.channels[key]? = some c → m ∈ c.members → κ.Sees key c lines

/-- A command that changes no channel and no nickname, and relays nothing about members. -/
theorem Informs.silent (h : κ.Informs key m lines) (hchannels : κ'.channels = κ.channels)
    (hname : ∀ x, κ'.rosterName x = κ.rosterName x) (hmore : ∀ line ∈ more, Silent key line) :
    κ'.Informs key m (lines ++ more) := by
  intro c hc hm
  rw [hchannels] at hc
  exact ((h c hc hm).congr rfl fun x _ => hname x).silent hmore

/-- One channel changes: the others keep their rosters. -/
theorem Informs.setChannel (h : κ.Informs key m lines)
    (hthis : key₀ = key → m ∈ c₀.members → κ.Sees key c₀ (lines ++ more))
    (hother : key₀ ≠ key → ∀ line ∈ more, Silent key line) :
    (κ.setChannel key₀ c₀).Informs key m (lines ++ more) := by
  intro c hc hm
  rw [getElem?_setChannel] at hc
  split at hc
  · next hk =>
    cases hc
    exact hthis hk hm
  · next hk => exact (h c hc hm).silent (hother hk)

/-- One channel changes, but not its members. -/
theorem Informs.setChannel_silent (h : κ.Informs key m lines) (hc : κ.channels[key₀]? = some c)
    (hmembers : c₀.members = c.members) (hmore : ∀ line ∈ more, Silent key line) :
    (κ.setChannel key₀ c₀).Informs key m (lines ++ more) := by
  refine h.setChannel (fun hk hm => ?_) fun _ => hmore
  subst hk
  rw [hmembers] at hm
  exact ((h c hc hm).congr hmembers fun _ _ => rfl).silent hmore

/-- NICK, relayed to those that share a channel with the renamed client. -/
theorem Informs.nick (h : κ.Informs key m lines) (hok : κ.Ok) (hlive : κ.Live A) {nickname : Text}
    {recipients : List Fd} (hnodup : recipients.Nodup)
    (hrec : ∀ x, x ∈ recipients ↔ (κ.who A).registered = true ∧ (κ.who A).nickname ≠ [] ∧
      (x = A ∨ κ.Peers A x)) :
    (κ.rename A nickname).Informs key m
      (lines ++ linesFor m (toAll recipients (.relay (κ.who A).source (.nick nickname)))) := by
  intro c' hc' hm
  rw [getElem?_rename] at hc'
  obtain ⟨c, hc, rfl⟩ := Option.map_eq_some_iff.1 hc'
  have hmembers : (if (κ.who A).nickname = [] then c
      else Server.renameInvite (κ.who A).nickname nickname c).members = c.members := by
    split
    · rfl
    · rw [renameInvite_kept]
  rw [hmembers] at hm
  have hcok := hok.channel key c hc
  have hsees := h c hc hm
  by_cases hmem : m ∈ recipients
  · rw [linesFor_toAll hnodup hmem]
    exact hsees.nick hok hcok hlive nickname hmembers
  · -- a member that is not told does not share the channel with the renamed client
    rw [linesFor_toAll_of_notMem hmem, List.append_nil]
    refine hsees.congr hmembers fun x hx => ?_
    rw [rosterName_rename hlive, if_neg]
    rintro rfl
    have hreg := hcok.members A hx
    exact hmem ((hrec m).2 ⟨hreg, ((hok.identity A).registered hreg).2.1,
      Or.inr ⟨key, c, hc, hx, hm⟩⟩)

theorem Informs.complete (h : κ.Informs key m lines) (hmore : ∀ line ∈ more, Silent key line) :
    (κ.complete A).Informs key m (lines ++ more) :=
  h.silent channels_complete rosterName_complete hmore

/-- JOIN of a channel that was not there: its creator is its only member. -/
theorem Informs.create (h : κ.Informs key m lines) (channelName : Text) :
    (κ.setChannel (ircCaseFold channelName)
      (({ name := channelName } : Channel).addMember A true)).Informs key m
      (lines ++ linesFor m (κ.joinSignals A (({ name := channelName } : Channel).addMember A true)))
    := by
  refine h.setChannel (fun hk hm => ?_) fun hk => silent_joinSignals hk
  have hA : m = A := by
    rcases Server.mem_addMember hm with rfl | hm
    · rfl
    · exact absurd hm ExtTreeMap.not_mem_empty
  subst hA
  exact Sees.names hk hm

/-- What a member that was there reads of a JOIN. -/
theorem linesFor_joinSignals_of_ne (hm : m ∈ c.members) (hA : m ≠ A) :
    linesFor m (κ.joinSignals A c) = [.relay (κ.who A).source (.join c.name)] := by
  have hnone : linesFor m (κ.joinReplies A c) = [] := by
    simp only [joinReplies, linesFor, if_neg (Ne.symm hA)]
  unfold joinSignals
  rw [linesFor_append, linesFor_members hm, hnone, List.append_nil]

/-- JOIN of a channel that was there. -/
theorem Informs.join (h : κ.Informs key m lines) (hok : κ.Ok) (hc : κ.channels[key₀]? = some c)
    (hmem : c.hasMember A = false) (nickname : Text) :
    (κ.setChannel key₀ ((c.addMember A false).removeInvite nickname)).Informs key m
      (lines ++ linesFor m (κ.joinSignals A ((c.addMember A false).removeInvite nickname))) := by
  have hcok := hok.channel key₀ c hc
  have hname : ((c.addMember A false).removeInvite nickname).name = c.name := by
    rw [Channel.addMember_eq hmem]
    rfl
  refine h.setChannel (fun hk hm => ?_) fun hk => silent_joinSignals ?_
  · subst hk
    by_cases hA : m = A
    · subst hA
      exact Sees.names (by rw [hname]; exact hcok.key) hm
    · have hold : m ∈ c.members := ((Server.joined_spec _ hmem).2.2.2 m).1 hm |>.resolve_left hA
      rw [linesFor_joinSignals_of_ne hm hA, hname]
      refine (h c hc hold).join hcok hmem ?_
      rw [Channel.addMember_eq hmem]
      rfl
  · rw [hname, hcok.key]
    exact hk

/-- KICK, relayed to all who were members. -/
theorem Informs.kick (h : κ.Informs key m lines) (hok : κ.Ok) {channelName targetNick : Text}
    {target : Fd} (hc : κ.channels[ircCaseFold channelName]? = some c)
    (hholder : κ.holder targetNick = some target) (source : Source) (reason : Text) :
    (κ.dropMember target (ircCaseFold channelName) c).Informs key m
      (lines ++ linesFor m
        (toAll c.members.keys (.relay source (.kick channelName targetNick reason)))) := by
  have hcok := hok.channel _ c hc
  have hwho (x : Fd) : (κ.dropMember target (ircCaseFold channelName) c).rosterName x =
      κ.rosterName x := by
    unfold dropMember
    split <;> rfl
  intro c' hc' hm
  rw [getElem?_dropMember hcok.key] at hc'
  split at hc'
  · next hk =>
    subst hk
    rw [mem_of_kept hc'] at hm ⊢
    have hold := (mem_removeMember.1 hm).2
    rw [linesFor_members hold]
    refine (h c hc hold).leave hok hcok (fun roster => ?_) rfl fun x _ => hwho x
    have hlabel := label_eq_some.1 (hok.holder_eq_some.1 hholder)
    unfold rosterName
    rw [hlabel.2]
    exact if_pos rfl
  · next hk =>
    refine ((h c' hc' hm).congr rfl fun x _ => hwho x).silent (linesFor_silent ?_)
    exact fun roster => if_neg hk

/-- MODE: every change in its turn. -/
theorem Informs.mode (h : κ.Informs key m lines) (hok : κ.Ok) (hc₀ : κ.channels[key₀]? = some c₀)
    {changes : List ModeChange} {signals : List Signal}
    (hrun : ModeRun A key₀ κ changes κ' signals) :
    κ'.Informs key m (lines ++ linesFor m signals) := by
  intro c' hc' hm
  obtain ⟨-, -, hother, hthis⟩ := hrun.channels
  obtain ⟨c, hc, hmem⟩ : ∃ c, κ.channels[key]? = some c ∧ m ∈ c.members := by
    by_cases hk : key₀ = key
    · subst hk
      obtain ⟨c₁, hc₁, hchain⟩ := hthis c₀ hc₀
      rw [hc'] at hc₁
      cases hc₁
      exact ⟨c₀, hc₀, (hchain.mem_members m).1 hm⟩
    · rw [hother key hk] at hc'
      exact ⟨c', hc', hm⟩
  exact hrun.sees hok hc hc' hmem (h c hc hmem)

theorem silent_single {fd : Fd} {line : Line} (hline : Silent key line) :
    ∀ l ∈ linesFor m [.line fd line], Silent key l :=
  linesFor_replies (A := fd) fun _ hx => ⟨line, List.mem_singleton.1 hx, hline⟩

end Core

/-- A command keeps the views of a channel's members in step with the channel. -/
theorem Effect.informs {κ κ' : Core} {A m : Fd} {command : Command} {signals : List Signal}
    (he : Effect κ A command κ' signals) (hok : κ.Ok) (hlive : κ.Live A) {key : Text}
    {lines : List Line} (h : κ.Informs key m lines) :
    κ'.Informs key m (lines ++ linesFor m signals) := by
  cases he with
  | silent => exact h.silent rfl (fun _ => rfl) (List.forall_mem_nil _)
  | reply line hreply =>
    exact h.silent rfl (fun _ => rfl) (Core.silent_single (Core.silent_reply hreply))
  | quit => exact h.silent rfl (fun _ => rfl) (List.forall_mem_nil _)
  | pass =>
    have hset : (κ.acceptPassword A).Informs key m (lines ++ []) :=
      h.silent rfl (Core.rosterName_modify (f := ({ · with passwordAccepted := true })) fun _ => rfl)
        (List.forall_mem_nil _)
    rw [List.append_nil] at hset
    exact hset.complete (linesFor_replies fun x hx => silent_welcome hx)
  | user username _ _ realname =>
    have hset : (κ.setUser A username realname).Informs key m (lines ++ []) :=
      h.silent rfl (Core.rosterName_modify (f := ({ · with
        username := username, realname := realname, hasUser := true })) fun _ => rfl)
        (List.forall_mem_nil _)
    rw [List.append_nil] at hset
    exact hset.complete (linesFor_replies fun x hx => silent_welcome hx)
  | nick nickname rest recipients hname hparams hvalid hfree hne hnodup hrec =>
    rw [linesFor_append, ← List.append_assoc]
    exact (h.nick hok hlive hnodup hrec).complete (linesFor_replies fun x hx => silent_welcome hx)
  | create channelName => exact h.create channelName
  | join channelName rest c _ _ _ _ hc hmem => exact h.join hok hc hmem _
  | privmsgChannel => exact h.silent rfl (fun _ => rfl) (linesFor_silent fun _ => rfl)
  | privmsgUser => exact h.silent rfl (fun _ => rfl) (Core.silent_single fun _ => rfl)
  | topic channelName newTopic rest c _ _ _ hc =>
    exact h.setChannel_silent hc rfl (linesFor_silent fun _ => rfl)
  | kick channelName targetNick rest c target _ _ _ hc _ hholder =>
    exact h.kick hok hc hholder _ _
  | invite targetNick channelName rest c target _ _ _ _ hc =>
    refine h.setChannel_silent hc rfl ?_
    intro l hl
    rw [show ∀ a b : Signal, [a, b] = [a] ++ [b] from fun _ _ => rfl, linesFor_append,
      List.mem_append] at hl
    rcases hl with hl | hl
    · exact Core.silent_single (Core.silent_reply rfl) l hl
    · exact Core.silent_single (fun _ => rfl) l hl
  | mode target rest c₀ changes _ _ _ _ _ hc₀ _ _ hrun => exact h.mode hok hc₀ hrun

/-! ## Every step -/

namespace Server

variable {s s' : Server} {m : Fd} {key : Text} {c : Channel}

/-- Whoever is on a channel and is not to be disconnected knows its roster. -/
def InView (s : Server) : Prop :=
  ∀ (key : Text) (c : Channel) (m : Fd), s.channels[key]? = some c → m ∈ c.members →
    (s.wire.port m).disconnectRequested = false → s.core.Sees key c (stream s.log m)

theorem InView.command (h : s.InView) (hok : s.core.Ok) {A : Fd} {line : Text}
    {signals : List Signal} (hlive : s.core.Live A)
    (he : Effect s.core A (Command.parse line) s'.core signals)
    (hwire : s'.wire = ((s.wire.record (.completeLine A line)).record
      (.dispatched A (Command.parse line))).deliver signals) : s'.InView := by
  intro key c' m hc' hm hflag
  rw [hwire] at hflag
  have hm' : s.core.Live m := by
    rw [← he.live m]
    exact Core.live_of_registered (((he.ok hok hlive).channel key c' hc').members m hm)
  have hports : ((s.wire.record (.completeLine A line)).record
      (.dispatched A (Command.parse line))).ports = s.wire.ports := rfl
  have hstream := Wire.stream_deliver _ m signals
    (by rw [hports]; exact (isSome_ports s m).2 hm') hflag
  rw [show s'.log = _ from congrArg Wire.log hwire, hstream]
  have hquiet : stream ((s.wire.record (.completeLine A line)).record
      (.dispatched A (Command.parse line))).log m = stream s.log m := by
    show stream (s.log ++ [_] ++ [_]) m = _
    rw [stream_append, stream_append]
    rfl
  rw [hquiet]
  refine he.informs hok hlive (fun c hc hmem => h key c m hc hmem ?_) c' hc' hm
  rw [← Bool.not_eq_true]
  intro hflag'
  rw [Wire.deliver_flag ((s.wire.record _).record _) m signals hflag'] at hflag
  cases hflag

theorem InView.disconnect (h : s.InView) (hok : s.core.Ok) {fd : Fd} {recipients : List Fd}
    {pollFds : List PollFd} (hcore : s'.core = s.core.disconnect fd)
    (hrec : QuitRecipients s.core fd recipients)
    (hwire : s'.wire = (s.wire.deliver (toAll recipients (s.quitLine fd))).disconnect fd pollFds) :
    s'.InView := by
  intro key c' m hc' hm hflag
  rw [show s'.channels = (s.core.disconnect fd).channels from congrArg Core.channels hcore,
    Core.getElem?_disconnect] at hc'
  obtain ⟨c, hc, hpurge⟩ := Option.bind_eq_some_iff.1 hc'
  obtain ⟨rfl, -⟩ := Core.purgeChannel_eq_some.1 hpurge
  have hne : fd ≠ m := by
    rintro rfl
    exact (ExtTreeMap.mem_erase.1 hm).1 (Std.compare_eq_iff_eq.2 rfl)
  have hmem : m ∈ c.members := ExtTreeMap.mem_of_mem_erase hm
  have hcok := hok.channel key c hc
  have hlive := Core.live_of_registered (hcok.members m hmem)
  have hport : (s'.wire.port m) = (s.wire.deliver (toAll recipients (s.quitLine fd))).port m := by
    rw [hwire, Wire.port_disconnect_of_ne _ hne]
  rw [hport] at hflag
  have hlog : stream s'.log m = stream (s.wire.deliver (toAll recipients (s.quitLine fd))).log m := by
    rw [show s'.log = _ from congrArg Wire.log hwire]
    show stream (_ ++ [_]) m = _
    rw [stream_append]
    rfl
  rw [hlog, Wire.stream_deliver _ m _ ((isSome_ports s m).2 hlive) hflag]
  have hunflagged : (s.wire.port m).disconnectRequested = false := by
    rw [← Bool.not_eq_true]
    intro hflag'
    rw [Wire.deliver_flag _ m _ hflag'] at hflag
    cases hflag
  have hsees := h key c m hc hmem hunflagged
  have hname (x : Fd) (hx : x ∈ (Core.purged fd (s.core.who fd).nickname c).members) :
      s'.core.rosterName x = s.core.rosterName x := by
    unfold Core.rosterName
    rw [hcore, Core.who_disconnect, if_neg]
    rintro rfl
    exact (ExtTreeMap.mem_erase.1 hx).1 (Std.compare_eq_iff_eq.2 rfl)
  by_cases hr : m ∈ recipients
  · rw [linesFor_toAll hrec.1 hr]
    exact hsees.leave hok hcok (fun roster => rfl) rfl hname
  · -- a member that is not told does not share the channel with the leaving client
    rw [linesFor_toAll_of_notMem hr, List.append_nil]
    have hfd : fd ∉ c.members := fun hfd =>
      hr ((hrec.2 m).2 ⟨hcok.members fd hfd, ⟨key, c, hc, hfd, hmem⟩, Ne.symm hne⟩)
    have herase : c.members.erase fd = c.members := by
      apply ExtTreeMap.ext_getElem?
      intro x
      rw [ExtTreeMap.getElem?_erase]
      simp only [Std.compare_eq_iff_eq]
      split
      · next hx => subst hx; exact (ExtTreeMap.getElem?_eq_none hfd).symm
      · rfl
    refine hsees.congr herase fun x hx => hname x ?_
    show x ∈ c.members.erase fd
    rw [herase]
    exact hx

theorem Reachable.inView (h : Reachable s) : s.InView := by
  refine h.invariant (I := InView) ?_ ?_
  · intro listenerFd password key c m hc
    rw [show (Server.start listenerFd password).channels = ∅ from rfl] at hc
    simp at hc
  · intro s e s' hr ih hs
    cases hr.move hs with
    | quiet hcore hquiet =>
      intro key c m hc hm hflag
      obtain ⟨actions, hlog, hq⟩ := hquiet.log
      rw [show s'.channels = s.channels from congrArg Core.channels hcore] at hc
      rw [hcore, show s'.log = s.log ++ actions from hlog, stream_quiet s.log m hq]
      refine ih key c m hc hm ?_
      rw [← Bool.not_eq_true]
      intro hflag'
      rw [hquiet.flag m hflag'] at hflag
      cases hflag
    | @connect fd _ hnew hcore hwire =>
      intro key c m hc hm hflag
      rw [show s'.channels = s.channels from congrArg Core.channels hcore] at hc
      have hne : fd ≠ m := by
        rintro rfl
        exact hnew (Core.live_of_registered ((hr.ok.channel key c hc).members fd hm))
      have hport : s'.wire.port m = s.wire.port m := by
        rw [hwire]
        unfold Wire.port Wire.connect
        simp [hne]
      rw [hport] at hflag
      have hstream : stream s'.log m = stream s.log m := by
        rw [show s'.log = s.log ++ [.accepted fd] from congrArg Wire.log hwire, stream_append]
        exact if_neg hne
      rw [hstream]
      refine (ih key c m hc hm hflag).congr rfl fun x _ => ?_
      unfold Core.rosterName
      rw [hcore, Core.who_connect hnew]
    | command signals hlive _ heffect hwire => exact ih.command hr.ok hlive heffect hwire
    | disconnect recipients pollFds _ _ hcore hrec hwire =>
      exact ih.disconnect hr.ok hcore hrec hwire

/-- The roster of a channel, as the server has it. -/
def roster (s : Server) (c : Channel) : Roster :=
  (c.members.toList.map fun m => (ircCaseFold (s.client m.1).nickname, m.2)).toFinset

/-- **A member that has lost no line knows the roster of its channel.** -/
theorem member_view (h : Reachable s) (hc : s.channels[key]? = some c) (hm : m ∈ c.members)
    (hflag : (s.client m).disconnectRequested = false) :
    view key (stream s.log m) = some (s.roster c) := by
  rw [client_disconnectRequested] at hflag
  obtain ⟨roster, hview, hrep⟩ := h.inView key c m hc hm hflag
  rw [hview, hrep.eq (Core.snapshot_represents s.core c)]
  congr 2
  unfold Core.namesOf
  rw [List.map_map]
  simp only [client_nickname]
  rfl

/-- `al` accepts the invitation, and `bob` sees it come. -/
theorem member_view_session :
    ∃ s' c, session.Step (.line 5 "JOIN #c".toList) s' ∧ s'.channels["#c".toList]? = some c ∧
      view "#c".toList (stream s'.log 4) = some (s'.roster c) := by
  have hjoin : (session.step (.line 5 "JOIN #c".toList)).any (fun s' =>
      (s'.channels["#c".toList]?).any (fun c => c.members.contains 4 && c.members.contains 5) &&
        !(s'.client 4).disconnectRequested) = true := by decide +kernel
  obtain ⟨s', hs, hjoin⟩ := (Option.any_eq_true _ _).1 hjoin
  rw [Bool.and_eq_true, Bool.not_eq_true'] at hjoin
  obtain ⟨c, hc, hm⟩ := (Option.any_eq_true _ _).1 hjoin.1
  rw [Bool.and_eq_true] at hm
  exact ⟨s', c, hs, hc, member_view (session_reachable.step hs) hc
    (ExtTreeMap.mem_iff_contains.2 hm.1) hjoin.2⟩

end Server

end FtIrc
