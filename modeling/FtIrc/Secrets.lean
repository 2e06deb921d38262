import FtIrc.Enrolment
import FtIrc.Isolation
import FtIrc.Replay

/-!
# The password and the keys are compared, and nothing else

A disguise gives a server another password, and some channels other keys.  The server does in
its disguise what it does without one, whatever comes in that holds no secret of either
(`Server.Step.disguise`).  So in any run in which no PASS line holds the password, it does not
show (`Server.password_unobservable`); nor does the key of a channel, as long as nobody offers
it to a JOIN and no operator sets another (`Server.key_unobservable`): not in lines, channels,
buffers or readiness.
-/

namespace FtIrc

open Std

/-- Another password, and other keys for some of the channels that have one. -/
structure Disguise where
  password : Text
  keys : Text → Option Text := fun _ => none

/-! ## Channels -/

namespace Channel

variable (k : Option Text) (c : Channel)

def disguise : Channel := { c with key := if c.hasKey then k.getD c.key else c.key }

theorem disguise_none : c.disguise none = c := by
  unfold disguise
  split <;> rfl

variable {k c}

theorem disguise_keyless (h : c.hasKey = false) : c.disguise k = c := by
  unfold disguise
  rw [if_neg (by rw [h]; decide)]

theorem disguise_addMember (fd : Fd) (makeOperator : Bool) :
    (c.disguise k).addMember fd makeOperator = (c.addMember fd makeOperator).disguise k := by
  unfold addMember
  by_cases h : c.hasMember fd = true
  · rw [if_pos h, if_pos (show (c.disguise k).hasMember fd = true from h)]
  · rw [if_neg h, if_neg (show ¬ (c.disguise k).hasMember fd = true from h)]
    rfl

theorem disguise_renameInvite (old nickname : Text) :
    Server.renameInvite old nickname (c.disguise k) = (Server.renameInvite old nickname c).disguise k := by
  unfold Server.renameInvite
  by_cases h : c.isInvited old = true
  · rw [if_pos h, if_pos (show (c.disguise k).isInvited old = true from h)]
    rfl
  · rw [if_neg h, if_neg (show ¬ (c.disguise k).isInvited old = true from h)]

/-- A write that sets no key. -/
def Keeps (k : Option Text) (w : ModeWrite) : Prop := k = none ∨ ∀ key, w ≠ .key (some key)

theorem disguise_write {w : ModeWrite} (h : Keeps k w) : (c.disguise k).write w = (c.write w).disguise k := by
  rcases h with rfl | h
  · rw [disguise_none, disguise_none]
  cases w with
  | key key =>
    cases key with
    | none => rfl
    | some key => exact absurd rfl (h key)
  | userLimit limit => cases limit <;> rfl
  | operator member enabled =>
    show (c.disguise k).setMemberOperator member enabled = (c.setMemberOperator member enabled).disguise k
    unfold setMemberOperator
    by_cases hm : c.hasMember member = true
    · rw [if_pos hm, if_pos (show (c.disguise k).hasMember member = true from hm)]
      rfl
    · rw [if_neg hm, if_neg (show ¬ (c.disguise k).hasMember member = true from hm)]
  | _ => rfl

theorem disguise_read {w : ModeWrite} (h : Keeps k w) :
    (c.disguise k).read w.setting = w.value ↔ c.read w.setting = w.value := by
  rcases h with rfl | h
  · rw [disguise_none]
  cases w with
  | key key =>
    cases key with
    | none =>
      show Setting.Value.key (if c.hasKey then some (c.disguise k).key else none) = .key none ↔
        Setting.Value.key (if c.hasKey then some c.key else none) = .key none
      cases c.hasKey <;> simp
    | some key => exact absurd rfl (h key)
  | _ => rfl

end Channel

/-! ## Commands that try a secret -/

namespace Command

variable (command : Command)

/-- A JOIN that offers `password` to the channel stored under `key`. -/
def Offers (key password : Text) : Prop :=
  command.name = "JOIN".toList ∧ ∃ channelName rest, command.parameters = channelName :: rest ∧
    ircCaseFold channelName = key ∧ rest.head?.getD [] = password

/-- A MODE with a `+k` for the channel stored under `key`. -/
def SetsKey (key : Text) : Prop :=
  command.name = "MODE".toList ∧ ∃ target rest changes, command.parameters = target :: rest ∧
    ircCaseFold target = key ∧ Server.parseChannelModeChanges command.parameters = some changes ∧
    ∃ change ∈ changes, change.mode = 'k' ∧ change.adding = true

end Command

namespace Core

variable (κ : Core) (d : Disguise) (fd : Fd) (command : Command)

/-- The command holds no secret that `d` changes: it has the same chance with both. -/
structure Blind : Prop where
  password : command.IsPass κ.password ↔ command.IsPass d.password
  offer : ∀ (key q : Text) (c : Channel), d.keys key = some q → κ.channels[key]? = some c →
    c.hasKey = true → (command.Offers key c.key ↔ command.Offers key q)
  change : ∀ (key q : Text) (c : Channel), d.keys key = some q → κ.channels[key]? = some c →
    command.SetsKey key → c.isMemberOperator fd = false

/-! ## The machine -/

def disguise : Core :=
  { κ with
    password := d.password
    channels := κ.channels.map fun key c => c.disguise (d.keys key) }

@[simp] theorem disguise_who (x : Fd) : (κ.disguise d).who x = κ.who x := rfl

@[simp] theorem disguise_holder (nickname : Text) : (κ.disguise d).holder nickname = κ.holder nickname := rfl

theorem getElem?_disguise (key : Text) :
    (κ.disguise d).channels[key]? = (κ.channels[key]?).map (·.disguise (d.keys key)) :=
  ExtTreeMap.getElem?_map

theorem disguise_setChannel (key : Text) (c : Channel) :
    (κ.disguise d).setChannel key (c.disguise (d.keys key)) = (κ.setChannel key c).disguise d := by
  have hchannels : (κ.disguise d).channels.insert key (c.disguise (d.keys key)) =
      ((κ.setChannel key c).disguise d).channels := by
    apply ExtTreeMap.ext_getElem?
    intro x
    rw [getElem?_disguise, getElem?_setChannel, ExtTreeMap.getElem?_insert, getElem?_disguise]
    simp only [Std.compare_eq_iff_eq]
    split
    · next h => rw [← h]; rfl
    · rfl
  exact congrArg (fun channels => { κ with password := d.password, channels := channels }) hchannels

theorem disguise_peers : (κ.disguise d).peers fd = κ.peers fd := by
  unfold peers disguise
  dsimp only
  rw [ExtTreeMap.foldl_eq_foldl_toList, ExtTreeMap.foldl_eq_foldl_toList, ExtTreeMap.toList_map,
    List.foldl_map]
  rfl

theorem disguise_nickTold : (κ.disguise d).nickTold fd = κ.nickTold fd := by
  unfold nickTold
  rw [disguise_peers]
  rfl

theorem disguise_rename (nickname : Text) :
    (κ.disguise d).rename fd nickname = (κ.rename fd nickname).disguise d := by
  unfold rename
  dsimp only
  rw [disguise_who]
  split
  · rfl
  · have hchannels : ((κ.disguise d).channels.map fun _ c =>
          Server.renameInvite (κ.who fd).nickname nickname c) =
        (κ.channels.map fun _ c => Server.renameInvite (κ.who fd).nickname nickname c).map fun key c =>
          c.disguise (d.keys key) := by
      show (κ.channels.map _).map _ = _
      rw [ExtTreeMap.map_map, ExtTreeMap.map_map]
      simp only [Channel.disguise_renameInvite]
    rw [hchannels]
    rfl

theorem disguise_dropMember (m : Fd) (key : Text) (c : Channel) :
    (κ.disguise d).dropMember m key (c.disguise (d.keys key)) = (κ.dropMember m key c).disguise d := by
  unfold dropMember
  by_cases h : (c.removeMember m).empty = true
  · rw [if_pos h, if_pos (show ((c.disguise (d.keys key)).removeMember m).empty = true from h)]
    have hchannels : (κ.disguise d).channels.erase (ircCaseFold c.name) =
        (κ.channels.erase (ircCaseFold c.name)).map fun key c => c.disguise (d.keys key) := by
      apply ExtTreeMap.ext_getElem?
      intro x
      rw [ExtTreeMap.getElem?_erase, getElem?_disguise, ExtTreeMap.getElem?_map, ExtTreeMap.getElem?_erase]
      split <;> rfl
    exact congrArg (fun channels => { κ with password := d.password, channels := channels }) hchannels
  · rw [if_neg h, if_neg (show ¬ ((c.disguise (d.keys key)).removeMember m).empty = true from h)]
    exact κ.disguise_setChannel d key (c.removeMember m)

theorem disguise_disconnect : (κ.disguise d).disconnect fd = (κ.disconnect fd).disguise d := by
  have hchannels : ((κ.disguise d).disconnect fd).channels = ((κ.disconnect fd).disguise d).channels := by
    apply ExtTreeMap.ext_getElem?
    intro x
    rw [getElem?_disconnect, getElem?_disguise, getElem?_disguise, getElem?_disconnect, disguise_who]
    cases κ.channels[x]? with
    | none => rfl
    | some c =>
      show Server.purgeChannel fd (κ.who fd).nickname (c.disguise (d.keys x)) =
        (Server.purgeChannel fd (κ.who fd).nickname c).map (·.disguise (d.keys x))
      rw [purgeChannel_eq, purgeChannel_eq]
      show (if (purged fd (κ.who fd).nickname c).empty then none else _) = _
      split <;> rfl
  exact congrArg
    (fun channels => { (κ.disconnect fd) with password := d.password, channels := channels }) hchannels

/-- The same answer, disguised. -/
def Alike (response response' : Response) : Prop :=
  response' = (response.1.disguise d, response.2)

variable {κ d fd command}

theorem alike_ite {c : Prop} [Decidable c] {x y x' y' : Response} (hpos : c → Alike d x x')
    (hneg : ¬ c → Alike d y y') : Alike d (if c then x else y) (if c then x' else y') := by
  split
  · next h => exact hpos h
  · next h => exact hneg h

theorem alike_ifRegistered {x x' : Response} (h : Alike d x x') :
    Alike d (κ.ifRegistered fd x) ((κ.disguise d).ifRegistered fd x') :=
  alike_ite (fun _ => h) fun _ => rfl

theorem alike_register (κ : Core) (d : Disguise) (fd : Fd) :
    Alike d (κ.register fd) ((κ.disguise d).register fd) := by
  unfold Alike register complete welcome
  have hcompletes : (κ.disguise d).completes fd = κ.completes fd := rfl
  rw [hcompletes]
  split <;> rfl

theorem alike_pass (h : command.IsPass κ.password ↔ command.IsPass d.password)
    (hname : command.name = "PASS".toList) :
    Alike d (κ.handlePass fd command) ((κ.disguise d).handlePass fd command) := by
  unfold handlePass
  refine alike_ite (fun _ => rfl) fun _ => ?_
  cases hparams : command.parameters with
  | nil => rfl
  | cons password rest =>
    have hboth : password = κ.password ↔ password = d.password := by
      simpa [Command.IsPass, hname, hparams] using h
    show Alike d (if password ≠ κ.password then _ else _) (if password ≠ d.password then _ else _)
    by_cases hpassword : password = κ.password
    · rw [if_neg (not_not_intro hpassword), if_neg (not_not_intro (hboth.1 hpassword))]
      exact alike_register (κ.acceptPassword fd) d fd
    · rw [if_pos hpassword, if_pos fun heq => hpassword (hboth.2 heq)]
      rfl

theorem alike_user : Alike d (κ.handleUser fd command) ((κ.disguise d).handleUser fd command) := by
  unfold handleUser
  refine alike_ite (fun _ => rfl) fun _ => ?_
  rcases command.parameters with _ | ⟨username, _ | ⟨mode, _ | ⟨unused, _ | ⟨realname, rest⟩⟩⟩⟩
  all_goals first
    | rfl
    | exact alike_register (κ.setUser fd username realname) d fd

theorem alike_nick : Alike d (κ.handleNick fd command) ((κ.disguise d).handleNick fd command) := by
  unfold handleNick
  cases command.parameters with
  | nil => rfl
  | cons nickname rest =>
  refine alike_ite (fun _ => rfl) fun _ => ?_
  refine alike_ite (fun _ => rfl) fun _ => ?_
  refine alike_ite (fun _ => rfl) fun _ => ?_
  have hregister := alike_register (κ.rename fd nickname) d fd
  dsimp only
  rw [disguise_rename, hregister, disguise_nickTold]
  rfl

theorem alike_join (h : κ.Blind d fd command) (hname : command.name = "JOIN".toList) :
    Alike d (κ.handleJoin fd command) ((κ.disguise d).handleJoin fd command) := by
  unfold handleJoin
  refine alike_ifRegistered ?_
  cases hparams : command.parameters with
  | nil => rfl
  | cons channelName rest =>
  refine alike_ite (fun _ => rfl) fun _ => ?_
  rw [getElem?_disguise]
  cases hc : κ.channels[ircCaseFold channelName]? with
  | none =>
    have hnew : (({ name := channelName } : Channel).addMember fd true).disguise
        (d.keys (ircCaseFold channelName)) = ({ name := channelName } : Channel).addMember fd true :=
      Channel.disguise_keyless rfl
    refine Prod.ext ?_ rfl
    show (κ.disguise d).setChannel _ (({ name := channelName } : Channel).addMember fd true) = _
    rw [← hnew]
    exact disguise_setChannel κ d _ _
  | some c =>
    refine alike_ite (fun _ => rfl) fun _ => ?_
    refine alike_ite (fun _ => rfl) fun _ => ?_
    -- the one place where a key is looked at
    have hkey : ((c.disguise (d.keys (ircCaseFold channelName))).hasKey &&
        rest.head?.getD [] != (c.disguise (d.keys (ircCaseFold channelName))).key) =
        (c.hasKey && rest.head?.getD [] != c.key) := by
      show (c.hasKey && _) = _
      cases hhas : c.hasKey with
      | false => rfl
      | true =>
        cases hq : d.keys (ircCaseFold channelName) with
        | none => rw [Channel.disguise_none]
        | some q =>
          have hoffer : rest.head?.getD [] = c.key ↔ rest.head?.getD [] = q := by
            simpa [Command.Offers, hname, hparams] using h.offer _ q c hq hc hhas
          have hdisguised : (c.disguise (some q)).key = q := by
            unfold Channel.disguise
            rw [hhas]
            rfl
          rw [hdisguised, Bool.true_and, Bool.true_and, Bool.eq_iff_iff, bne_iff_ne, bne_iff_ne]
          exact (not_congr hoffer).symm
    dsimp only [Option.map_some]
    rw [hkey]
    refine alike_ite (fun _ => rfl) fun _ => ?_
    refine alike_ite (fun _ => rfl) fun _ => ?_
    have hjoined : ((c.disguise (d.keys (ircCaseFold channelName))).addMember fd false).removeInvite
        ((κ.disguise d).who fd).nickname =
        ((c.addMember fd false).removeInvite (κ.who fd).nickname).disguise
          (d.keys (ircCaseFold channelName)) := by
      rw [Channel.disguise_addMember]
      rfl
    rw [hjoined, disguise_setChannel]
    rfl

theorem alike_privmsg :
    Alike d (κ.handlePrivmsg fd command) ((κ.disguise d).handlePrivmsg fd command) := by
  unfold handlePrivmsg
  refine alike_ifRegistered ?_
  rcases command.parameters with _ | ⟨targetName, _ | ⟨text, rest⟩⟩
  · rfl
  · rfl
  dsimp only
  rw [getElem?_disguise, disguise_holder]
  refine alike_ite (fun _ => ?_) fun _ => ?_
  · cases κ.channels[ircCaseFold targetName]? with
    | none => rfl
    | some c => exact alike_ite (fun _ => rfl) fun _ => rfl
  · cases κ.holder targetName <;> rfl

theorem alike_topic : Alike d (κ.handleTopic fd command) ((κ.disguise d).handleTopic fd command) := by
  unfold handleTopic
  refine alike_ifRegistered ?_
  cases command.parameters with
  | nil => rfl
  | cons channelName rest =>
  dsimp only
  rw [getElem?_disguise]
  cases κ.channels[ircCaseFold channelName]? with
  | none => rfl
  | some c =>
    refine alike_ite (fun _ => rfl) fun _ => ?_
    cases rest with
    | nil => exact alike_ite (fun _ => rfl) fun _ => rfl
    | cons newTopic rest =>
      refine alike_ite (fun _ => rfl) fun _ => Prod.ext ?_ rfl
      exact disguise_setChannel κ d _ (c.setTopic newTopic)

theorem alike_kick : Alike d (κ.handleKick fd command) ((κ.disguise d).handleKick fd command) := by
  unfold handleKick
  refine alike_ifRegistered ?_
  rcases command.parameters with _ | ⟨channelName, _ | ⟨targetNick, rest⟩⟩
  · rfl
  · rfl
  dsimp only
  rw [getElem?_disguise, disguise_holder]
  cases κ.channels[ircCaseFold channelName]? with
  | none => rfl
  | some c =>
    refine alike_ite (fun _ => rfl) fun _ => ?_
    refine alike_ite (fun _ => rfl) fun _ => ?_
    have hmember : (c.disguise (d.keys (ircCaseFold channelName))).hasMember = c.hasMember := rfl
    dsimp only [Option.map_some]
    rw [hmember]
    cases (κ.holder targetNick).filter c.hasMember with
    | none => rfl
    | some target => exact Prod.ext (disguise_dropMember κ d target _ c) rfl

theorem alike_invite : Alike d (κ.handleInvite fd command) ((κ.disguise d).handleInvite fd command) := by
  unfold handleInvite
  refine alike_ifRegistered ?_
  rcases command.parameters with _ | ⟨targetNick, _ | ⟨channelName, rest⟩⟩
  · rfl
  · rfl
  dsimp only
  rw [getElem?_disguise, disguise_holder]
  cases κ.holder targetNick with
  | none => rfl
  | some target =>
    cases κ.channels[ircCaseFold channelName]? with
    | none => rfl
    | some c =>
      refine alike_ite (fun _ => rfl) fun _ => ?_
      refine alike_ite (fun _ => rfl) fun _ => ?_
      refine alike_ite (fun _ => rfl) fun _ => Prod.ext ?_ rfl
      exact disguise_setChannel κ d _ (c.addInvite targetNick)

theorem alike_refuseChange (k : Option Text) (c : Channel) (change : ModeChange) :
    Alike d (κ.refuseChange fd c change) ((κ.disguise d).refuseChange fd (c.disguise k) change) := by
  unfold refuseChange
  refine alike_ite (fun _ => rfl) fun _ => ?_
  refine alike_ite (fun _ => ?_) fun _ => ?_
  · rw [disguise_holder]
    cases κ.holder change.argument <;> rfl
  · exact alike_ite (fun _ => rfl) fun _ => rfl

theorem key_of_writes {c : Channel} {change : ModeChange} {key : Text}
    (h : change.writes κ c = some (.key (some key))) : change.mode = 'k' ∧ change.adding = true := by
  unfold ModeChange.writes at h
  split at h
  · cases h
  split at h
  · cases h
  split at h
  · next hmode =>
    split at h
    · next hadding => exact ⟨hmode, hadding⟩
    · cases h
  split at h
  · obtain ⟨_, -, heq⟩ := Option.map_eq_some_iff.1 h
    cases heq
  split at h
  · split at h
    · obtain ⟨_, -, heq⟩ := Option.map_eq_some_iff.1 h
      cases heq
    · cases h
  · cases h

theorem alike_applyChange (key : Text) {change : ModeChange}
    (h : d.keys key = none ∨ ¬ (change.mode = 'k' ∧ change.adding = true)) :
    Alike d (κ.applyChange fd key change) ((κ.disguise d).applyChange fd key change) := by
  unfold applyChange
  rw [getElem?_disguise]
  cases κ.channels[key]? with
  | none => rfl
  | some c =>
    have hwrites : change.writes (κ.disguise d) (c.disguise (d.keys key)) = change.writes κ c := rfl
    dsimp only [Option.map_some]
    rw [hwrites]
    cases hw : change.writes κ c with
    | none => exact alike_refuseChange _ c change
    | some w =>
      have hkeeps : Channel.Keeps (d.keys key) w :=
        h.imp id fun hmode q hq => hmode (key_of_writes (hw.trans (congrArg some hq)))
      dsimp only
      rw [Channel.disguise_write hkeeps]
      by_cases hread : c.read w.setting = w.value
      · rw [if_pos hread, if_pos ((Channel.disguise_read hkeeps).2 hread)]
        rfl
      · rw [if_neg hread, if_neg fun hsame => hread ((Channel.disguise_read hkeeps).1 hsame)]
        exact Prod.ext (disguise_setChannel κ d key (c.write w)) rfl

theorem alike_applyChanges (key : Text) {changes : List ModeChange}
    (h : ∀ change ∈ changes, d.keys key = none ∨ ¬ (change.mode = 'k' ∧ change.adding = true)) :
    Alike d (applyChanges fd key κ changes) (applyChanges fd key (κ.disguise d) changes) := by
  induction changes generalizing κ with
  | nil => rfl
  | cons change changes ih =>
    have hnow : Alike d (κ.applyChange fd key change) ((κ.disguise d).applyChange fd key change) :=
      alike_applyChange key (h change List.mem_cons_self)
    have hlater : Alike d (applyChanges fd key (κ.applyChange fd key change).1 changes)
        (applyChanges fd key ((κ.applyChange fd key change).1.disguise d) changes) :=
      ih fun c hc => h c (List.mem_cons_of_mem _ hc)
    unfold applyChanges
    dsimp only
    rw [hnow, hlater]
    rfl

theorem alike_mode (h : κ.Blind d fd command) (hname : command.name = "MODE".toList) :
    Alike d (κ.handleMode fd command) ((κ.disguise d).handleMode fd command) := by
  unfold handleMode
  refine alike_ifRegistered ?_
  cases hparams : command.parameters with
  | nil => rfl
  | cons target rest =>
  refine alike_ite (fun _ => rfl) fun _ => ?_
  rw [getElem?_disguise]
  cases hc : κ.channels[ircCaseFold target]? with
  | none => rfl
  | some c =>
    refine alike_ite (fun _ => rfl) fun _ => ?_
    by_cases hop : c.isMemberOperator fd = true
    swap
    · rw [Bool.not_eq_true] at hop
      dsimp only [Option.map_some]
      rw [hop, show (c.disguise (d.keys (ircCaseFold target))).isMemberOperator fd = false from hop]
      rfl
    dsimp only [Option.map_some]
    rw [hop, show (c.disguise (d.keys (ircCaseFold target))).isMemberOperator fd = true from hop]
    cases hchanges : Server.parseChannelModeChanges (target :: rest) with
    | none => rfl
    | some changes =>
      refine alike_applyChanges _ fun change hchange => ?_
      cases hq : d.keys (ircCaseFold target) with
      | none => exact Or.inl rfl
      | some q =>
        refine Or.inr fun hmode => ?_
        have hnot := h.change _ q c hq hc
          ⟨hname, target, rest, changes, hparams, rfl, by rw [hparams]; exact hchanges, change, hchange,
            hmode⟩
        rw [hop] at hnot
        cases hnot

theorem alike_dispatch (h : κ.Blind d fd command) :
    Alike d (κ.dispatch fd command) ((κ.disguise d).dispatch fd command) := by
  unfold dispatch
  refine alike_ite (fun _ => ?_) fun _ => ?_
  · unfold handlePing
    cases command.parameters <;> rfl
  refine alike_ite (fun _ => rfl) fun _ => ?_
  refine alike_ite (fun _ => ?_) fun _ => ?_
  · unfold handleCap
    cases command.parameters with
    | nil => rfl
    | cons subcommand rest =>
      refine alike_ite (fun _ => rfl) fun _ => ?_
      exact alike_ite (fun _ => rfl) fun _ => rfl
  refine alike_ite (fun hname => alike_pass h.password hname) fun _ => ?_
  refine alike_ite (fun _ => alike_user) fun _ => ?_
  refine alike_ite (fun _ => alike_nick) fun _ => ?_
  refine alike_ite (fun _ => alike_privmsg) fun _ => ?_
  refine alike_ite (fun hname => alike_join h hname) fun _ => ?_
  refine alike_ite (fun _ => alike_topic) fun _ => ?_
  refine alike_ite (fun _ => alike_kick) fun _ => ?_
  refine alike_ite (fun _ => alike_invite) fun _ => ?_
  exact alike_ite (fun hname => alike_mode h hname) fun _ => rfl

end Core

/-! ## The server -/

namespace Server

variable {s s' t : Server} {e : Event} {d : Disguise} {p q key : Text} {c : Channel}

/-- Nothing is on neither side. -/
theorem ext_core_wire (hcore : s.core = t.core) (hwire : s.wire = t.wire) : s = t := by
  have hclients : s.clients = t.clients := by
    apply ExtTreeMap.ext_getElem?
    intro x
    have hwho : s.core.who x = t.core.who x := by rw [hcore]
    have hport : s.wire.port x = t.wire.port x := by rw [hwire]
    exact clients_ext (by rw [hcore]) hwho hport
  obtain ⟨_, _, _, _, _, _, _⟩ := s
  obtain ⟨_, _, _, _, _, _, _⟩ := t
  have h1 := congrArg Core.listenerFd hcore
  have h2 := congrArg Core.password hcore
  have h3 := congrArg Wire.pollFds hwire
  have h4 := congrArg Core.nicknameIndex hcore
  have h5 := congrArg Core.channels hcore
  have h6 := congrArg Wire.log hwire
  simp only [core, wire] at h1 h2 h3 h4 h5 h6 hclients
  subst h1 h2 h3 h4 h5 h6 hclients
  rfl

def disguise (s : Server) (d : Disguise) : Server :=
  { s with
    password := d.password
    channels := s.channels.map fun key c => c.disguise (d.keys key) }

theorem core_disguise (s : Server) (d : Disguise) : (s.disguise d).core = s.core.disguise d := rfl

theorem wire_disguise (s : Server) (d : Disguise) : (s.disguise d).wire = s.wire := rfl

theorem membersLive_disguise (hlive : s.core.MembersLive) : (s.disguise d).core.MembersLive := by
  intro key c hc m hm
  rw [core_disguise, Core.getElem?_disguise] at hc
  obtain ⟨c₀, hc₀, rfl⟩ := Option.map_eq_some_iff.1 hc
  exact hlive key c₀ hc₀ m hm

/-- What comes in holds no secret that `d` changes. -/
def Blind (d : Disguise) (s : Server) (e : Event) : Prop :=
  ∀ fd line, e = .line fd line → s.core.Blind d fd (Command.parse line)

theorem disguise_line (hlive : s.core.MembersLive) {fd : Fd} (hfd : s.core.Live fd) (line : Text)
    (h : s.core.Blind d fd (Command.parse line)) :
    (s.disguise d).handleCompleteLine fd line = (s.handleCompleteLine fd line).disguise d := by
  unfold handleCompleteLine
  dsimp only
  split
  · rfl
  · have hx := dispatchCommand_answers ((s.record (.completeLine fd line)).record
      (.dispatched fd (Command.parse line))) fd (Command.parse line) hlive hfd
    have hy := dispatchCommand_answers (((s.record (.completeLine fd line)).record
      (.dispatched fd (Command.parse line))).disguise d) fd (Command.parse line)
      (membersLive_disguise hlive) hfd
    have hcore : (((s.record (.completeLine fd line)).record
      (.dispatched fd (Command.parse line))).disguise d).core = s.core.disguise d := rfl
    rw [hcore, Core.alike_dispatch h] at hy
    refine ext_core_wire (hy.1.trans ?_) (hy.2.trans ?_)
    · rw [core_disguise, hx.1]
      rfl
    · rw [wire_disguise, wire_disguise, hx.2]
      rfl

theorem disguise_remove (hlive : s.core.MembersLive) (index : Nat) :
    (s.disguise d).removeClient index = (s.removeClient index).disguise d := by
  cases hp : s.pollFds[index]? with
  | none =>
    unfold removeClient
    rw [hp, show (s.disguise d).pollFds[index]? = none from hp]
  | some p =>
    by_cases hfd : s.core.Live p.fd
    · have hsignals (reason : Text) :
          (s.core.disguise d).quitSignals p.fd reason = s.core.quitSignals p.fd reason := by
        unfold Core.quitSignals
        rw [Core.disguise_peers]
        rfl
      have hx := removeClient_answers s hp hlive hfd rfl
      have hy := removeClient_answers (s.disguise d) hp (membersLive_disguise hlive) hfd rfl
      rw [core_disguise, wire_disguise, hsignals] at hy
      refine ext_core_wire (hy.1.trans ?_) (hy.2.trans ?_)
      · rw [core_disguise, hx.1, Core.disguise_disconnect]
      · exact hx.2.symm
    · have hnone : s.clients[p.fd]? = none := by
        rw [live_iff, Option.not_isSome_iff_eq_none] at hfd
        exact hfd
      unfold removeClient
      rw [hp, show (s.disguise d).pollFds[index]? = some p from hp]
      dsimp only
      rw [hnone, show (s.disguise d).clients[p.fd]? = none from hnone]
      rfl

theorem disguise_ite {b : Prop} [Decidable b] {x y x' y' : Server × Bool}
    (hpos : x'.1 = x.1.disguise d) (hneg : y'.1 = y.1.disguise d) :
    (if b then x' else y').1 = (if b then x else y).1.disguise d := by
  split
  · exact hpos
  · exact hneg

theorem disguise_flush (index : Nat) (sent : Option Nat) :
    ((s.disguise d).flushClientOutput index sent).1 = (s.flushClientOutput index sent).1.disguise d := by
  unfold flushClientOutput
  rw [show (s.disguise d).pollFds = s.pollFds from rfl]
  cases s.pollFds[index]? with
  | none => rfl
  | some p =>
    dsimp only
    rw [show (s.disguise d).findClient p.fd = s.findClient p.fd from rfl]
    cases s.findClient p.fd with
    | none => rfl
    | some client =>
      refine disguise_ite rfl ?_
      rcases sent with _ | _ | length
      · rfl
      · rfl
      · exact disguise_ite rfl rfl

theorem disguise_except {b : Prop} [Decidable b] {x y x' y' : Except String Server}
    (hpos : x' = x.map (·.disguise d)) (hneg : y' = y.map (·.disguise d)) :
    (if b then x' else y') = (if b then x else y).map (·.disguise d) := by
  split
  · exact hpos
  · exact hneg

theorem disguise_accept (result : AcceptResult) :
    (s.disguise d).acceptClient result = (s.acceptClient result).map (·.disguise d) := by
  cases result with
  | failed => rfl
  | blocking => rfl
  | connected fd =>
    unfold acceptClient addPollFd
    exact disguise_except rfl (disguise_except rfl rfl)

/-- **A step in disguise.** -/
theorem Step.disguise (hs : s.Step e s') (hlive : s.core.MembersLive) (h : s.Blind d e) :
    (s.disguise d).Step e (s'.disguise d) := by
  cases e with
  | poll revents =>
    cases hs
    rfl
  | accept result =>
    have hs : (s.acceptClient result).toOption = some s' := hs
    show ((s.disguise d).acceptClient result).toOption = some (s'.disguise d)
    rw [disguise_accept]
    cases hok : s.acceptClient result with
    | error => rw [hok] at hs; cases hs
    | ok s₁ =>
      rw [hok] at hs
      cases hs
      rfl
  | receive fd data =>
    obtain ⟨c, hc, rfl⟩ := Option.map_eq_some_iff.1 hs
    exact Option.map_eq_some_iff.2 ⟨c, hc, rfl⟩
  | pop fd =>
    obtain ⟨popped, hpopped, rfl⟩ := Option.map_eq_some_iff.1 hs
    exact Option.map_eq_some_iff.2 ⟨popped, hpopped, rfl⟩
  | line fd line =>
    unfold Step step at hs ⊢
    dsimp only at hs ⊢
    split at hs
    · next hfd =>
      cases hs
      refine (if_pos hfd).trans (congrArg some ?_)
      exact disguise_line hlive ((live_iff s fd).2 hfd.1) line (h fd line rfl)
    · cases hs
  | flush index sent =>
    unfold Step step at hs ⊢
    dsimp only at hs ⊢
    split at hs
    · next hi =>
      cases hs
      exact (if_pos hi).trans (congrArg some (disguise_flush index sent))
    · cases hs
  | remove index =>
    unfold Step step at hs ⊢
    dsimp only at hs ⊢
    split at hs
    · next hi =>
      cases hs
      exact (if_pos hi).trans (congrArg some (disguise_remove hlive index))
    · cases hs

/-- **A run in disguise.**  `I` is what the run keeps, and what makes what comes in blind. -/
theorem run_disguise {I : Server → Prop} {Quiet : Server → Event → Prop} {es : List Event}
    (hr : Reachable s) (hrun : Transition.Run (fun s e s' => s.Step e s' ∧ Quiet s e) s es s') (hI : I s)
    (hblind : ∀ t e, I t → Quiet t e → t.Blind d e)
    (hkept : ∀ t e t', Reachable t → t.Step e t' → Quiet t e → I t → I t') :
    I s' ∧ Transition.Run Step (s.disguise d) es (s'.disguise d) := by
  suffices hall : Reachable s' ∧ I s' ∧ Transition.Run Step (s.disguise d) es (s'.disguise d) from hall.2
  induction hrun with
  | nil => exact ⟨hr, hI, .nil⟩
  | snoc hrun hs ih =>
    obtain ⟨hr₁, hI₁, hrun₁⟩ := ih
    exact ⟨hr₁.step hs.1, hkept _ _ _ hr₁ hs.1 hs.2 hI₁,
      hrun₁.snoc (hs.1.disguise hr₁.ok.membersLive (hblind _ _ hI₁ hs.2))⟩

theorem Step.password (hs : s.Step e s') (hlive : s.core.MembersLive) : s'.password = s.password := by
  have hcore : s'.core.password = s.core.password := by
    cases hs.move hlive with
    | quiet hcore => rw [hcore]
    | connect _ hcore => rw [hcore]; rfl
    | command _ _ _ heffect => exact heffect.fixed.2
    | disconnect _ _ _ _ hcore => rw [hcore]; rfl
  exact hcore

/-! ## The password -/

def withPassword (s : Server) (q : Text) : Server := { s with password := q }

theorem disguise_password (s : Server) (q : Text) : s.disguise { password := q } = s.withPassword q := by
  have hchannels : (s.channels.map fun _ c => c.disguise none) = s.channels := by
    simp only [Channel.disguise_none]
    exact ExtTreeMap.map_id
  exact congrArg (fun channels => { s with password := q, channels := channels }) hchannels

/-- No PASS line with the one password or the other. -/
def Unguessed (p q : Text) (e : Event) : Prop :=
  ∀ fd line, e = .line fd line → ¬ (Command.parse line).IsPass p ∧ ¬ (Command.parse line).IsPass q

/-- **The password does not show.**  In a run without a PASS of the one password or the other, the
server with the other password goes through the same states. -/
theorem password_unobservable {listenerFd : Fd} {es : List Event}
    (hrun : Transition.Run Step (start listenerFd p) es s) (h : ∀ e ∈ es, Unguessed p q e) :
    Transition.Run Step (start listenerFd q) es (s.withPassword q) := by
  have hquiet : Transition.Run (fun s e s' => s.Step e s' ∧ Unguessed p q e) (start listenerFd p) es s := by
    induction hrun with
    | nil => exact .nil
    | snoc hrun hs ih =>
      exact (ih fun e he => h e (List.mem_append_left _ he)).snoc
        ⟨hs, h _ (List.mem_append_right _ (List.mem_singleton_self _))⟩
  obtain ⟨-, hrun'⟩ := run_disguise (I := fun t => t.password = p) (d := { password := q })
    (Reachable.start listenerFd p) hquiet rfl
    (fun t e ht hclean fd line heq => by
      obtain ⟨hp, hq⟩ := hclean fd line heq
      have hpassword : t.core.password = p := ht
      exact ⟨by rw [hpassword]; exact iff_of_false hp hq, nofun, nofun⟩)
    (fun t e t' ht hs _ hp => (hs.password ht.ok.membersLive).trans hp)
  rw [disguise_password, disguise_password] at hrun'
  exact hrun'

/-- After a wrong guess `eve` could be on a server with either password. -/
theorem password_unobservable_session :
    ∃ s : Server, Transition.Run Step (start 3 "pw".toList)
        [.accept (.connected 4), .line 4 "NICK eve".toList, .line 4 "PASS guess".toList] s ∧
      Transition.Run Step (start 3 "other".toList)
        [.accept (.connected 4), .line 4 "NICK eve".toList, .line 4 "PASS guess".toList]
        (s.withPassword "other".toList) := by
  have hsome : ((start 3 "pw".toList).steps
      [.accept (.connected 4), .line 4 "NICK eve".toList, .line 4 "PASS guess".toList]).isSome = true := by
    decide +kernel
  obtain ⟨s, hs⟩ := Option.isSome_iff_exists.1 hsome
  have hrun := Transition.Run.of_foldlM hs
  refine ⟨s, hrun, password_unobservable hrun fun e he => ?_⟩
  intro fd line heq
  subst heq
  simp only [List.mem_cons, List.not_mem_nil, or_false, reduceCtorEq, Event.line.injEq, false_or] at he
  rcases he with ⟨-, rfl⟩ | ⟨-, rfl⟩ <;> exact ⟨by unfold Command.IsPass; decide, by unfold Command.IsPass; decide⟩

/-! ## The key of a channel -/

/-- The server with the key `q` for the channel stored under `key`, if that has one. -/
def withKey (s : Server) (key q : Text) : Server :=
  s.disguise { password := s.password, keys := fun x => if x = key then some q else none }

/-- Nobody offers the channel stored under `key` the one key or the other, and no operator of it
sets a key. -/
def Unopened (key p q : Text) (s : Server) (e : Event) : Prop :=
  ∀ fd line, e = .line fd line →
    ¬ (Command.parse line).Offers key p ∧ ¬ (Command.parse line).Offers key q ∧
      ∀ c, s.channels[key]? = some c → (Command.parse line).SetsKey key → c.isMemberOperator fd = false

/-- The channel stored under `key` has no key but `p`. -/
def Locked (key p : Text) (s : Server) : Prop :=
  ∀ c, s.channels[key]? = some c → c.hasKey = true → c.key = p

end Server

theorem ModeChain.key {κ : Core} {changes : List ModeChange} {c c' : Channel} {p : Text}
    (hchain : ModeChain κ changes c c')
    (h : ∀ change ∈ changes, ¬ (change.mode = 'k' ∧ change.adding = true))
    (hc : c.hasKey = true → c.key = p) : c'.hasKey = true → c'.key = p := by
  induction hchain with
  | refl => exact hc
  | tail _ hstep ih =>
    obtain ⟨change, hmem, happ⟩ := hstep
    cases happ with
    | setKey hmode hadding => exact absurd ⟨hmode, hadding⟩ (h change hmem)
    | removeKey => exact fun hkey => absurd hkey Bool.false_ne_true
    | setOperator target _ _ hm =>
      rw [Channel.setMemberOperator_eq ((Server.hasMember_iff _ target).1 hm)]
      exact ih
    | _ => exact ih

/-- Only an operator sets a key. -/
theorem ChannelMove.key {κ κ' : Core} {A : Fd} {command : Command} {key p : Text} {x x' : Option Channel}
    {c' : Channel} (h : ChannelMove κ κ' A command key x x') (hx' : x' = some c')
    (hset : ∀ c, x = some c → command.SetsKey key → c.isMemberOperator A = false)
    (hx : ∀ c, x = some c → c.hasKey = true → c.key = p) : c'.hasKey = true → c'.key = p := by
  cases h with
  | same => exact hx c' hx'
  | rename c nickname =>
    cases hx'
    rw [Core.renameInvite_kept]
    exact hx c rfl
  | create =>
    cases hx'
    exact fun hkey => absurd hkey Bool.false_ne_true
  | join _ _ c _ _ _ _ hm =>
    cases hx'
    rw [Channel.addMember_eq hm]
    exact hx c rfl
  | topic _ _ _ c => cases hx'; exact hx c rfl
  | kick _ _ _ c target =>
    rw [mem_of_kept hx']
    exact hx c rfl
  | invite _ _ _ c => cases hx'; exact hx c rfl
  | mode target rest changes c _ hname hparams hkey hop hchanges hchain =>
    cases hx'
    refine hchain.key (fun change hmem hmode => ?_) (hx c rfl)
    have hnot := hset c rfl ⟨hname, target, rest, changes, hparams, hkey, hchanges, change, hmem, hmode⟩
    rw [hop] at hnot
    cases hnot

namespace Server

variable {s s' : Server} {e : Event} {p q key : Text} {c : Channel}

theorem Reachable.locked (hr : Reachable s) (hs : s.Step e s') (h : Unopened key p q s e)
    (hlocked : Locked key p s) : Locked key p s' := by
  intro c' hc'
  rcases hr.channel_cases hs hc' with hsame | ⟨fd, c, hc, rfl⟩ | ⟨A, line, rfl, -, hmove⟩
  · exact hlocked c' hsame
  · exact hlocked c hc
  · exact hmove.key rfl (fun c hc => (h A line rfl).2.2 c hc) hlocked

/-- **The key of a channel does not show.**  From any reachable state, as long as nobody offers the
one key or the other and no operator sets one, the server with the other key goes through the same
states: same lines, buffers, members and answers. -/
theorem key_unobservable (hr : Reachable s) (hc : s.channels[key]? = some c) {es : List Event}
    (hrun : Transition.Run (fun s e s' => s.Step e s' ∧ Unopened key c.key q s e) s es s') :
    Transition.Run Step (s.withKey key q) es (s'.withKey key q) := by
  have hlocked : Locked key c.key s := by
    intro c' hc' _
    rw [hc] at hc'
    cases hc'
    rfl
  obtain ⟨⟨hpassword, -⟩, hrun'⟩ := run_disguise
    (I := fun t => t.password = s.password ∧ Locked key c.key t)
    (d := { password := s.password, keys := fun x => if x = key then some q else none })
    hr hrun ⟨rfl, hlocked⟩
    (fun t e ht hclosed fd line heq => by
      obtain ⟨hpassword, hlocked⟩ := ht
      obtain ⟨hold, hnew, hset⟩ := hclosed fd line heq
      have hkey {x r : Text} (hx : (if x = key then some q else none) = some r) : x = key ∧ q = r := by
        split at hx
        · next h => exact ⟨h, Option.some.inj hx⟩
        · cases hx
      refine ⟨by rw [show t.core.password = s.password from hpassword], ?_, ?_⟩
      · intro x r d hx hd hhas
        obtain ⟨rfl, rfl⟩ := hkey hx
        rw [hlocked d hd hhas]
        exact iff_of_false hold hnew
      · intro x r d hx hd
        obtain ⟨rfl, rfl⟩ := hkey hx
        exact hset d hd)
    (fun t e t' ht hs hclosed hI =>
      ⟨(hs.password ht.ok.membersLive).trans hI.1, ht.locked hs hclosed hI.2⟩)
  unfold withKey
  rw [hpassword]
  exact hrun'

/-- `bob` on 4 has locked `#c`; `al` on 5 tries a key that is neither of the two. -/
theorem key_unobservable_session :
    ∃ (s s' : Server) (c : Channel), s.Reachable ∧ s.channels["#c".toList]? = some c ∧
      c.key = "pw".toList ∧
      s.Step (.line 5 "JOIN #c guess".toList) s' ∧
      Transition.Run Step (s.withKey "#c".toList "other".toList) [.line 5 "JOIN #c guess".toList]
        (s'.withKey "#c".toList "other".toList) := by
  have hview : ((session.step (.line 4 "MODE #c +k pw".toList)).bind fun s =>
      (s.step (.line 5 "JOIN #c guess".toList)).map fun _ =>
        (s.channels["#c".toList]?).map (·.key)) = some (some "pw".toList) := by decide +kernel
  have hr := session_reachable
  generalize session = s₀ at *
  obtain ⟨s, hs, hview⟩ := Option.bind_eq_some_iff.1 hview
  obtain ⟨s', hs', hview⟩ := Option.map_eq_some_iff.1 hview
  obtain ⟨c, hc, hkey⟩ := Option.map_eq_some_iff.1 hview
  have hquiet : Unopened "#c".toList c.key "other".toList s (.line 5 "JOIN #c guess".toList) := by
    intro fd line heq
    cases heq
    have hparse : Command.parse "JOIN #c guess".toList =
        ⟨true, "JOIN".toList, ["#c".toList, "guess".toList]⟩ := by decide
    rw [hparse, hkey]
    have hoffers {p : Text} (hp : "guess".toList ≠ p) :
        ¬ (⟨true, "JOIN".toList, ["#c".toList, "guess".toList]⟩ : Command).Offers "#c".toList p := by
      rintro ⟨-, _, _, heq, -, hoffer⟩
      cases heq
      exact hp hoffer
    exact ⟨hoffers (by decide), hoffers (by decide), fun _ _ hset => absurd hset.1 (by decide)⟩
  exact ⟨s, s', c, hr.step hs, hc, hkey, hs',
    key_unobservable (hr.step hs) hc (Transition.Run.single ⟨hs', hquiet⟩)⟩

end Server

end FtIrc
