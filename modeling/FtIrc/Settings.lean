import FtIrc.Handlers.Mode
import FtIrc.Lib.Writes

/-!
# Modes as settings

A mode change that is acceptable writes one setting of the channel: a flag, the key, the user
limit or the operator flag of a member.  `core_applyChannelModeChange` says that this is all
that the five apply functions do.
-/

namespace FtIrc

open Std

inductive Setting where
  | inviteOnly
  | topicRestricted
  | key
  | userLimit
  | operator (member : Fd)
deriving DecidableEq

inductive Setting.Value where
  | enabled (enabled : Bool)
  | key (key : Option Text)
  | limit (limit : Option Nat)
deriving DecidableEq

inductive ModeWrite where
  | inviteOnly (enabled : Bool)
  | topicRestricted (enabled : Bool)
  | key (key : Option Text)
  | userLimit (limit : Option Nat)
  | operator (member : Fd) (enabled : Bool)
deriving DecidableEq

namespace ModeWrite

def setting : ModeWrite → Setting
  | .inviteOnly _ => .inviteOnly
  | .topicRestricted _ => .topicRestricted
  | .key _ => .key
  | .userLimit _ => .userLimit
  | .operator member _ => .operator member

def value : ModeWrite → Setting.Value
  | .inviteOnly enabled => .enabled enabled
  | .topicRestricted enabled => .enabled enabled
  | .key password => .key password
  | .userLimit limit => .limit limit
  | .operator _ enabled => .enabled enabled

end ModeWrite

namespace Channel

variable (c : Channel)

def read : Setting → Setting.Value
  | .inviteOnly => .enabled c.inviteOnly
  | .topicRestricted => .enabled c.topicRestricted
  | .key => .key (if c.hasKey then some c.key else none)
  | .userLimit => .limit (if c.hasUserLimit then some c.userLimit else none)
  | .operator member => .enabled (c.isMemberOperator member)

def write : ModeWrite → Channel
  | .inviteOnly enabled => c.setInviteOnly enabled
  | .topicRestricted enabled => c.setTopicRestricted enabled
  | .key (some key) => c.setKey key
  | .key none => c.removeKey
  | .userLimit (some limit) => c.setUserLimit limit
  | .userLimit none => c.removeUserLimit
  | .operator member enabled => c.setMemberOperator member enabled

/-- A write to a setting that has the value already is left out. -/
def revise (w : ModeWrite) : Channel := if c.read w.setting = w.value then c else c.write w

/-- A write of an operator flag is one of a member's. -/
def Accepts (w : ModeWrite) : Prop := ∀ member enabled, w = .operator member enabled → member ∈ c.members

end Channel

/-- What `change` writes, if it is acceptable: the mode is known, a key is not empty, a limit is
valid, an operator is a member. -/
def ModeChange.writes (κ : Core) (c : Channel) (change : ModeChange) : Option ModeWrite :=
  if change.mode = 'i' then some (.inviteOnly change.adding)
  else if change.mode = 't' then some (.topicRestricted change.adding)
  else if change.mode = 'k' then
    if change.adding then
      if change.argument = [] then none else some (.key (some change.argument))
    else some (.key none)
  else if change.mode = 'o' then
    ((κ.holder change.argument).filter c.hasMember).map (.operator · change.adding)
  else if change.mode = 'l' then
    if change.adding then
      (Server.parsePositiveUserLimit change.argument).map fun limit => .userLimit (some limit)
    else some (.userLimit none)
  else none

namespace Channel

variable {c : Channel}

theorem setMemberOperator_eq {member : Fd} (h : member ∈ c.members) (enabled : Bool) :
    c.setMemberOperator member enabled = { c with members := c.members.insert member enabled } := by
  unfold setMemberOperator
  rw [if_pos ((Server.hasMember_iff c member).2 h)]

theorem isMemberOperator_write {member : Fd} (h : member ∈ c.members) (enabled : Bool) (m : Fd) :
    (c.setMemberOperator member enabled).isMemberOperator m =
      if member = m then enabled else c.isMemberOperator m := by
  rw [setMemberOperator_eq h]
  unfold isMemberOperator
  dsimp only
  rw [ExtTreeMap.getElem?_insert]
  simp only [Std.compare_eq_iff_eq]
  split <;> rfl

/-- A write sets its own setting and no other. -/
theorem read_write {w : ModeWrite} (h : c.Accepts w) (k : Setting) :
    (c.write w).read k = if w.setting = k then w.value else c.read k := by
  cases w with
  | inviteOnly enabled => cases k <;> rfl
  | topicRestricted enabled => cases k <;> rfl
  | key password => cases password <;> cases k <;> rfl
  | userLimit limit => cases limit <;> cases k <;> rfl
  | operator member enabled =>
    have hmember := h member enabled rfl
    cases k with
    | operator m =>
      show Setting.Value.enabled ((c.setMemberOperator member enabled).isMemberOperator m) = _
      rw [isMemberOperator_write hmember]
      simp only [ModeWrite.setting, Setting.operator.injEq, ModeWrite.value, read]
      split <;> rfl
    | _ =>
      show (c.setMemberOperator member enabled).read _ = _
      rw [setMemberOperator_eq hmember]
      rfl

/-- A write keeps all that is no setting. -/
theorem write_kept (w : ModeWrite) :
    (c.write w).name = c.name ∧ (c.write w).topic = c.topic ∧
      (c.write w).invitedUsers = c.invitedUsers ∧ ∀ m, m ∈ (c.write w).members ↔ m ∈ c.members := by
  cases w with
  | key password => cases password <;> exact ⟨rfl, rfl, rfl, fun _ => Iff.rfl⟩
  | userLimit limit => cases limit <;> exact ⟨rfl, rfl, rfl, fun _ => Iff.rfl⟩
  | operator member enabled =>
    refine ⟨setMemberOperator_name c member enabled, setMemberOperator_topic c member enabled, ?_, fun m =>
      mem_setMemberOperator⟩
    show (c.setMemberOperator member enabled).invitedUsers = _
    unfold setMemberOperator
    split <;> rfl
  | _ => exact ⟨rfl, rfl, rfl, fun _ => Iff.rfl⟩

theorem revise_kept (w : ModeWrite) :
    (c.revise w).name = c.name ∧ (c.revise w).topic = c.topic ∧
      (c.revise w).invitedUsers = c.invitedUsers ∧ ∀ m, m ∈ (c.revise w).members ↔ m ∈ c.members := by
  unfold revise
  split
  · exact ⟨rfl, rfl, rfl, fun _ => Iff.rfl⟩
  · exact write_kept w

/-- The settings of a channel are a store. -/
theorem settings_lawful :
    Writes.Lawful read revise ModeWrite.setting ModeWrite.value Accepts where
  get_put c w k h := by
    unfold revise
    split
    · next hsame =>
      split
      · next hk => rw [← hk, hsame]
      · rfl
    · exact read_write h k
  valid_put c w w' _ h' member enabled heq :=
    ((revise_kept w).2.2.2 member).2 (h' member enabled heq)

/-! ## Channels with the same settings -/

/-- A key or a limit that is not set is the one of the constructor. -/
structure Cleared (c : Channel) : Prop where
  key : c.hasKey = false → c.key = []
  userLimit : c.hasUserLimit = false → c.userLimit = 0

theorem Cleared.write (h : c.Cleared) (w : ModeWrite) : (c.write w).Cleared := by
  cases w with
  | inviteOnly => exact ⟨h.key, h.userLimit⟩
  | topicRestricted => exact ⟨h.key, h.userLimit⟩
  | key password =>
    cases password with
    | none => exact ⟨fun _ => rfl, h.userLimit⟩
    | some => exact ⟨nofun, h.userLimit⟩
  | userLimit limit =>
    cases limit with
    | none => exact ⟨h.key, fun _ => rfl⟩
    | some => exact ⟨h.key, nofun⟩
  | operator member enabled =>
    show (c.setMemberOperator member enabled).Cleared
    unfold setMemberOperator
    split
    · exact ⟨h.key, h.userLimit⟩
    · exact h

theorem Cleared.revise (h : c.Cleared) (w : ModeWrite) : (c.revise w).Cleared := by
  unfold Channel.revise
  split
  · exact h
  · exact h.write w

theorem getElem?_members (c : Channel) (m : Fd) :
    c.members[m]? = if c.hasMember m then some (c.isMemberOperator m) else none := by
  unfold hasMember isMemberOperator
  rw [ExtTreeMap.contains_eq_isSome_getElem?]
  cases c.members[m]? <;> rfl

theorem eq_of_option {α : Type} {set set' : Bool} {x x' blank : α} (h : set = false → x = blank)
    (h' : set' = false → x' = blank) (heq : (if set then some x else none) = if set' then some x' else none) :
    set = set' ∧ x = x' := by
  cases set <;> cases set'
  · exact ⟨rfl, (h rfl).trans (h' rfl).symm⟩
  · cases heq
  · cases heq
  · exact ⟨rfl, Option.some.inj heq⟩

/-- **A channel is its name, topic, invitations, members and settings.** -/
theorem ext_settings {c' : Channel} (h : c.Cleared) (h' : c'.Cleared) (hname : c.name = c'.name)
    (htopic : c.topic = c'.topic) (hinvited : c.invitedUsers = c'.invitedUsers)
    (hmembers : ∀ m, m ∈ c.members ↔ m ∈ c'.members) (hread : ∀ k, c.read k = c'.read k) : c = c' := by
  have hinviteOnly : c.inviteOnly = c'.inviteOnly := Setting.Value.enabled.inj (hread .inviteOnly)
  have htopicRestricted : c.topicRestricted = c'.topicRestricted :=
    Setting.Value.enabled.inj (hread .topicRestricted)
  obtain ⟨hhasKey, hkey⟩ := eq_of_option h.key h'.key (Setting.Value.key.inj (hread .key))
  obtain ⟨hhasUserLimit, huserLimit⟩ :=
    eq_of_option h.userLimit h'.userLimit (Setting.Value.limit.inj (hread .userLimit))
  have hmap : c.members = c'.members := by
    apply ExtTreeMap.ext_getElem?
    intro m
    have hop : c.isMemberOperator m = c'.isMemberOperator m :=
      Setting.Value.enabled.inj (hread (.operator m))
    have hmember : c.hasMember m = c'.hasMember m := by
      rw [Bool.eq_iff_iff, Server.hasMember_iff, Server.hasMember_iff]
      exact hmembers m
    rw [getElem?_members, getElem?_members, hop, hmember]
  cases c
  cases c'
  simp only [Channel.mk.injEq]
  exact ⟨hname, htopic, hmap, hinvited, hinviteOnly, htopicRestricted, hhasKey, hkey, hhasUserLimit, huserLimit⟩

end Channel

/-! ## What the apply functions do -/

theorem ModeChange.accepts {κ : Core} {c : Channel} {change : ModeChange} {w : ModeWrite}
    (h : change.writes κ c = some w) : c.Accepts w := by
  rintro member enabled rfl
  unfold writes at h
  split at h
  · cases h
  split at h
  · cases h
  split at h
  · split at h
    · split at h <;> cases h
    · cases h
  split at h
  · obtain ⟨m, hm, heq⟩ := Option.map_eq_some_iff.1 h
    cases heq
    exact (Server.hasMember_iff c member).1 (Option.filter_eq_some_iff.1 hm).2
  split at h
  · split at h
    · obtain ⟨limit, -, heq⟩ := Option.map_eq_some_iff.1 h
      cases heq
    · cases h
  · cases h

/-- The channel after `change`. -/
def Channel.apply (κ : Core) (c : Channel) (change : ModeChange) : Channel :=
  (change.writes κ c).elim c c.revise

theorem Core.setChannel_self {κ : Core} {key : Text} {c : Channel} (h : κ.channels[key]? = some c) :
    κ.setChannel key c = κ := by
  unfold setChannel
  have hsame : κ.channels.insert key c = κ.channels := by
    apply ExtTreeMap.ext_getElem?
    intro k
    rw [ExtTreeMap.getElem?_insert]
    simp only [Std.compare_eq_iff_eq]
    split
    · next hk => rw [← hk, h]
    · rfl
  rw [hsame]

theorem Core.setChannel_setChannel (κ : Core) (key : Text) (c c' : Channel) :
    (κ.setChannel key c).setChannel key c' = κ.setChannel key c' := by
  unfold setChannel
  have hinsert : (κ.channels.insert key c).insert key c' = κ.channels.insert key c' := by
    apply ExtTreeMap.ext_getElem?
    intro k
    simp only [ExtTreeMap.getElem?_insert, Std.compare_eq_iff_eq]
    split <;> rfl
  rw [hinsert]

namespace Server

variable {s : Server} {fd : Fd} {key : Text} {c : Channel} {change : ModeChange}

section Change

variable (hc : s.core.channels[key]? = some c)

include hc

theorem core_refused (hw : change.writes s.core c = none) (code text : Text) :
    (s.sendNumeric fd code (.text text)).core = s.core.setChannel key (c.apply s.core change) := by
  unfold Channel.apply
  rw [hw, Option.elim_none, core_sendNumeric, Core.setChannel_self hc]

theorem core_idle {w : ModeWrite} (hw : change.writes s.core c = some w) (h : c.read w.setting = w.value) :
    s.core = s.core.setChannel key (c.apply s.core change) := by
  unfold Channel.apply Channel.revise
  rw [hw, Option.elim_some, if_pos h, Core.setChannel_self hc]

omit hc in
theorem core_written {w : ModeWrite} (hw : change.writes s.core c = some w) (h : c.read w.setting ≠ w.value)
    {c' : Channel} (hc' : c.write w = c') :
    ((s.setChannel key c').broadcastModeChange fd c' change).core =
      s.core.setChannel key (c.apply s.core change) := by
  unfold Channel.apply Channel.revise broadcastModeChange
  rw [hw, Option.elim_some, if_neg h, core_broadcastToChannel, core_setChannel, hc']

theorem core_applyInviteOnlyMode (hmode : change.mode = 'i') :
    (s.applyInviteOnlyMode fd key c change).core = s.core.setChannel key (c.apply s.core change) := by
  have hw : change.writes s.core c = some (.inviteOnly change.adding) := if_pos hmode
  unfold applyInviteOnlyMode
  split
  · next h => exact core_idle hc hw (congrArg _ h)
  · next h => exact core_written hw (mt Setting.Value.enabled.inj h) rfl

theorem core_applyTopicRestrictedMode (hmode : change.mode = 't') :
    (s.applyTopicRestrictedMode fd key c change).core = s.core.setChannel key (c.apply s.core change) := by
  have hw : change.writes s.core c = some (.topicRestricted change.adding) := by
    simp [ModeChange.writes, hmode]
  unfold applyTopicRestrictedMode
  split
  · next h => exact core_idle hc hw (congrArg _ h)
  · next h => exact core_written hw (mt Setting.Value.enabled.inj h) rfl

theorem core_applyKeyMode (hmode : change.mode = 'k') :
    (s.applyKeyMode fd key c change).core = s.core.setChannel key (c.apply s.core change) := by
  unfold applyKeyMode
  split
  · next hadding =>
    split
    · next harg =>
      exact core_refused hc (by simp [ModeChange.writes, hmode, hadding, List.isEmpty_iff.1 harg]) _ _
    next harg =>
    have hw : change.writes s.core c = some (.key (some change.argument)) := by
      simp [ModeChange.writes, hmode, hadding, mt List.isEmpty_iff.2 harg]
    have hread : (c.hasKey && c.key == change.argument) = true ↔
        c.read .key = .key (some change.argument) := by
      simp [Channel.read]
    split
    · next h => exact core_idle hc hw (hread.1 h)
    · next h => exact core_written hw (mt hread.2 h) rfl
  · next hadding =>
    have hw : change.writes s.core c = some (.key none) := by simp [ModeChange.writes, hmode, hadding]
    have hread : (!c.hasKey) = true ↔ c.read .key = .key none := by simp [Channel.read]
    split
    · next h => exact core_idle hc hw (hread.1 h)
    · next h => exact core_written hw (mt hread.2 h) rfl

theorem core_applyOperatorMode (hmode : change.mode = 'o') :
    (s.applyOperatorMode fd key c change).core = s.core.setChannel key (c.apply s.core change) := by
  have hwrites : change.writes s.core c =
      ((s.core.holder change.argument).filter c.hasMember).map (.operator · change.adding) := by
    simp [ModeChange.writes, hmode]
  unfold applyOperatorMode
  rw [findClientByNickname_eq]
  split
  · next hnone => exact core_refused hc (by rw [hwrites, hnone]; rfl) _ _
  next target htarget =>
  rw [htarget, Option.filter_some] at hwrites
  split
  · next hmember => exact core_refused hc (by rw [hwrites, if_neg (by simpa using hmember)]; rfl) _ _
  next hmember =>
  rw [if_pos (by simpa using hmember), Option.map_some] at hwrites
  split
  · next h => exact core_idle hc hwrites (congrArg _ h)
  · next h => exact core_written hwrites (mt Setting.Value.enabled.inj h) rfl

theorem core_applyUserLimitMode (hmode : change.mode = 'l') :
    (s.applyUserLimitMode fd key c change).core = s.core.setChannel key (c.apply s.core change) := by
  unfold applyUserLimitMode
  split
  · next hadding =>
    have hwrites : change.writes s.core c = (parsePositiveUserLimit change.argument).map
        fun limit => .userLimit (some limit) := by simp [ModeChange.writes, hmode, hadding]
    split
    · next hnone => exact core_refused hc (by rw [hwrites, hnone]; rfl) _ _
    next limit hlimit =>
    rw [hlimit, Option.map_some] at hwrites
    have hread : (c.hasUserLimit && c.userLimit == limit) = true ↔
        c.read .userLimit = .limit (some limit) := by
      simp [Channel.read]
    split
    · next h => exact core_idle hc hwrites (hread.1 h)
    · next h => exact core_written hwrites (mt hread.2 h) rfl
  · next hadding =>
    have hw : change.writes s.core c = some (.userLimit none) := by
      simp [ModeChange.writes, hmode, hadding]
    have hread : (!c.hasUserLimit) = true ↔ c.read .userLimit = .limit none := by simp [Channel.read]
    split
    · next h => exact core_idle hc hw (hread.1 h)
    · next h => exact core_written hw (mt hread.2 h) rfl

/-- **A mode change writes its setting, and changes nothing else of the core.** -/
theorem core_applyChannelModeChange :
    (s.applyChannelModeChange fd key change).core = s.core.setChannel key (c.apply s.core change) := by
  unfold applyChannelModeChange
  rw [show s.channels[key]? = some c from hc]
  dsimp only
  split
  · next hmode => exact core_applyInviteOnlyMode hc hmode
  next hi =>
  split
  · next hmode => exact core_applyTopicRestrictedMode hc hmode
  next ht =>
  split
  · next hmode => exact core_applyKeyMode hc hmode
  next hk =>
  split
  · next hmode => exact core_applyOperatorMode hc hmode
  next ho =>
  split
  · next hmode => exact core_applyUserLimitMode hc hmode
  next hl =>
  exact core_refused hc (by simp [ModeChange.writes, hi, ht, hk, ho, hl]) _ _

end Change

/-- A change reads the core only. -/
theorem core_applyChannelModeChange_congr {t : Server} (hcore : t.core = s.core) (key : Text)
    (change : ModeChange) :
    (t.applyChannelModeChange fd key change).core = (s.applyChannelModeChange fd key change).core := by
  cases hc : s.core.channels[key]? with
  | none =>
    have hc' : t.core.channels[key]? = none := by rw [hcore, hc]
    unfold applyChannelModeChange
    rw [show s.channels[key]? = none from hc, show t.channels[key]? = none from hc']
    exact hcore
  | some c => rw [core_applyChannelModeChange hc, core_applyChannelModeChange (by rw [hcore, hc]), hcore]

theorem core_applyChannelModeChanges_congr {t : Server} (hcore : t.core = s.core) (key : Text)
    (changes : List ModeChange) :
    (changes.foldl (fun s change => s.applyChannelModeChange fd key change) t).core =
      (changes.foldl (fun s change => s.applyChannelModeChange fd key change) s).core := by
  induction changes generalizing s t with
  | nil => exact hcore
  | cons change changes ih => exact ih (core_applyChannelModeChange_congr hcore key change)

end Server

/-! ## A whole MODE line -/

theorem ModeChange.writes_congr {κ : Core} {c c' : Channel} (h : ∀ m, m ∈ c'.members ↔ m ∈ c.members)
    (change : ModeChange) : change.writes κ c' = change.writes κ c := by
  have hmember : c'.hasMember = c.hasMember := by
    funext m
    rw [Bool.eq_iff_iff, Server.hasMember_iff, Server.hasMember_iff]
    exact h m
  unfold writes
  rw [hmember]

namespace Channel

variable {c : Channel} {κ : Core}

theorem apply_kept (κ : Core) (c : Channel) (change : ModeChange) :
    (c.apply κ change).name = c.name ∧ (c.apply κ change).topic = c.topic ∧
      (c.apply κ change).invitedUsers = c.invitedUsers ∧
      ∀ m, m ∈ (c.apply κ change).members ↔ m ∈ c.members := by
  unfold apply
  cases change.writes κ c with
  | none => exact ⟨rfl, rfl, rfl, fun _ => Iff.rfl⟩
  | some w => exact revise_kept w

theorem Cleared.apply (h : c.Cleared) (change : ModeChange) : (c.apply κ change).Cleared := by
  unfold Channel.apply
  cases change.writes κ c with
  | none => exact h
  | some w => exact h.revise w

theorem foldl_apply_kept (changes : List ModeChange) :
    (changes.foldl (apply κ) c).name = c.name ∧ (changes.foldl (apply κ) c).topic = c.topic ∧
      (changes.foldl (apply κ) c).invitedUsers = c.invitedUsers ∧
      ∀ m, m ∈ (changes.foldl (apply κ) c).members ↔ m ∈ c.members := by
  induction changes generalizing c with
  | nil => exact ⟨rfl, rfl, rfl, fun _ => Iff.rfl⟩
  | cons change changes ih =>
    obtain ⟨h1, h2, h3, h4⟩ := ih (c := c.apply κ change)
    obtain ⟨h1', h2', h3', h4'⟩ := apply_kept κ c change
    exact ⟨h1.trans h1', h2.trans h2', h3.trans h3', fun m => (h4 m).trans (h4' m)⟩

theorem Cleared.foldl_apply (h : c.Cleared) (changes : List ModeChange) :
    (changes.foldl (Channel.apply κ) c).Cleared := by
  induction changes generalizing c with
  | nil => exact h
  | cons change changes ih => exact ih (h.apply change)

/-- The changes that are acceptable write, one after the other. -/
theorem foldl_apply (changes : List ModeChange) :
    changes.foldl (apply κ) c = (changes.filterMap (·.writes κ c)).foldl revise c := by
  have haux : ∀ c₁ : Channel, (∀ m, m ∈ c₁.members ↔ m ∈ c.members) →
      changes.foldl (apply κ) c₁ = (changes.filterMap (·.writes κ c)).foldl revise c₁ := by
    induction changes with
    | nil => exact fun _ _ => rfl
    | cons change changes ih =>
      intro c₁ hmembers
      have hwrites := change.writes_congr (κ := κ) hmembers
      rw [List.foldl_cons, ih _ fun m => ((apply_kept κ c₁ change).2.2.2 m).trans (hmembers m)]
      unfold apply
      rw [hwrites]
      cases hw : change.writes κ c with
      | none => rw [List.filterMap_cons_none hw, Option.elim_none]
      | some w => rw [List.filterMap_cons_some hw, Option.elim_some, List.foldl_cons]
  exact haux c fun _ => Iff.rfl

/-- **The last acceptable change of a setting wins.** -/
theorem read_foldl_apply (changes : List ModeChange) (k : Setting) :
    (changes.foldl (apply κ) c).read k =
      (Writes.last ModeWrite.setting ModeWrite.value (changes.filterMap (·.writes κ c)) k).getD (c.read k) := by
  rw [foldl_apply]
  refine settings_lawful.get_foldl (fun w hw => ?_) k
  obtain ⟨change, -, hwrites⟩ := List.mem_filterMap.1 hw
  exact ModeChange.accepts hwrites

/-- **A MODE line handled twice leaves what it left at first.** -/
theorem foldl_apply_twice (h : c.Cleared) (changes : List ModeChange) :
    changes.foldl (apply κ) (changes.foldl (apply κ) c) = changes.foldl (apply κ) c := by
  have hfirst := foldl_apply_kept (κ := κ) (c := c) changes
  have hsecond := foldl_apply_kept (κ := κ) (c := changes.foldl (apply κ) c) changes
  refine ext_settings ((h.foldl_apply changes).foldl_apply changes) (h.foldl_apply changes) hsecond.1
    hsecond.2.1 hsecond.2.2.1 hsecond.2.2.2 fun k => ?_
  have hwrites : (changes.filterMap (·.writes κ (changes.foldl (apply κ) c))) =
      changes.filterMap (·.writes κ c) := by
    refine congrArg (List.filterMap · changes) (funext fun change => ?_)
    exact change.writes_congr hfirst.2.2.2
  rw [foldl_apply, hwrites, foldl_apply]
  refine settings_lawful.get_foldl_twice (fun w hw => ?_) k
  obtain ⟨change, -, hchange⟩ := List.mem_filterMap.1 hw
  exact ModeChange.accepts hchange

end Channel

namespace Server

variable {s : Server} {fd : Fd} {key : Text} {c : Channel}

theorem core_applyChannelModeChanges (hc : s.core.channels[key]? = some c) (changes : List ModeChange) :
    (changes.foldl (fun s change => s.applyChannelModeChange fd key change) s).core =
      s.core.setChannel key (changes.foldl (Channel.apply s.core) c) := by
  induction changes generalizing s c with
  | nil => exact (Core.setChannel_self hc).symm
  | cons change changes ih =>
    have hfirst : (s.applyChannelModeChange fd key change).core =
        s.core.setChannel key (c.apply s.core change) := core_applyChannelModeChange hc
    have hnow : (s.applyChannelModeChange fd key change).core.channels[key]? =
        some (c.apply s.core change) := by
      rw [hfirst]
      exact ExtTreeMap.getElem?_insert_self
    rw [List.foldl_cons, ih hnow, hfirst]
    exact Core.setChannel_setChannel _ _ _ _

end Server

end FtIrc
