import FtIrc.Modes
import FtIrc.Numbers

/-!
# The user limit of a channel

A limit in force is the number that the argument of the last accepted `+l` stands for.
-/

namespace FtIrc

open Std

/-- The argument of a `+l` that is acceptable. -/
def ModeChange.limitArgument (change : ModeChange) : Option Text :=
  if change.mode = 'l' ∧ change.adding = true ∧ (Server.parsePositiveUserLimit change.argument).isSome then
    some change.argument
  else none

/-! ## One change, and the changes of a line -/

/-- The writes to the user limit. -/
theorem ModeChange.writes_userLimit {κ : Core} {c : Channel} {change : ModeChange} {w : ModeWrite}
    (h : change.writes κ c = some w) (hw : w.setting = .userLimit) :
    change.mode = 'l' ∧
      ((∃ limit, Server.parsePositiveUserLimit change.argument = some limit ∧ change.adding = true ∧
        w = .userLimit (some limit)) ∨ w = .userLimit none) := by
  unfold writes at h
  split at h
  · cases h; cases hw
  split at h
  · cases h; cases hw
  split at h
  · have hkey : ∃ password, w = .key password := by
      split at h
      · split at h
        · cases h
        · cases h; exact ⟨_, rfl⟩
      · cases h; exact ⟨_, rfl⟩
    obtain ⟨password, rfl⟩ := hkey
    cases hw
  split at h
  · obtain ⟨target, -, rfl⟩ := Option.map_eq_some_iff.1 h
    cases hw
  split at h
  · next hmode =>
    refine ⟨hmode, ?_⟩
    split at h
    · next hadding =>
      obtain ⟨limit, hlimit, rfl⟩ := Option.map_eq_some_iff.1 h
      exact Or.inl ⟨limit, hlimit, hadding, rfl⟩
    · cases h
      exact Or.inr rfl
  · cases h

theorem ModeChange.writes_limitArgument {κ : Core} {c : Channel} {change : ModeChange} {argument : Text}
    (h : change.limitArgument = some argument) :
    ∃ limit, Server.parsePositiveUserLimit argument = some limit ∧
      change.writes κ c = some (.userLimit (some limit)) := by
  unfold limitArgument at h
  split at h
  · next hl =>
    cases h
    obtain ⟨hmode, hadding, hsome⟩ := hl
    obtain ⟨limit, hlimit⟩ := Option.isSome_iff_exists.1 hsome
    refine ⟨limit, hlimit, ?_⟩
    simp [writes, hmode, hadding, hlimit]
  · cases h

namespace Channel

variable {κ : Core} {c : Channel} {n : Nat}

/-- A change that leaves a limit in force is a `+l` with that limit, or no `+l` and the limit was
in force already. -/
theorem limit_of_apply {change : ModeChange}
    (h : (c.apply κ change).read .userLimit = .limit (some n)) :
    (∃ argument, change.limitArgument = some argument ∧
      Server.parsePositiveUserLimit argument = some n) ∨
    change.limitArgument = none ∧ c.read .userLimit = .limit (some n) := by
  unfold apply at h
  cases harg : change.limitArgument with
  | some argument =>
    obtain ⟨limit, hlimit, hw⟩ := ModeChange.writes_limitArgument (κ := κ) (c := c) harg
    rw [hw, Option.elim_some, settings_lawful.get_put _ _ _ (ModeChange.accepts hw)] at h
    cases h
    exact Or.inl ⟨argument, rfl, hlimit⟩
  | none =>
    refine Or.inr ⟨rfl, ?_⟩
    cases hw : change.writes κ c with
    | none =>
      rw [hw] at h
      exact h
    | some w =>
      rw [hw, Option.elim_some, settings_lawful.get_put _ _ _ (ModeChange.accepts hw)] at h
      split at h
      · next hsetting =>
        obtain ⟨hmode, ⟨limit, hlimit, hadding, rfl⟩ | rfl⟩ := ModeChange.writes_userLimit hw hsetting
        · simp [ModeChange.limitArgument, hmode, hadding, hlimit] at harg
        · cases h
      · exact h

/-- The changes of one line: the last acceptable `+l` counts. -/
theorem limit_of_foldl_apply {changes : List ModeChange}
    (h : (changes.foldl (apply κ) c).read .userLimit = .limit (some n)) :
    (∃ before argument, changes.filterMap ModeChange.limitArgument = before ++ [argument] ∧
      Server.parsePositiveUserLimit argument = some n) ∨
    changes.filterMap ModeChange.limitArgument = [] ∧ c.read .userLimit = .limit (some n) := by
  induction changes using List.reverseRecOn with
  | nil => exact Or.inr ⟨rfl, h⟩
  | append_singleton changes change ih =>
    rw [List.foldl_append, List.foldl_cons, List.foldl_nil] at h
    rw [List.filterMap_append]
    rcases limit_of_apply h with ⟨argument, harg, hlimit⟩ | ⟨harg, h⟩
    · exact Or.inl ⟨_, argument, by rw [List.filterMap_cons_some harg, List.filterMap_nil], hlimit⟩
    · rw [List.filterMap_cons_none harg, List.filterMap_nil, List.append_nil]
      exact ih h

end Channel

/-! ## One command -/

/-- No setting but an operator flag is a matter of topic, members or invitations. -/
theorem Channel.read_with {k : Setting} (hk : ∀ m, k ≠ .operator m) (c : Channel) (topic : Text)
    (members : MemberMap) (invitedUsers : ExtTreeSet Text) :
    ({ c with topic := topic, members := members, invitedUsers := invitedUsers } : Channel).read k = c.read k := by
  cases k with
  | operator m => exact absurd rfl (hk m)
  | _ => rfl

/-- **Apart from operator flags only a MODE of an operator writes a setting.** -/
theorem ChannelMove.read_eq {κ κ' : Core} {A : Fd} {command : Command} {key : Text} {x y : Option Channel}
    {c' : Channel} (h : ChannelMove κ κ' A command key x y) (hy : y = some c') {k : Setting}
    (hk : ∀ m, k ≠ .operator m) :
    (∃ c, x = some c ∧ c'.read k = c.read k) ∨
    (x = none ∧ c'.read k = ({ name := c'.name } : Channel).read k) ∨
    ∃ target rest c changes, x = some c ∧ command.name = "MODE".toList ∧
      command.parameters = target :: rest ∧ ircCaseFold target = key ∧ c.isMemberOperator A = true ∧
      Server.parseChannelModeChanges command.parameters = some changes := by
  cases h with
  | same => exact Or.inl ⟨c', hy, rfl⟩
  | rename c nickname =>
    cases hy
    refine Or.inl ⟨c, rfl, ?_⟩
    rw [Core.renameInvite_kept]
    exact Channel.read_with hk c _ _ _
  | create channelName =>
    cases hy
    exact Or.inr (Or.inl ⟨rfl, Channel.read_with hk { name := channelName } _ _ _⟩)
  | join _ _ c _ _ _ _ hmem =>
    cases hy
    refine Or.inl ⟨c, rfl, ?_⟩
    rw [Channel.addMember_eq hmem]
    exact Channel.read_with hk c _ _ _
  | topic _ _ _ c => cases hy; exact Or.inl ⟨c, rfl, Channel.read_with hk c _ _ _⟩
  | kick _ _ _ c target =>
    rw [mem_of_kept hy]
    exact Or.inl ⟨c, rfl, Channel.read_with hk c _ _ _⟩
  | invite _ _ _ c => cases hy; exact Or.inl ⟨c, rfl, Channel.read_with hk c _ _ _⟩
  | mode target rest changes c _ hname hparams hkey hop hchanges =>
    exact Or.inr (Or.inr ⟨target, rest, c, changes, rfl, hname, hparams, hkey, hop, hchanges⟩)

/-! ## Steps -/

namespace Server

/-- The arguments of the `+l` that handling `e` accepts for the channel under `key`, in order:
those of a MODE line of an operator whose mode string can be parsed. -/
def limitsAccepted (s : Server) (key : Text) : Event → List Text
  | .line A line =>
    match Command.parse line with
    | ⟨true, name, target :: rest⟩ =>
      if name = "MODE".toList ∧ ircCaseFold target = key ∧
          (s.findChannel target).any (·.isMemberOperator A) = true then
        ((parseChannelModeChanges (target :: rest)).getD []).filterMap ModeChange.limitArgument
      else []
    | _ => []
  | _ => []

/-- The limit `n` is in force in the channel under `key`. -/
def Limited (key : Text) (n : Nat) (s : Server) : Prop :=
  ∃ c, s.channels[key]? = some c ∧ c.read .userLimit = .limit (some n)

variable {s s' : Server} {e : Event} {key : Text} {n : Nat}

theorem limitsAccepted_mode {A : Fd} {line target : Text} {rest : List Text} {c : Channel}
    {changes : List ModeChange} (hparse : Command.parse line = ⟨true, "MODE".toList, target :: rest⟩)
    (hkey : ircCaseFold target = key) (hc : s.findChannel target = some c)
    (hop : c.isMemberOperator A = true) (hchanges : parseChannelModeChanges (target :: rest) = some changes) :
    s.limitsAccepted key (.line A line) = changes.filterMap ModeChange.limitArgument := by
  unfold limitsAccepted
  dsimp only
  rw [hparse]
  dsimp only
  rw [hc, hchanges, if_pos ⟨rfl, hkey, hop⟩]
  rfl

/-- Only such a line sets a limit. -/
theorem mode_of_limitsAccepted (h : s.limitsAccepted key e ≠ []) :
    ∃ A line target rest c changes, e = .line A line ∧
      Command.parse line = ⟨true, "MODE".toList, target :: rest⟩ ∧ ircCaseFold target = key ∧
      s.findChannel target = some c ∧ c.isMemberOperator A = true ∧
      parseChannelModeChanges (target :: rest) = some changes := by
  unfold limitsAccepted at h
  split at h
  · next A line =>
    split at h
    · next name target rest hparse =>
      split at h
      · next hif =>
        obtain ⟨rfl, hkey, hop⟩ := hif
        obtain ⟨c, hc, hop⟩ := (Option.any_eq_true _ _).1 hop
        cases hchanges : parseChannelModeChanges (target :: rest) with
        | none =>
          rw [hchanges] at h
          exact absurd rfl h
        | some changes => exact ⟨A, line, target, rest, c, changes, rfl, hparse, hkey, hc, hop, hchanges⟩
      · exact absurd rfl h
    · exact absurd rfl h
  · exact absurd rfl h

/-- A MODE line of an operator. -/
theorem Reachable.limited_mode {A : Fd} {line target : Text} {rest : List Text} {c : Channel}
    {changes : List ModeChange} (h : Reachable s) (hs : s.Step (.line A line) s')
    (hparse : Command.parse line = ⟨true, "MODE".toList, target :: rest⟩)
    (hkey : ircCaseFold target = key) (hc : s.findChannel target = some c)
    (hop : c.isMemberOperator A = true) (hchanges : parseChannelModeChanges (target :: rest) = some changes)
    (hlimited : Limited key n s') :
    (∃ before argument, s.limitsAccepted key (.line A line) = before ++ [argument] ∧
      parsePositiveUserLimit argument = some n) ∨
    s.limitsAccepted key (.line A line) = [] ∧ Limited key n s := by
  obtain ⟨c', hc', hread⟩ := hlimited
  rw [limitsAccepted_mode hparse hkey hc hop hchanges]
  have hafter : s'.channels[key]? = some (changes.foldl (Channel.apply s.core) c) := by
    refine (congrArg (fun κ : Core => κ.channels[key]?) (hs.core_mode h.ok hparse hc hop hchanges)).trans ?_
    rw [Core.getElem?_setChannel, if_pos hkey]
  rw [hafter] at hc'
  cases hc'
  rcases Channel.limit_of_foldl_apply hread with hset | ⟨hnone, hread⟩
  · exact Or.inl hset
  · exact Or.inr ⟨hnone, c, hkey ▸ hc, hread⟩

/-- A limit in force after a step is that of the last `+l` the step accepts, or was in force
before it. -/
theorem Reachable.limited (h : Reachable s) (hs : s.Step e s') (hlimited : Limited key n s') :
    (∃ before argument, s.limitsAccepted key e = before ++ [argument] ∧
      parsePositiveUserLimit argument = some n) ∨
    s.limitsAccepted key e = [] ∧ Limited key n s := by
  have hk : ∀ m, Setting.userLimit ≠ .operator m := fun m hm => by cases hm
  by_cases haccepted : s.limitsAccepted key e = []
  · obtain ⟨c', hc', hread⟩ := hlimited
    rcases h.channel_cases hs hc' with hsame | ⟨fd, c, hc, rfl⟩ | ⟨A, line, rfl, hvalid, hmove⟩
    · exact Or.inr ⟨haccepted, c', hsame, hread⟩
    · exact Or.inr ⟨haccepted, c, hc, (Channel.read_with hk c _ _ _).symm.trans hread⟩
    · rcases hmove.read_eq rfl hk with ⟨c, hc, heq⟩ | ⟨-, heq⟩ |
        ⟨target, rest, c, changes, hc, hname, hparams, hkey, hop, hchanges⟩
      · exact Or.inr ⟨haccepted, c, hc, heq.symm.trans hread⟩
      · rw [heq] at hread
        cases hread
      · refine h.limited_mode hs (by rw [← hvalid, ← hname, ← hparams]) hkey ?_ hop (hparams ▸ hchanges)
          ⟨c', hc', hread⟩
        rw [findChannel_eq, hkey]
        exact hc
  · obtain ⟨A, line, target, rest, c, changes, rfl, hparse, hkey, hc, hop, hchanges⟩ :=
      mode_of_limitsAccepted haccepted
    exact h.limited_mode hs hparse hkey hc hop hchanges hlimited

/-! ## Runs -/

/-- **User limits are read exactly, and the last one accepted is in force.**  The channel has had
its limit since, and no other `+l` has been accepted for it. -/
theorem user_limits {listenerFd : Fd} {password : Text} {es : List Event}
    (hrun : Transition.Run Step (start listenerFd password) es s) :
    (∀ text v, parsePositiveUserLimit text = some v ↔ LimitText text v) ∧
    ∀ key c, s.channels[key]? = some c → c.hasUserLimit = true →
      ∃ es₁ s₁ e s₂ es₂ before argument, es = es₁ ++ e :: es₂ ∧
        Transition.Run Step (start listenerFd password) es₁ s₁ ∧ s₁.Step e s₂ ∧
        s₁.limitsAccepted key e = before ++ [argument] ∧ LimitText argument c.userLimit ∧
        Transition.Run (fun s e s' => Transition.Within Step (Limited key c.userLimit) s e s' ∧
          s.limitsAccepted key e = []) s₂ es₂ s := by
  refine ⟨fun text v => parsePositiveUserLimit_eq_some, fun key c hc hlimit => ?_⟩
  have hlimited : Limited key c.userLimit s := by
    refine ⟨c, hc, ?_⟩
    unfold Channel.read
    dsimp only
    rw [if_pos hlimit]
  have hstart : ¬ Limited key c.userLimit (start listenerFd password) := by
    rintro ⟨c, hc, -⟩
    simp [start] at hc
  have hfound (s : Server) (e : Event) (s' : Server)
      (hr : Transition.Reachable Step (start listenerFd password) s) (hs : s.Step e s')
      (hafter : Limited key c.userLimit s') (hnone : ¬ s.limitsAccepted key e ≠ []) :
      Limited key c.userLimit s := by
    rcases Reachable.limited ⟨listenerFd, password, hr⟩ hs hafter with ⟨before, argument, hset, -⟩ | ⟨-, hbefore⟩
    · rw [hset] at hnone
      exact absurd (by simp) hnone
    · exact hbefore
  obtain ⟨es₁, s₁, e, s₂, es₂, hes, hrun₁, hs, haccepted, hafter, hsince⟩ :=
    hrun.traced hstart hfound hlimited
  rcases (Reachable.of_run hrun₁).limited hs hafter with ⟨before, argument, hset, hvalue⟩ | ⟨hnone, -⟩
  · exact ⟨es₁, s₁, e, s₂, es₂, before, argument, hes, hrun₁, hs, hset, parsePositiveUserLimit_eq_some.1 hvalue,
      hsince.mono fun _ _ _ h => ⟨h.1, not_not.1 h.2⟩⟩
  · exact absurd hnone haccepted

/-- `bob`, on 4, sets a limit on `#c` twice. -/
theorem user_limits_session :
    ∃ s' c es₁ s₁ e s₂ es₂ before argument,
      Transition.Run Step (start 3 "pw".toList) (sessionEvents ++ [.line 4 "MODE #C +ll 7 5".toList]) s' ∧
      s'.channels["#c".toList]? = some c ∧
      sessionEvents ++ [.line 4 "MODE #C +ll 7 5".toList] = es₁ ++ e :: es₂ ∧
      Transition.Run Step (start 3 "pw".toList) es₁ s₁ ∧ s₁.Step e s₂ ∧
      s₁.limitsAccepted "#c".toList e = before ++ [argument] ∧ LimitText argument c.userLimit ∧
      c.userLimit = 5 := by
  obtain ⟨s', hs, hview⟩ : ∃ s', session.step (.line 4 "MODE #C +ll 7 5".toList) = some s' ∧
      (s'.channels["#c".toList]?).any (fun c => c.hasUserLimit && c.userLimit == 5) = true := by
    have h : (session.step (.line 4 "MODE #C +ll 7 5".toList)).any (fun s' =>
      (s'.channels["#c".toList]?).any fun c => c.hasUserLimit && c.userLimit == 5) = true := by decide +kernel
    exact (Option.any_eq_true _ _).1 h
  have hrun : Transition.Run Step (start 3 "pw".toList) (sessionEvents ++ [.line 4 "MODE #C +ll 7 5".toList]) s' :=
    (Transition.Run.of_foldlM session_steps).snoc hs
  obtain ⟨c, hc, hlimit⟩ := (Option.any_eq_true _ _).1 hview
  obtain ⟨hlimit, hfive⟩ := Bool.and_eq_true_iff.1 hlimit
  obtain ⟨es₁, s₁, e, s₂, es₂, before, argument, hes, hrun₁, hs₁, haccepted, htext, -⟩ :=
    (user_limits hrun).2 "#c".toList c hc hlimit
  exact ⟨s', c, es₁, s₁, e, s₂, es₂, before, argument, hrun, hc, hes, hrun₁, hs₁, haccepted, htext, by simpa using hfive⟩

end Server

end FtIrc
