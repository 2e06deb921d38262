import FtIrc.Server

/-!
# MODE (`srcs/Command/Mode.cpp`, `srcs/Command/ModeApply.cpp`)

The mode string is parsed into a list of changes, or rejected as a whole; then each change
is applied, and announced if it alters the channel.
-/

namespace FtIrc.Server

/-! ## Parsing -/

def modeNeedsArgument (mode : Char) (adding : Bool) : Bool :=
  if mode = 'k' then true
  else if mode = 'o' then true
  else if mode = 'l' ∧ adding then true
  else false

/-- The loop of `parseChannelModeChanges` over what is left of the mode string. -/
def parseModeString (parameters : List Text) : Text → Bool → Bool → Nat → Option (List ModeChange)
  | [], _, _, _ => some []
  | character :: rest, adding, signSeen, argumentIndex =>
    if character = '+' then parseModeString parameters rest true true argumentIndex
    else if character = '-' then parseModeString parameters rest false true argumentIndex
    else if !signSeen then none
    else if modeNeedsArgument character adding then
      match parameters[argumentIndex]? with
      | none => none
      | some argument =>
        (parseModeString parameters rest adding signSeen (argumentIndex + 1)).map
          (⟨adding, character, true, argument⟩ :: ·)
    else
      (parseModeString parameters rest adding signSeen argumentIndex).map
        (⟨adding, character, false, []⟩ :: ·)

def parseChannelModeChanges (parameters : List Text) : Option (List ModeChange) :=
  match parameters[1]? with
  | none => none
  | some modeString =>
    if modeString.isEmpty then none
    else (parseModeString parameters modeString true false 2).filter (!·.isEmpty)

/-- `std::isspace` in the C locale. -/
def isSpace (c : Char) : Bool :=
  c == ' ' || c == '\t' || c == '\n' || c == Char.ofNat 11 || c == Char.ofNat 12 || c == '\r'

def isDigit (c : Char) : Bool := '0' ≤ c && c ≤ '9'

/-- The value `operator>>` reads from a run of digits, before its range check. -/
def digitsValue (digits : Text) : Nat :=
  digits.foldl (fun value c => value * 10 + (c.toNat - '0'.toNat)) 0

/-- After the test of the first character, `operator>>` reads the digits up to the first
character that is none, and fails where they pass 64 bits; reading `extra` skips spaces. -/
def parsePositiveUserLimit (text : Text) : Option Nat :=
  match text with
  | [] => none
  | first :: _ =>
    if first < '0' ∨ first > '9' then none
    else
      let value := digitsValue (text.takeWhile isDigit)
      if value ≥ UInt64.size then none
      else if ((text.dropWhile isDigit).dropWhile isSpace) ≠ [] then none
      else if value = 0 then none
      else some value

/-! ## Applying -/

variable (s : Server) (fd : Fd)

def broadcastModeChange (channel : Channel) (change : ModeChange) : Server :=
  s.broadcastToChannel channel (.relay (s.client fd).source (.mode channel.name change))

section
variable (key : Text) (channel : Channel) (change : ModeChange)

def applyInviteOnlyMode : Server :=
  if channel.inviteOnly = change.adding then s
  else
    let channel := channel.setInviteOnly change.adding
    (s.setChannel key channel).broadcastModeChange fd channel change

def applyTopicRestrictedMode : Server :=
  if channel.topicRestricted = change.adding then s
  else
    let channel := channel.setTopicRestricted change.adding
    (s.setChannel key channel).broadcastModeChange fd channel change

def applyKeyMode : Server :=
  if change.adding then
    if change.argument.isEmpty then
      s.sendNumeric fd "696".toList (.text (channel.name ++ " k :Invalid mode parameter".toList))
    else if channel.hasKey && channel.key == change.argument then s
    else
      let channel := channel.setKey change.argument
      (s.setChannel key channel).broadcastModeChange fd channel change
  else if !channel.hasKey then s
  else
    let channel := channel.removeKey
    (s.setChannel key channel).broadcastModeChange fd channel change

def applyOperatorMode : Server :=
  match s.findClientByNickname change.argument with
  | none =>
    s.sendNumeric fd "401".toList (.text (change.argument ++ " :No such nick/channel".toList))
  | some target =>
    if !channel.hasMember target then
      s.sendNumeric fd "441".toList
        (.text (change.argument ++ " ".toList ++ channel.name ++
          " :They aren't on that channel".toList))
    else if channel.isMemberOperator target = change.adding then s
    else
      let channel := channel.setMemberOperator target change.adding
      (s.setChannel key channel).broadcastModeChange fd channel change

def applyUserLimitMode : Server :=
  if change.adding then
    match parsePositiveUserLimit change.argument with
    | none =>
      s.sendNumeric fd "696".toList
        (.text (channel.name ++ " l ".toList ++ change.argument ++
          " :Invalid mode parameter".toList))
    | some limit =>
      if channel.hasUserLimit && channel.userLimit == limit then s
      else
        let channel := channel.setUserLimit limit
        (s.setChannel key channel).broadcastModeChange fd channel change
  else if !channel.hasUserLimit then s
  else
    let channel := channel.removeUserLimit
    (s.setChannel key channel).broadcastModeChange fd channel change

end

/-- `channel` is the value stored under `key` when the change is reached. -/
def applyChannelModeChange (key : Text) (change : ModeChange) : Server :=
  match s.channels[key]? with
  | none => s
  | some channel =>
    if change.mode = 'i' then s.applyInviteOnlyMode fd key channel change
    else if change.mode = 't' then s.applyTopicRestrictedMode fd key channel change
    else if change.mode = 'k' then s.applyKeyMode fd key channel change
    else if change.mode = 'o' then s.applyOperatorMode fd key channel change
    else if change.mode = 'l' then s.applyUserLimitMode fd key channel change
    else s.sendNumeric fd "472".toList (.text (change.mode :: " :is unknown mode char to me".toList))

def handleMode (command : Command) : Server :=
  if !(s.client fd).registered then
    s.sendNumeric fd "451".toList (.text ":You have not registered".toList)
  else
    match command.parameters with
    | [] => s.sendNumeric fd "461".toList (.text "MODE :Not enough parameters".toList)
    | target :: rest =>
      -- no user modes
      if !isChannelTarget target then s
      else
        match s.findChannel target with
        | none => s.sendNumeric fd "403".toList (.text (target ++ " :No such channel".toList))
        | some channel =>
          -- no mode query
          if rest.isEmpty then s
          else if !channel.isMemberOperator fd then
            s.sendNumeric fd "482".toList (.text (target ++ " :You're not channel operator".toList))
          else
            match parseChannelModeChanges command.parameters with
            | none => s
            | some changes =>
              changes.foldl (fun s change => s.applyChannelModeChange fd (ircCaseFold target) change) s

end FtIrc.Server
