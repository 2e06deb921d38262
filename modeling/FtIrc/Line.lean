import FtIrc.Client

/-!
# The lines the server queues

Every `queueLine` call of the source builds one of these lines by concatenation; `render`
is that concatenation.  A line keeps its parts apart, so that what a client reads from its
queue can be stated about the parts and not about their spelling.
-/

namespace FtIrc

/-- `nick!user@localhost`, in its parts. -/
structure Source where
  nickname : Text
  username : Text
deriving DecidableEq

namespace Source

def render (source : Source) : Text :=
  source.nickname ++ "!".toList ++ source.username ++ "@localhost".toList

end Source

def Client.source (client : Client) : Source := ⟨client.nickname, client.username⟩

theorem Client.source_render (client : Client) : client.source.render = client.getPrefix := rfl

structure ModeChange where
  adding : Bool
  mode : Char
  hasArgument : Bool := false
  argument : Text := []
deriving DecidableEq

/-- What follows the source of a relayed line. -/
inductive Relay where
  | join (channel : Text)
  | privmsg (target text : Text)
  | topic (channel topic : Text)
  | kick (channel nickname reason : Text)
  | invite (nickname channel : Text)
  | nick (nickname : Text)
  | mode (channel : Text) (change : ModeChange)
  | quit (reason : Text)
deriving DecidableEq

namespace Relay

def render : Relay → Text
  | .join channel => "JOIN :".toList ++ channel
  | .privmsg target text => "PRIVMSG ".toList ++ target ++ " :".toList ++ text
  | .topic channel newTopic => "TOPIC ".toList ++ channel ++ " :".toList ++ newTopic
  | .kick channel nickname reason =>
    "KICK ".toList ++ channel ++ " ".toList ++ nickname ++ " :".toList ++ reason
  | .invite nickname channel => "INVITE ".toList ++ nickname ++ " :".toList ++ channel
  | .nick nickname => "NICK :".toList ++ nickname
  | .mode channel change =>
    "MODE ".toList ++ channel ++ " ".toList ++ (if change.adding then "+" else "-").toList ++
      [change.mode] ++ (if change.hasArgument then " ".toList ++ change.argument else [])
  | .quit reason => "QUIT :".toList ++ reason

end Relay

/-- What follows the target of a numeric.  `names` is the list of `sendChannelNames`, an
operator flag and a nickname for each member. -/
inductive Arguments where
  | text (text : Text)
  | names (channel : Text) (members : List (Bool × Text))
deriving DecidableEq

namespace Arguments

/-- One turn of the loop that builds `namesList` in `sendChannelNames`. -/
def appendName (namesList : Text) (member : Bool × Text) : Text :=
  (if namesList.isEmpty then namesList else namesList ++ " ".toList) ++
    (if member.1 then "@".toList else []) ++ member.2

def render : Arguments → Text
  | .text arguments => arguments
  | .names channel members =>
    "= ".toList ++ channel ++ " :".toList ++ members.foldl appendName []

end Arguments

inductive Line where
  | numeric (code replyTarget : Text) (arguments : Arguments)
  | relay (source : Source) (event : Relay)
  | plain (text : Text)
deriving DecidableEq

namespace Line

def render : Line → Text
  | .numeric code replyTarget arguments =>
    ":ircserv ".toList ++ code ++ " ".toList ++ replyTarget ++
      (if arguments.render.isEmpty then [] else " ".toList ++ arguments.render)
  | .relay source event => ":".toList ++ source.render ++ " ".toList ++ event.render
  | .plain text => text

example : (relay ⟨"bob".toList, "b".toList⟩
    (.mode "#42".toList ⟨true, 'o', true, "al".toList⟩)).render =
    ":bob!b@localhost MODE #42 +o al".toList := by decide

end Line

end FtIrc
