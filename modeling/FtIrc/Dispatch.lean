import FtIrc.Registration
import FtIrc.Conversation
import FtIrc.Mode

/-!
# From a line to a handler (`srcs/Server/ServerCommand.cpp`, `ServerSend.cpp`)
-/

namespace FtIrc.Server

variable (s : Server) (fd : Fd)

def dispatchCommand (command : Command) : Server :=
  if command.name = "PING".toList then s.handlePing fd command
  else if command.name = "QUIT".toList then s.handleQuit fd command
  else if command.name = "CAP".toList then s.handleCap fd command
  else if command.name = "PASS".toList then s.handlePass fd command
  else if command.name = "USER".toList then s.handleUser fd command
  else if command.name = "NICK".toList then s.handleNick fd command
  else if command.name = "PRIVMSG".toList then s.handlePrivmsg fd command
  else if command.name = "JOIN".toList then s.handleJoin fd command
  else if command.name = "TOPIC".toList then s.handleTopic fd command
  else if command.name = "KICK".toList then s.handleKick fd command
  else if command.name = "INVITE".toList then s.handleInvite fd command
  else if command.name = "MODE".toList then s.handleMode fd command
  else s.handleUnknownCommand fd command

def handleCompleteLine (line : Text) : Server :=
  let s := s.record (.completeLine fd line)
  let command := Command.parse line
  if !command.valid then s
  else (s.record (.dispatched fd command)).dispatchCommand fd command

end FtIrc.Server
