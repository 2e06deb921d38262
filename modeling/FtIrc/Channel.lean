import FtIrc.Text

/-!
# Channels (`srcs/Channel.cpp`)

A channel knows its members by descriptor, with one operator flag each, and its
invitations by folded nickname.
-/

namespace FtIrc

open Std

/-- `Member::_client` is always `NULL` and never read, so a member is its flag. -/
abbrev MemberMap := ExtTreeMap Fd Bool

structure Channel where
  name : Text
  topic : Text := []
  members : MemberMap := ∅
  invitedUsers : ExtTreeSet Text := ∅
  inviteOnly : Bool := false
  topicRestricted : Bool := false
  hasKey : Bool := false
  key : Text := []
  hasUserLimit : Bool := false
  userLimit : Nat := 0

namespace Channel

variable (channel : Channel)

def hasTopic : Bool := !channel.topic.isEmpty

def setTopic (topic : Text) : Channel := { channel with topic := topic }

def hasMember (fd : Fd) : Bool := channel.members.contains fd

def addMember (fd : Fd) (makeOperator : Bool) : Channel :=
  if channel.hasMember fd then channel
  else { channel with members := channel.members.insert fd makeOperator }

def removeMember (fd : Fd) : Channel := { channel with members := channel.members.erase fd }

def isMemberOperator (fd : Fd) : Bool := channel.members[fd]?.getD false

def setMemberOperator (fd : Fd) (enabled : Bool) : Channel :=
  if channel.hasMember fd then { channel with members := channel.members.insert fd enabled }
  else channel

def empty : Bool := channel.members.isEmpty

def getMemberCount : Nat := channel.members.size

def addInvite (nickname : Text) : Channel :=
  { channel with invitedUsers := channel.invitedUsers.insert (ircCaseFold nickname) }

def removeInvite (nickname : Text) : Channel :=
  { channel with invitedUsers := channel.invitedUsers.erase (ircCaseFold nickname) }

def isInvited (nickname : Text) : Bool := channel.invitedUsers.contains (ircCaseFold nickname)

def setInviteOnly (enabled : Bool) : Channel := { channel with inviteOnly := enabled }

def setTopicRestricted (enabled : Bool) : Channel := { channel with topicRestricted := enabled }

def setKey (key : Text) : Channel := { channel with hasKey := true, key := key }

def removeKey : Channel := { channel with hasKey := false, key := [] }

def setUserLimit (limit : Nat) : Channel :=
  { channel with hasUserLimit := true, userLimit := limit }

def removeUserLimit : Channel := { channel with hasUserLimit := false, userLimit := 0 }

end Channel

end FtIrc
