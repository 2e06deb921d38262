import FtIrc.Text
import FtIrc.Command
import FtIrc.Channel
import FtIrc.Client
import FtIrc.Line
import FtIrc.Server
import FtIrc.Registration
import FtIrc.Conversation
import FtIrc.Mode
import FtIrc.Dispatch
import FtIrc.Socket
import FtIrc.Loop
import FtIrc.Main
import FtIrc.Lib.Transition
import FtIrc.System
import FtIrc.Core
import FtIrc.Sending
import FtIrc.Lib.Maps
import FtIrc.Effect
import FtIrc.Handlers.Registration
import FtIrc.Handlers.Conversation
import FtIrc.Handlers.Mode
import FtIrc.Lib.Writes
import FtIrc.Settings
import FtIrc.Lib.History
import FtIrc.Requests
import FtIrc.Steps
import FtIrc.Lib.Index
import FtIrc.Invariant
import FtIrc.Delivery
import FtIrc.Stores
import FtIrc.Channels
import FtIrc.Admission
import FtIrc.Authority
import FtIrc.Invitations
import FtIrc.Unregistered
import FtIrc.Lib.Separator
import FtIrc.Sources
import FtIrc.Lib.Roster
import FtIrc.View
import FtIrc.Descriptors
import FtIrc.Turns
import FtIrc.Passes
import FtIrc.Timeliness
import FtIrc.Sweeping
import FtIrc.Queues
import FtIrc.Isolation
import FtIrc.Removal
import FtIrc.Parsing
import FtIrc.Grammar
import FtIrc.Wording
import FtIrc.Voices
import FtIrc.Enrolment
import FtIrc.Lib.Outbox
import FtIrc.Traffic
import FtIrc.Keeping
import FtIrc.Lib.Framing
import FtIrc.Streams
import FtIrc.Relays
import FtIrc.Modes
import FtIrc.Decoding
import FtIrc.Naming
import FtIrc.Errors
import FtIrc.Chunks
import FtIrc.Hangups
import FtIrc.Lib.Worklist
import FtIrc.Visits
import FtIrc.Lib.Patchwork
import FtIrc.Spellings
import FtIrc.Lib.Numerals
import FtIrc.Numbers
import FtIrc.Limits
import FtIrc.Messages
import FtIrc.Semantics
import FtIrc.Lib.Machine
import FtIrc.Replay
import FtIrc.Transcript
import FtIrc.Agreement
import FtIrc.Secrets
import FtIrc.Rooms
import FtIrc.Lib.Ledger
import FtIrc.Process
import FtIrc.Lifetime
import FtIrc.Buffers
import FtIrc.Service
import FtIrc.Replica
