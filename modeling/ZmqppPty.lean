import ZmqppPty.Base
import ZmqppPty.Actor.Basic
import ZmqppPty.Actor.Ownership
import ZmqppPty.Actor.Stop
import ZmqppPty.Auth.Basic
import ZmqppPty.Auth.Configuration
import ZmqppPty.Auth.Decisions
import ZmqppPty.Auth.LockStep
import ZmqppPty.Auth.Mechanism
import ZmqppPty.Auth.Metadata
import ZmqppPty.Auth.Pipe
import ZmqppPty.Auth.Session
import ZmqppPty.Client.Basic
import ZmqppPty.Client.Console
import ZmqppPty.Client.Framing
import ZmqppPty.Client.Input
import ZmqppPty.Client.Mirror
import ZmqppPty.Client.Piped
import ZmqppPty.Client.Pipeline
import ZmqppPty.Client.Program
import ZmqppPty.Client.Toggle
import ZmqppPty.Common.Capacity
import ZmqppPty.Common.Compare
import ZmqppPty.Common.Concat
import ZmqppPty.Common.Hex
import ZmqppPty.Common.HexValue
import ZmqppPty.Dispatch.Address
import ZmqppPty.Dispatch.Backlog
import ZmqppPty.Dispatch.Deferred
import ZmqppPty.Dispatch.Escape
import ZmqppPty.Dispatch.Exact
import ZmqppPty.Dispatch.Final
import ZmqppPty.Dispatch.Lookup
import ZmqppPty.Dispatch.Loop
import ZmqppPty.Dispatch.Moved
import ZmqppPty.Dispatch.Moves
import ZmqppPty.Dispatch.Pass
import ZmqppPty.Dispatch.Reactor
import ZmqppPty.Dispatch.Registry
import ZmqppPty.Dispatch.Restart
import ZmqppPty.Dispatch.Retired
import ZmqppPty.Dispatch.Run
import ZmqppPty.Dispatch.Schedule
import ZmqppPty.Dispatch.Stable
import ZmqppPty.Dispatch.Tickless
import ZmqppPty.Dispatch.Untimed
import ZmqppPty.Dispatch.Wheel
import ZmqppPty.Lib.Attempts
import ZmqppPty.Lib.Balance
import ZmqppPty.Lib.Buffer
import ZmqppPty.Lib.Digits
import ZmqppPty.Lib.Each
import ZmqppPty.Lib.Endian
import ZmqppPty.Lib.Handles
import ZmqppPty.Lib.Heap
import ZmqppPty.Lib.Ledger
import ZmqppPty.Lib.Lines
import ZmqppPty.Lib.Machine
import ZmqppPty.Lib.Records
import ZmqppPty.Lib.Simulation
import ZmqppPty.Lib.SwapErase
import ZmqppPty.Message.Basic
import ZmqppPty.Message.Cursor
import ZmqppPty.Message.Deque
import ZmqppPty.Message.FailedRead
import ZmqppPty.Message.Frame
import ZmqppPty.Message.Inet
import ZmqppPty.Message.Release
import ZmqppPty.Message.Signal
import ZmqppPty.Message.Stream
import ZmqppPty.Poller.Basic
import ZmqppPty.Poller.Readd
import ZmqppPty.Poller.Refine
import ZmqppPty.Pty.Collect
import ZmqppPty.Pty.Server
import ZmqppPty.Socket.Blocks
import ZmqppPty.Socket.Connection
import ZmqppPty.Socket.Lifetime
import ZmqppPty.Socket.Messages
import ZmqppPty.Socket.Options
import ZmqppPty.Socket.Parts
import ZmqppPty.Socket.Receive
import ZmqppPty.Socket.Reuse
import ZmqppPty.Socket.Send
import ZmqppPty.Socket.Wait
import ZmqppPty.Z85.Codec
import ZmqppPty.Z85.Faithful
