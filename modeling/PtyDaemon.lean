import PtyDaemon.Framework.Transition
import PtyDaemon.Framework.Circular
import PtyDaemon.SharedRing.Basic
import PtyDaemon.SharedRing.Bounds
import PtyDaemon.SharedRing.Contents
import PtyDaemon.RingBuffer
import PtyDaemon.SharedRing.ReadSince
import PtyDaemon.SharedRing.Polling
import PtyDaemon.SharedRing.Steps
import PtyDaemon.SharedRing.Writer
import PtyDaemon.SharedRing.Snapshot
import PtyDaemon.SharedRing.TornDump
import PtyDaemon.Framework.Table
import PtyDaemon.Framework.Ledger
import PtyDaemon.Protocol
import PtyDaemon.Session
import PtyDaemon.WsShared
import PtyDaemon.Server.State
import PtyDaemon.Server.Handlers
import PtyDaemon.Server.Loop
import PtyDaemon.Server.Moves
import PtyDaemon.Server.Cases
import PtyDaemon.Server.HandlerMoves
import PtyDaemon.Server.Ownership
import PtyDaemon.Server.Disconnect
import PtyDaemon.Server.Events
import PtyDaemon.Server.Run
import PtyDaemon.Server.Frame
import PtyDaemon.Server.Dispatch
import PtyDaemon.Server.Delivery
import PtyDaemon.Server.Shared
import PtyDaemon.Clients.World
import PtyDaemon.Clients.SingleReader
import PtyDaemon.Server.CrashedWriter
import PtyDaemon.Clients.Streams
import PtyDaemon.Clients.Output
import PtyDaemon.Ws.Channels
import PtyDaemon.Ws.World
import PtyDaemon.Ws.Tasks
import PtyDaemon.Ws.HandBack
import PtyDaemon.Ws.Follows
import PtyDaemon.Ws.Stream
import PtyDaemon.Framework.Incremental
import PtyDaemon.Server.Shutdown
import PtyDaemon.Server.Connections
import PtyDaemon.Wire.Frames
import PtyDaemon.Wire.DecodeLoop
import PtyDaemon.Wire.Framing
import PtyDaemon.Wire.Wait
import PtyDaemon.Wire.Overheard
import PtyDaemon.Wire.World
import PtyDaemon.Wire.Turns
import PtyDaemon.Wire.Occurrences
import PtyDaemon.Server.FdCalls
import PtyDaemon.Server.FdBooks
import PtyDaemon.Server.Holders
import PtyDaemon.Server.Batch
import PtyDaemon.Server.Parser
import PtyDaemon.Wire.HandOn
import PtyDaemon.Server.Tenure
import PtyDaemon.Wire.Resumes
import PtyDaemon.Wire.Drained
import PtyDaemon.Wire.Sockets
import PtyDaemon.Framework.Output
import PtyDaemon.Wire.Sends
import PtyDaemon.Wire.Outgoing
import PtyDaemon.Wire.Descriptors
import PtyDaemon.Wire.Requests
import PtyDaemon.Wire.Responses
import PtyDaemon.Ws.Closing
import PtyDaemon.Ws.Agree
import PtyDaemon.Ws.Dialogue
import PtyDaemon.Ws.History
import PtyDaemon.Ws.Isolation
import PtyDaemon.Server.Views
import PtyDaemon.Server.Census
import PtyDaemon.Ws.Endings
import PtyDaemon.Server.GiveAway
import PtyDaemon.Ws.Watching
import PtyDaemon.Ws.Count
import PtyDaemon.Server.Lives
import PtyDaemon.Server.Sizes
import PtyDaemon.Server.Names
import PtyDaemon.Server.Cooldown
import PtyDaemon.Ws.FailedAttach
import PtyDaemon.Create.Host
import PtyDaemon.Create.Runs
import PtyDaemon.Create.AllOrNothing
import PtyDaemon.Create.Shells
import PtyDaemon.Clients.LastOutput
import PtyDaemon.Ws.Idle
import PtyDaemon.Framework.Words
import PtyDaemon.SharedRing.Segment
import PtyDaemon.SharedRing.Mappings
import PtyDaemon.Wire.Decoding
import PtyDaemon.Clients.Replies
import PtyDaemon.Clients.Attach
import PtyDaemon.Server.SocketPath
import PtyDaemon.Server.Running
import PtyDaemon.Clients.Stopping
import PtyDaemon.Server.Failures
import PtyDaemon.Server.HandedOver
import PtyDaemon.Clients.Commands
import PtyDaemon.Ws.Requests
import PtyDaemon.Framework.Ancillary
import PtyDaemon.Clients.Handshake
