import AnythingTool.Library.Machine
import AnythingTool.Library.JsonText
import AnythingTool.Library.BracketDepth
import AnythingTool.Rpc.Scan
import AnythingTool.Rpc.Parse
import AnythingTool.Rpc.Respond
import AnythingTool.Config.Basic
import AnythingTool.Config.Load
import AnythingTool.Daemon.Approval
import AnythingTool.Daemon.Audit
import AnythingTool.Daemon.Handlers
import AnythingTool.Daemon.Moves
import AnythingTool.Daemon.Execution
import AnythingTool.Daemon.Decisions
import AnythingTool.Daemon.Binding
import AnythingTool.Daemon.Noninterference
import AnythingTool.Config.AuditPath
import AnythingTool.Rpc.Members
import AnythingTool.Rpc.Framing
import AnythingTool.Rpc.Depth
import AnythingTool.Rpc.Values
import AnythingTool.Rpc.Complete
import AnythingTool.Library.JsonLines
import AnythingTool.Rpc.Lines
import AnythingTool.Daemon.Listing
import AnythingTool.Daemon.Replies
import AnythingTool.Daemon.Capacity
import AnythingTool.Daemon.Replay
import AnythingTool.Daemon.Refusals
import AnythingTool.Daemon.AuditFields
import AnythingTool.Config.Allowlist
import AnythingTool.Cli.Request
import AnythingTool.Rpc.Transport
import AnythingTool.Rpc.RoundTrip
import AnythingTool.Daemon.HashInput
import AnythingTool.Daemon.ListOffsets
import AnythingTool.Daemon.AuditFailure
import AnythingTool.Rpc.Accepted
import AnythingTool.Rpc.Session
import AnythingTool.Config.Startup
import AnythingTool.Config.Settings
import AnythingTool.Config.FailClosed
import AnythingTool.Library.TextLines
import AnythingTool.Config.Comments
import AnythingTool.Library.CheckedReads
import AnythingTool.Library.FirstClose
import AnythingTool.Rpc.Cursors
import AnythingTool.Rpc.CursorLoops
import AnythingTool.Rpc.StringScanners
import AnythingTool.Rpc.RawCopy
import AnythingTool.Library.Refinement
import AnythingTool.Library.CheckedHandles
import AnythingTool.Rpc.Sending
import AnythingTool.Daemon.Connection
import AnythingTool.Daemon.Server
import AnythingTool.Daemon.Main
import AnythingTool.Library.DualControl
import AnythingTool.Daemon.Workflow
import AnythingTool.Daemon.Progress
import AnythingTool.Cli.Client
import AnythingTool.Cli.Dialog
import AnythingTool.Daemon.LogFile
import AnythingTool.Daemon.LogText
import AnythingTool.Rpc.Timing
import AnythingTool.Library.CheckedWrites
import AnythingTool.Daemon.Writers
import AnythingTool.Library.Checksum
import AnythingTool.Daemon.Damage
import AnythingTool.Daemon.SystemInfo
