import LkpExtent.Lib.Runs
import LkpExtent.Lib.Decoder
import LkpExtent.Proto
import LkpExtent.Codec
import LkpExtent.Decode
import LkpExtent.Lib.Adler
import LkpExtent.RoundTrip
import LkpExtent.Muduo
import LkpExtent.Pool
import LkpExtent.Members
import LkpExtent.Membership
import LkpExtent.Server
import LkpExtent.Client
import LkpExtent.Patch
import LkpExtent.Answers
import LkpExtent.Commands
import LkpExtent.Aggregation
import LkpExtent.Credit
import LkpExtent.Transfer
import LkpExtent.Lib.Pump
import LkpExtent.WriteComplete
import LkpExtent.PushTransfer
import LkpExtent.Received
import LkpExtent.System
import LkpExtent.Results
import LkpExtent.Packets
import LkpExtent.NodeIDs
import LkpExtent.Outbox
import LkpExtent.CmdClient
import LkpExtent.ReturnBounds
import LkpExtent.ListReplies
import LkpExtent.Lib.Wheel
import LkpExtent.TimeWheel
import LkpExtent.CliSessions
import LkpExtent.IoThreads
import LkpExtent.ChildProcess
import LkpExtent.Lib.Sender
import LkpExtent.PushText
import LkpExtent.Lib.Handover
import LkpExtent.AsyncLog
import LkpExtent.FrameBounds
import LkpExtent.Corruption
import LkpExtent.Lib.Assign
import LkpExtent.Config
import LkpExtent.ConfigGrammar
import LkpExtent.CommandErrors
import LkpExtent.ResultSizes
import LkpExtent.ResultErrors
import LkpExtent.FileHandles
import LkpExtent.ChildErrors
import LkpExtent.Startup
import LkpExtent.LogThread
import LkpExtent.CmdLine
import LkpExtent.Completeness
import LkpExtent.TransferTables
import LkpExtent.Addressing
import LkpExtent.ByteSystem
import LkpExtent.ByteReach
import LkpExtent.Lib.Shell
import LkpExtent.Scripts
import LkpExtent.ResultFile
import LkpExtent.Reports
import LkpExtent.PushReports
