import Liso.Lib.Runs
import Liso.Lib.Progress
import Liso.Lib.Channel
import Liso.Lib.Handles
import Liso.Lib.Slots
import Liso.Lib.Cut
import Liso.Lib.Words
import Liso.Lib.Lines
import Liso.Lib.Messages
import Liso.Lib.Paths
import Liso.Lib.Records
import Liso.Utils
import Liso.State
import Liso.Request
import Liso.Response
import Liso.Pool
import Liso.Conn
import Liso.Main
import Liso.Parse.Fields
import Liso.Parse.StartLine
import Liso.Parse.ByLine
import Liso.Parse.Text
import Liso.Parse.Grammar
import Liso.Parse.Stores
import Liso.Parse.Length
import Liso.Parse.Looks
import Liso.Parse.Absolute
import Liso.Parse.Incremental
import Liso.Parse.HeadEnd
import Liso.Loop.Outcome
import Liso.Loop.Frame
import Liso.Loop.Visit
import Liso.Loop.Invariant
import Liso.Loop.Sample
import Liso.Stale
import Liso.Parse.Chunks
import Liso.Parse.Faithful
import Liso.Parse.Accepted
import Liso.Parse.Body
import Liso.Parse.Framed
import Liso.Parse.Alone
import Liso.Loop.Phases
import Liso.Loop.Rest
import Liso.Loop.Receive
import Liso.Loop.Calls
import Liso.Confine
import Liso.Envp
import Liso.Leaks
import Liso.Readiness
import Liso.Relay
import Liso.Select
import Liso.Numbers
import Liso.WakeUp
import Liso.Joint
import Liso.Inherit
import Liso.Startup
import Liso.Places
import Liso.Pass
import Liso.Turnover
import Liso.Transport
import Liso.Tls
import Liso.Inspected
import Liso.Bounds
import Liso.Head
import Liso.Pieces
import Liso.Resolve
import Liso.RoundTrip
import Liso.Segments
import Liso.Intake
import Liso.ToCgi
import Liso.Aligned
import Liso.Answers
import Liso.Exchanges
import Liso.Starts
import Liso.Framing
import Liso.Progress
import Liso.Piped
import Liso.Logging
import Liso.Locks
import Liso.Entries
import Liso.Instances
