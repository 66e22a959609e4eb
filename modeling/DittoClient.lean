import DittoClient.Transition.Run
import DittoClient.Octets.BigEndian
import DittoClient.Octets.Framing
import DittoClient.LockStep.Connection
import DittoClient.Program.Ensures
import DittoClient.LockStep.Reading
import DittoClient.LockStep.Exchange
import DittoClient.LockStep.Call
import DittoClient.LockStep.Session
import DittoClient.LockStep.Python
import DittoClient.LockStep.Go
import DittoClient.LockStep.Rust
import DittoClient.LockStep.Traffic
import DittoClient.LockStep.Java
import DittoClient.Octets.Utf8
import DittoClient.Protobuf.Writer
import DittoClient.Wire.Encoder
import DittoClient.LockStep.Pairing
import DittoClient.LockStep.Completion
import DittoClient.LockStep.Authentication
import DittoClient.NodeTcp.Client
import DittoClient.NodeTcp.Machine
import DittoClient.NodeTcp.Waiters
import DittoClient.NodeTcp.Link
import DittoClient.NodeTcp.Sockets
import DittoClient.NodeTcp.Ledger
import DittoClient.NodeTcp.Closing
import DittoClient.NodeTcp.Pending
import DittoClient.NodeTcp.Order
import DittoClient.Protobuf.Format
import DittoClient.Protobuf.Parse
import DittoClient.Protobuf.Fold
import DittoClient.Wire.Fields
import DittoClient.Protobuf.Faults
import DittoClient.Wire.Accepts
import DittoClient.Protobuf.Schema
import DittoClient.Wire.Formats
import DittoClient.Protobuf.Canonical
import DittoClient.Octets.Utf8RoundTrip
import DittoClient.Wire.Server
import DittoClient.Wire.Agreement
import DittoClient.Wire.Breaks
import DittoClient.Text.Space
import DittoClient.Wire.RequestEncoder
import DittoClient.Wire.Requests
import DittoClient.Wire.RequestAgreement
import DittoClient.Wire.RequestReader
import DittoClient.Wire.RequestRoundTrip
import DittoClient.Protobuf.Complete
import DittoClient.Wire.PythonDecoding
import DittoClient.Protobuf.Calls
import DittoClient.Wire.GoBounds
import DittoClient.LockStep.Events
import DittoClient.LockStep.Transmission
import DittoClient.LockStep.AtMostOnce
import DittoClient.LockStep.JavaErrors
import DittoClient.Wire.Validation
import DittoClient.Wire.Namespaces
import DittoClient.Protobuf.Renumber
import DittoClient.Wire.RustDecoding
import DittoClient.NodeHttp.Breaker
import DittoClient.NodeHttp.Bookkeeping
import DittoClient.NodeHttp.Client
import DittoClient.NodeHttp.Window
import DittoClient.NodeTcp.Names
import DittoClient.NodeTcp.Routing
import DittoClient.NodeTcp.Frames
import DittoClient.NodeTcp.Chunks
import DittoClient.NodeTcp.Attempts
import DittoClient.NodeTcp.Outcomes
import DittoClient.NodeTcp.Engaged
import DittoClient.NodeTcp.Connecting
import DittoClient.NodeTcp.Backoff
import DittoClient.NodeTcp.Reconnection
import DittoClient.NodeTcp.Service
import DittoClient.NodeTcp.Pairing
import DittoClient.LockStep.Unsupported
import DittoClient.NodeTcp.Atomic
import DittoClient.NodeTcp.Unsupported
import DittoClient.NodeTcp.Subscriptions
import DittoClient.NodeTcp.Resubscription
import DittoClient.NodeTcp.Agreement
import DittoClient.NodeHttp.Retrying
import DittoClient.Http.Body
import DittoClient.Http.PythonErrors
import DittoClient.Http.Errors
import DittoClient.NodeHttp.Deletion
import DittoClient.Text.Words
import DittoClient.Wire.Grammar
import DittoClient.LockStep.Rejection
import DittoClient.LockStep.Ownership
import DittoClient.LockStep.Owning
import DittoClient.Protobuf.Size
import DittoClient.Protobuf.Lookup
import DittoClient.Wire.Delivery
import DittoClient.Wire.Extent
import DittoClient.Wire.Numbers
import DittoClient.Text.Percent
import DittoClient.Text.Path
import DittoClient.Http.Request
import DittoClient.Http.RustPaths
import DittoClient.Http.PythonRequests
import DittoClient.Http.PythonStrict
import DittoClient.Wire.LengthPrefix
import DittoClient.Protobuf.ReadBack
import DittoClient.Wire.VarintCodec
import DittoClient.Linear.Log
import DittoClient.Linear.History
import DittoClient.Wire.Service
import DittoClient.NodeTcp.Store
import DittoClient.NodeTcp.Linearizable
import DittoClient.LockStep.Growth
import DittoClient.LockStep.Handing
import DittoClient.LockStep.Store
import DittoClient.LockStep.Recovery
import DittoClient.LockStep.Healing
import DittoClient.LockStep.Linearizable
import DittoClient.LockStep.Executions
import DittoClient.LockStep.Hearing
import DittoClient.LockStep.Listening
import DittoClient.Text.Decimal
import DittoClient.Text.Query
import DittoClient.Text.Escaping
import DittoClient.Http.Builder
import DittoClient.Http.Route
import DittoClient.Http.Fetch
import DittoClient.Http.Clients
import DittoClient.Http.Transports
import DittoClient.Text.Base64
import DittoClient.Http.Results
import DittoClient.Http.Answers
import DittoClient.Http.Readers
import DittoClient.Http.Agreement
import DittoClient.Http.EndToEnd
import DittoClient.Http.Credentials
import DittoClient.Http.Tls
import DittoClient.NodeHttp.Linearizable
import DittoClient.NodeHttp.Repeating
