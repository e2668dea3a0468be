import Khala.Library.Runs
import Khala.Library.LinkedHashMap
import Khala.Library.MinQueue
import Khala.Library.Ledger
import Khala.Library.Codec
import Khala.Library.RecordTree
import Khala.Library.RecordTree.Rebuild
import Khala.Library.RecordTree.Places
import Khala.Library.CallOrder
import Khala.Library.Routing
import Khala.Zmq.Bindings
import Khala.Zmq.Messages
import Khala.Zmq.PriorityQueue
import Khala.Zmq.Loop
import Khala.Zmq.Client.Scope
import Khala.Zmq.Jobs
import Khala.Zmq.Handshake
import Khala.Zmq.Stop
import Khala.Zmq.Deadlock
import Khala.Zmq.Timers
import Khala.Zmq.Timers.Deadline
import Khala.Zmq.Timers.Pass
import Khala.Zmq.Timers.Order
import Khala.Zmq.Client.Pass
import Khala.Zmq.Client.Dispatch
import Khala.Zmq.Client.Sources
import Khala.Zmq.Client.Accounting
import Khala.Zmq.Client.Poller
import Khala.Zmq.Client.Failure
import Khala.Zmq.Program
import Khala.Zmq.Calls
import Khala.Zmq.Completion
import Khala.Zmq.Progress
import Khala.Zmq.Reception
import Khala.Zmq.Process
import Khala.Js.Socket
import Khala.Js.Binds
import Khala.Js.Loop
import Khala.Js.Program
import Khala.Silence
import Khala.Refinement
import Khala.InterLoop
import Khala.Serialization.KotlinxIo
import Khala.Serialization.Binary
import Khala.Serialization.Strings
import Khala.Serialization.Double
import Khala.Serialization.Rounding
import Khala.Serialization.Decimal
import Khala.Serialization.Document
import Khala.Serialization.Structured
import Khala.Serialization.JvmJson
import Khala.Serialization.NativeJson
import Khala.Serialization.JsJson
import Khala.Serialization.Agreement
import Khala.Serialization.Exchange
import Khala.Serialization.Libraries
import Khala.Serialization.JsonPayload
import Khala.Serialization.Rounding
import Khala.Serialization.Decimal
