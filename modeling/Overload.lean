import Overload.Transition
import Overload.Regex
import Overload.Utf8
import Overload.FormUrlencoded
import Overload.Choice
import Overload.Path
import Overload.BinaryHeap
import Overload.Tiling
import Overload.Scanner
import Overload.Pool.QueuePool
import Overload.Pool.Counts
import Overload.Pool.Refinement
import Overload.Pool.Accounting
import Overload.Pool.Bounds
import Overload.Pool.Elastic
import Overload.Pool.Gauges
import Overload.Pool.Ledger
import Overload.Pool.Balance
import Overload.Pool.KeepAlive
import Overload.Cycle.Session
import Overload.Cycle.Dispatch
import Overload.Cycle.Custody
import Overload.Cycle.Size
import Overload.Job.Status
import Overload.Job.HandleRequest
import Overload.Job.Final
import Overload.Job.Cleanup
import Overload.Job.Identity
import Overload.Job.Family
import Overload.Job.Pages
import Overload.Job.Query
import Overload.Job.MultiRequest
import Overload.Share
import Overload.Split.Ranges
import Overload.Split.RequestFile
import Overload.Calls
import Overload.Provider.Rows
import Overload.Primary.Shares
import Overload.Primary.Conservation
import Overload.Primary.HandleRequest
import Overload.Primary.Zero
import Overload.Primary.Grammar
import Overload.Primary.Standalone
import Overload.Primary.Coverage
import Overload.Secondary.Registry
import Overload.Secondary.OnePool
import Overload.Secondary.LockOut
import Overload.Secondary.Download
import Overload.Metrics.Factory
import Overload.Json
import Overload.Json.Pointer
import Overload.Serde
import Overload.Datagen.Schema
import Overload.Datagen.Constraints
import Overload.Datagen.Parsed
import Overload.Datagen.RoundTrip
import Overload.Datagen.Template
import Overload.Datagen.Generate
import Overload.Datagen.Sound
import Overload.Datagen.Generation
import Overload.Request.UrlParam
import Overload.Request.RateSpec
import Overload.Request.Spec
import Overload.Request.Transport
import Overload.Request.Steps
import Overload.Generator.RateScheme
import Overload.Generator.Schedule
import Overload.Assertion.SimpleAssert
import Overload.Cycle.Padding
import Overload.Primary.Delivery
import Overload.Provider.Files
import Overload.Datagen.Conformance
import Overload.Cycle.Batch
import Overload.Cycle.RequestFuture
import Overload.Cycle.BatchSize
import Overload.Provider.Template
import Overload.Endless
import Overload.Fifo
import Overload.Pool.Circular
import Overload.Mailbox
import Overload.Cluster.Load
import Overload.Cluster.Submit
import Overload.Cluster.Conversation
import Overload.Cluster.Control
import Overload.Assertion.LuaExecutor
import Overload.Provider.Upload
import Overload.Primary.FileStream
import Overload.Lua.Decode
import Overload.Lua.Grammar
import Overload.Lua.Documents
import Overload.Lua.Encode
import Overload.Lua.ReadBack
import Overload.Lua.TablePath
import Overload.Cycle.Clock
import Overload.Provider.Random
