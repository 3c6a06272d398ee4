import Tierkreis.Lib.HashMap
import Tierkreis.Lib.Closure
import Tierkreis.Lib.Txn
import Tierkreis.Lib.Run
import Tierkreis.Location
import Tierkreis.Asset
import Tierkreis.Graph
import Tierkreis.State.Interface
import Tierkreis.State.InMemory
import Tierkreis.State.Tables
import Tierkreis.State.Sqlite
import Tierkreis.State.Batch
import Tierkreis.State.Atomicity
import Tierkreis.State.Terminal
import Tierkreis.State.Batching
import Tierkreis.State.Splits
import Tierkreis.State.Redelivery
import Tierkreis.State.Equivalence
import Tierkreis.Orchestrator.Plan
import Tierkreis.Orchestrator.Perform
import Tierkreis.Orchestrator.Steps
import Tierkreis.Runtime.System
import Tierkreis.Runtime.Stores
import Tierkreis.Runtime.SqliteStore
import Tierkreis.Runtime.Turns
import Tierkreis.Runtime.Dispatch
import Tierkreis.Runtime.Duplicates
import Tierkreis.Orchestrator.Scheduled
import Tierkreis.Restart.Filter
import Tierkreis.Restart.Sqlite
import Tierkreis.Restart.Attempts
import Tierkreis.Restart.SqliteAttempts
import Tierkreis.Restart.Numbering
import Tierkreis.Restart.RootInputs
import Tierkreis.Restart.Copy
import Tierkreis.Restart.CopyEquivalence
import Tierkreis.Runtime.Isolation
import Tierkreis.Restart.MapBits
import Tierkreis.Runtime.Restarting
import Tierkreis.Runtime.RestartingStores
import Tierkreis.Executor.Hpc
import Tierkreis.Executor.HpcAccount
import Tierkreis.Executor.HpcReattach
import Tierkreis.Executor.BuiltinPanics
import Tierkreis.Executor.EndsOnce
import Tierkreis.Lib.Base64
import Tierkreis.Python.FoldUnfold
import Tierkreis.Python.Annotated
import Tierkreis.Python.ReadBack
import Tierkreis.Python.AnnotatedRoundTrip
import Tierkreis.Lib.Float64
import Tierkreis.Python.BuiltinInts
import Tierkreis.Python.BuiltinValues
import Tierkreis.Python.BuiltinsAgree
import Tierkreis.Binding.RoundTrip
import Tierkreis.Lib.Commute
import Tierkreis.Lib.Decimal
import Tierkreis.Lib.FileUrl
import Tierkreis.LocationText
import Tierkreis.Orchestrator.MapInputs
import Tierkreis.Restart.Merge
import Tierkreis.Runtime.RestartTask
import Tierkreis.State.AssetKindText
import Tierkreis.State.MapCodec
import Tierkreis.Runtime.Channels
import Tierkreis.Restart.Levels
import Tierkreis.Controller.Location
import Tierkreis.Lib.Shell
import Tierkreis.Executor.WorkerInvocation
import Tierkreis.Executor.JobScript
import Tierkreis.Executor.JobEnvironment
import Tierkreis.Lib.F64
import Tierkreis.Executor.ExecutionContext
import Tierkreis.Executor.ResourceRequest
import Tierkreis.Executor.ContextRequest
import Tierkreis.Controller.GraphData
import Tierkreis.Controller.GraphEdges
import Tierkreis.Controller.Storage
import Tierkreis.Controller.MapNode
import Tierkreis.Controller.MapElements
import Tierkreis.Idl.Namespace
import Tierkreis.Runtime.Inheritance
import Tierkreis.IndexedGraph
import Tierkreis.OneProducer
import Tierkreis.Lib.PyInt
import Tierkreis.Controller.LocString
import Tierkreis.Controller.LocCodec
import Tierkreis.Python.Verdict
import Tierkreis.Python.Faithful
import Tierkreis.Python.AnnotatedCodec
import Tierkreis.Python.PlainValues
import Tierkreis.Controller.Meaning
import Tierkreis.Controller.Embed
import Tierkreis.Controller.EmbedCopies
import Tierkreis.Controller.EmbedEval
import Tierkreis.Controller.Walk
import Tierkreis.Controller.Start
import Tierkreis.Controller.Run
import Tierkreis.Controller.Scopes
import Tierkreis.Controller.Sound
import Tierkreis.Controller.WalkSound
import Tierkreis.Controller.StartSound
import Tierkreis.Controller.RunSound
import Tierkreis.Controller.Script
import Tierkreis.Controller.Made
import Tierkreis.Controller.PlainRuns
import Tierkreis.Idl.Spec
import Tierkreis.Idl.Written
