import HighCache.Benchmark.Account
import HighCache.Benchmark.Accounting
import HighCache.Benchmark.Arguments
import HighCache.Benchmark.Client
import HighCache.Benchmark.Phases
import HighCache.Benchmark.Program
import HighCache.Benchmark.WorkerAccount
import HighCache.Benchmark.WorkerBuffers
import HighCache.Cache.Aggregation
import HighCache.Cache.Cache
import HighCache.Cache.CacheEngine
import HighCache.Cache.CacheShard
import HighCache.Cache.Counters
import HighCache.Cache.DeadlineCache
import HighCache.Cache.Deadlines
import HighCache.Cache.Eviction
import HighCache.Cache.FailedSet
import HighCache.Cache.Invariant
import HighCache.Cache.ItemCache
import HighCache.Cache.Operations
import HighCache.Cache.Reference
import HighCache.Cache.Refinement
import HighCache.Cache.Sharding
import HighCache.Cache.TimerSafety
import HighCache.Client.Command
import HighCache.Client.Session
import HighCache.Config.Accepted
import HighCache.Config.Config
import HighCache.Lib.BigEndian
import HighCache.Lib.Execution
import HighCache.Lib.Fairness
import HighCache.Lib.Families
import HighCache.Lib.FiniteMap
import HighCache.Lib.Framing
import HighCache.Lib.Gather
import HighCache.Lib.KeyedList
import HighCache.Lib.Memory
import HighCache.Lib.NodeList
import HighCache.Lib.Placement
import HighCache.Lib.Scan
import HighCache.Lib.SharedHistory
import HighCache.Lib.StdVector
import HighCache.Memory.SlabAllocator
import HighCache.Memory.SlabHeap
import HighCache.Memory.SlabPeaks
import HighCache.Memory.SlabRuns
import HighCache.Memory.SlabSafety
import HighCache.Memory.ValueAllocator
import HighCache.Net.AcceptorProgress
import HighCache.Net.Assembly
import HighCache.Net.Balance
import HighCache.Net.Buffer
import HighCache.Net.BufferStorage
import HighCache.Net.CacheServer
import HighCache.Net.Connection
import HighCache.Net.Dialogue
import HighCache.Net.Entries
import HighCache.Net.EventLoop
import HighCache.Net.Exchange
import HighCache.Net.HandleTimer
import HighCache.Net.Handoff
import HighCache.Net.HandoffSafety
import HighCache.Net.Ledger
import HighCache.Net.Lifetime
import HighCache.Net.Limits
import HighCache.Net.Liveness
import HighCache.Net.Orderly
import HighCache.Net.OwnerSteps
import HighCache.Net.Processing
import HighCache.Net.Replay
import HighCache.Net.Serving
import HighCache.Net.Shutdown
import HighCache.Net.Throwing
import HighCache.Net.WorkerProgress
import HighCache.Net.WorkerSafety
import HighCache.Protocol.Frames
import HighCache.Protocol.Incremental
import HighCache.Protocol.ProtocolCodec
import HighCache.Protocol.Responses
import HighCache.Protocol.Stream
import HighCache.Server.Program
import HighCache.Timer.TimingWheel
import HighCache.Timer.WheelRuns
