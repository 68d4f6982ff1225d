import LMCache.Lib.Run
import LMCache.Lib.Scatter
import LMCache.Lib.Splice
import LMCache.Lib.Cover
import LMCache.Lib.SortedKeyList
import LMCache.Lib.Dict
import LMCache.Lib.Mirror
import LMCache.Lib.Reads
import LMCache.Lib.PyStr
import LMCache.Lib.Arrivals
import LMCache.Lib.Weights
import LMCache.Lib.Counts
import LMCache.Lib.Ledger
import LMCache.Lib.NotifiedQueue
import LMCache.Lib.PriorityQueue
import LMCache.Lib.TierWalk
import LMCache.PyError
import LMCache.Memory.AddressManager
import LMCache.Memory.AddressSpace
import LMCache.Memory.FirstFit
import LMCache.Memory.MemoryObj
import LMCache.GPUConnector.KVLayerGroups
import LMCache.GPUConnector.LayerwiseTransfer
import LMCache.CacheEngineKey
import LMCache.KeyString
import LMCache.Protocol
import LMCache.RemoteMetadata
import LMCache.Server
import LMCache.SlotMapping
import LMCache.TokenDatabase
import LMCache.ChunkedTokenDatabase
import LMCache.SegmentTokenDatabase
import LMCache.Storage.StorageManager
import LMCache.Storage.WeightedSemaphore
import LMCache.Storage.CrossCopy
import LMCache.Storage.RemoteConnector
import LMCache.Storage.LMCServerConnector
import LMCache.EventManager
import LMCache.CacheEngine.ProcessTokens
import LMCache.CacheEngine.Retrieve
import LMCache.CacheEngine.Prefetch
import LMCache.CacheEngine.StoreEvents
import LMCache.CacheEngine.StoreLayer
import LMCache.CacheEngine.RetrieveLayer
import LMCache.CacheEngine.TierLookups
import LMCache.CacheEngine.LookupPins
import LMCache.Controller.WorkerNode
import LMCache.Storage.BatchedMessageSender
import LMCache.Storage.LocalCPUBackend
import LMCache.Storage.CpuAllocate
import LMCache.Storage.PrefixClosed
import LMCache.Controller.CpuView
import LMCache.Controller.PrefixLookup
import LMCache.Controller.Registration
import LMCache.Controller.SocketLoops
import LMCache.Controller.P2PLookup
import LMCache.Controller.RegistryThreads
import LMCache.Controller.FullSyncTracker
import LMCache.Controller.FullSyncSession
import LMCache.Controller.FullSyncSender
import LMCache.Controller.BatchAccounting
import LMCache.Controller.FreezeExit
import LMCache.Storage.LocalDiskBackend
import LMCache.Storage.DiskSizes
import LMCache.Storage.ObjectNames
import LMCache.Controller.MessageChannel
import LMCache.Controller.FullSyncConvergence
import LMCache.Memory.TensorAllocator
import LMCache.Memory.BatchedFree
import LMCache.Memory.MixedAllocator
import LMCache.Memory.FilledObj
import LMCache.Memory.LazyAllocator
import LMCache.Memory.BatchLayout
import LMCache.Memory.LazyExpansion
import LMCache.Memory.ObjectCounts
import LMCache.Storage.HotCache
import LMCache.Storage.CachePolicy
import LMCache.Storage.TouchCache
import LMCache.Memory.PagedAllocator
import LMCache.Memory.PageLayouts
import LMCache.Storage.RedisConnector
import LMCache.Storage.RemoteReads
import LMCache.Storage.PDBackend
import LMCache.Storage.PDTransfer
import LMCache.Storage.NixlStaticBackend
import LMCache.Storage.FailedPuts
import LMCache.Storage.GdsBackend
import LMCache.Storage.HyperPodConnector
import LMCache.Storage.FSConnector
import LMCache.Storage.LFUCachePolicy
import LMCache.Storage.SourceBuffers
import LMCache.Storage.P2PPeer
import LMCache.Storage.P2PGet
import LMCache.Storage.SenderThreads
import LMCache.Storage.LeaseJobs
import LMCache.Storage.JobExecutor
import LMCache.Storage.ExecutorShutdown
import LMCache.Storage.S3SizeCache
import LMCache.LookupClient.AsyncLookupClient
import LMCache.LookupClient.AsyncLookupRuns
import LMCache.Multiprocess.MessageQueue
import LMCache.Multiprocess.RequestReplies
import LMCache.Multiprocess.CustomTypes
import LMCache.Multiprocess.MPStorageManager
import LMCache.Multiprocess.KeyOwnership
import LMCache.Multiprocess.MPCacheEngine
import LMCache.Multiprocess.ReserveFailure
import LMCache.Multiprocess.LockExpiry
import LMCache.Multiprocess.LookupLocks
import LMCache.Vllm.RequestTracker
import LMCache.Vllm.SchedulerConnector
import LMCache.Vllm.SchedulerRuns
import LMCache.Vllm.LoadCoverage
import LMCache.Vllm.LoadErrors
import LMCache.Vllm.KeyAgreement
import LMCache.Vllm.SaveCoverage
import LMCache.Vllm.FinishedStores
import LMCache.Controller.SequenceGaps
import LMCache.Lib.Consecutive
import LMCache.Lib.Stride
import LMCache.Multiprocess.ChunkAlignment
import LMCache.Lib.RoundEven
import LMCache.Serde.CacheGenQuant
import LMCache.Lib.Tensor
import LMCache.Serde.CacheGenBytes
import LMCache.Lib.Brackets
import LMCache.Lib.Json
import LMCache.Storage.LeaseBalance
import LMCache.Storage.PutReferences
import LMCache.Memory.PagedAccounting
import LMCache.Lib.JsonText
import LMCache.Storage.GdsMetadata
import LMCache.Lib.ConditionVariable
import LMCache.Controller.RWLock
import LMCache.Experiment.VramMonitor
import LMCache.HealthMonitor
import LMCache.Controller.ClusterExecutor
import LMCache.Storage.S3CircuitBreaker
import LMCache.LookupClient.AsyncRecorder
import LMCache.LookupClient.LookupStacks
import LMCache.PeriodicThread
