import OISA.Proofs.OramObliviousness
import OISA.Proofs.MmuTranslation
import OISA.Proofs.EngineOrder
import OISA.Proofs.PortQueue
import OISA.Proofs.ForkJoin
import OISA.Proofs.MemoryRanges
import OISA.Proofs.ManagerRuns
import OISA.Proofs.SpeculativeIsolation
import OISA.Proofs.DirectorySharers
import OISA.Proofs.LockQueue
import OISA.Proofs.ReturnStack
import OISA.Proofs.PredictorTraining
import OISA.Proofs.TraceRecording
import OISA.Proofs.Coalescing
import OISA.Proofs.Eviction
import OISA.Proofs.SchedulePriority
import OISA.Proofs.BitmapPrograms
import OISA.Proofs.DramAddresses
import OISA.Proofs.RowBuffer
import OISA.Proofs.DramTiming
import OISA.Proofs.Routing
import OISA.Proofs.WireExclusion
import OISA.Proofs.PacketProgress
import OISA.Proofs.ListSequence
import OISA.Proofs.MHandleTracking
import OISA.Proofs.HeapQueue
import OISA.Proofs.HashTableMap
import OISA.Proofs.RingList
import OISA.Proofs.CursorList
import OISA.Proofs.BinConfigRoundTrip
import OISA.Proofs.ELFRanges
import OISA.Proofs.ELFRoundTrip
import OISA.Proofs.IniRoundTrip
import OISA.Proofs.OramPushBack
import OISA.Proofs.OramInit
import OISA.Proofs.OramWriteBack
import OISA.Proofs.DecoderBounds
import OISA.Proofs.ContextLife
import OISA.Proofs.FutexWaiters
import OISA.Proofs.WrongPath
import OISA.Proofs.Remapping
import OISA.Proofs.StringLoops
import OISA.Proofs.SignalDelivery
import OISA.Proofs.FailedAccess
import OISA.Proofs.PageRanges
import OISA.Primitives.PathOramSuboptimal
import OISA.Proofs.FetchPrediction
import OISA.Proofs.FreeRegions
import OISA.Proofs.ManagerAlignment
import OISA.Proofs.StableSorting
import OISA.Proofs.SuboptimalIds
import OISA.Proofs.TraceLookup
import OISA.Lib.UndoLogs
import OISA.Proofs.RegisterBooks
import OISA.Proofs.RenameLogs
import OISA.Proofs.Squashing
import OISA.Proofs.RegisterAccounting
import OISA.Proofs.DataDependences
import OISA.Proofs.ManagerChecks
import OISA.Proofs.CacheReplacement
import OISA.Proofs.ClearedOwners
import OISA.Proofs.EventsInFlight
import OISA.Proofs.QueueLinks
import OISA.Proofs.HostDivision
import OISA.Proofs.ExchangeAddresses
import OISA.Proofs.RoutingCycles
import OISA.Proofs.ManualRoutes
import OISA.Proofs.RoundRobin
import OISA.Proofs.BitMapFields
import OISA.Proofs.ByteFifo
import OISA.Proofs.SymbolLookup
import OISA.Proofs.FetchPermissions
import OISA.Proofs.BufferOccupancy
import OISA.Proofs.IntegerParsing
import OISA.Proofs.CycleRemoval
import OISA.Proofs.LayerAssignment
import OISA.Proofs.RouteCosts
import OISA.Proofs.FileDescriptors
import OISA.Proofs.IssueFairness
import OISA.Proofs.RobustLists
import OISA.X86.IsaSse
import OISA.Proofs.PackedShuffles
import OISA.Proofs.SignalMasks
import OISA.Proofs.Forking
import OISA.Proofs.HeapBreak
import OISA.Proofs.UinstExpansion
