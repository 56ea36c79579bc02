import HpcProfiler.ActivityAccounts
import HpcProfiler.ActivityCorrelation
import HpcProfiler.ActivityDelivery
import HpcProfiler.ActivityRecords
import HpcProfiler.AlignmentBounds
import HpcProfiler.AlignmentFixpoint
import HpcProfiler.AlignmentShift
import HpcProfiler.AllocationHistory
import HpcProfiler.AlternatingHistory
import HpcProfiler.BootstrapFlag
import HpcProfiler.BootstrapSource
import HpcProfiler.BoundedQueue
import HpcProfiler.BurstRuns
import HpcProfiler.ClockCalibration
import HpcProfiler.Correlation
import HpcProfiler.CorrelationLookups
import HpcProfiler.CorrelationOwners
import HpcProfiler.CorrelationPasses
import HpcProfiler.CorrelationSound
import HpcProfiler.CorrelationWindow
import HpcProfiler.CorrelatorLifecycle
import HpcProfiler.CorrelatorSession
import HpcProfiler.CountedRows
import HpcProfiler.CpuCodec
import HpcProfiler.CpuPrefix
import HpcProfiler.CpuReads
import HpcProfiler.CpuRoundTrip
import HpcProfiler.CuptiThreads
import HpcProfiler.CyclicCells
import HpcProfiler.DeallocPairing
import HpcProfiler.DecimalText
import HpcProfiler.DecoderSafety
import HpcProfiler.DeviceTable
import HpcProfiler.Discovery
import HpcProfiler.DiscoveryPasses
import HpcProfiler.DrainLoops
import HpcProfiler.DrainResults
import HpcProfiler.EdgeHistory
import HpcProfiler.EventAccounting
import HpcProfiler.Events
import HpcProfiler.FallibleSteps
import HpcProfiler.FieldFrames
import HpcProfiler.GeneratedSession
import HpcProfiler.GpuCodec
import HpcProfiler.GpuEncoder
import HpcProfiler.GpuOldFormat
import HpcProfiler.GpuRoundTrip
import HpcProfiler.GraphAgreement
import HpcProfiler.GraphExport
import HpcProfiler.GraphHistory
import HpcProfiler.GraphMerge
import HpcProfiler.GraphNodes
import HpcProfiler.GraphPaths
import HpcProfiler.GraphSummary
import HpcProfiler.GraphTotals
import HpcProfiler.GreedyChoice
import HpcProfiler.HexText
import HpcProfiler.HostPipeline
import HpcProfiler.HostSampling
import HpcProfiler.InjectedCalls
import HpcProfiler.Injection
import HpcProfiler.InjectionCleanup
import HpcProfiler.InjectionRegion
import HpcProfiler.IntervalSearch
import HpcProfiler.LayerLocks
import HpcProfiler.LayerSteps
import HpcProfiler.LayerWorld
import HpcProfiler.ListWalks
import HpcProfiler.LittleEndian
import HpcProfiler.MachineCode
import HpcProfiler.MemoryLayer
import HpcProfiler.MigrationCounts
import HpcProfiler.MockSession
import HpcProfiler.NewObjects
import HpcProfiler.ObjectGraph
import HpcProfiler.ProcessMaps
import HpcProfiler.ProfilerLoop
import HpcProfiler.ProfilerThreads
import HpcProfiler.PythonLiteral
import HpcProfiler.PythonText
import HpcProfiler.RightmostSearch
import HpcProfiler.RingAdmission
import HpcProfiler.RingFifo
import HpcProfiler.RingMapping
import HpcProfiler.RingRecords
import HpcProfiler.RunnerSession
import HpcProfiler.RunnerSteps
import HpcProfiler.SaturatingSum
import HpcProfiler.SearchRounds
import HpcProfiler.SessionHistograms
import HpcProfiler.SessionSchema
import HpcProfiler.SharedFile
import HpcProfiler.SharedRing
import HpcProfiler.ShellcodeRun
import HpcProfiler.SiteCharges
import HpcProfiler.SiteSizes
import HpcProfiler.SizeWindow
import HpcProfiler.SortedRanks
import HpcProfiler.SpscInvariant
import HpcProfiler.SpscSafety
import HpcProfiler.SpscSteps
import HpcProfiler.StableSort
import HpcProfiler.StagedTransfers
import HpcProfiler.StepSystem
import HpcProfiler.StraightLine
import HpcProfiler.StrandedDeaths
import HpcProfiler.StructFormat
import HpcProfiler.SymbolLookup
import HpcProfiler.TakingTurns
import HpcProfiler.TraceAlignment
import HpcProfiler.TraceEvents
import HpcProfiler.TraceGraph
import HpcProfiler.TraceMerge
import HpcProfiler.TracedAlignment
import HpcProfiler.TracerCallbacks
import HpcProfiler.TracerFile
import HpcProfiler.TrackedTruth
import HpcProfiler.UiSession
import HpcProfiler.Utf8Cut
import HpcProfiler.Utf8Replace
import HpcProfiler.WholeSession
import HpcProfiler.WireFixpoint
import HpcProfiler.WordMixing
import HpcProfiler.WorldInvariant
import HpcProfiler.WrappingCounter
