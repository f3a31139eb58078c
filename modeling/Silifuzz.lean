import Silifuzz.Common.MappedMemoryMap.History
import Silifuzz.Common.MemoryBytesSet.Pool
import Silifuzz.Common.MemoryState.DeltaBytes
import Silifuzz.Common.MemoryState.Exact
import Silifuzz.Common.MemoryState.Negative
import Silifuzz.Common.Snapshot.Normal
import Silifuzz.Common.Snapshot.Equality
import Silifuzz.Common.SnapshotUtil.Split
import Silifuzz.Common.RawInsnsUtil.RoundTrip
import Silifuzz.Common.SnapshotProto.RoundTrip
import Silifuzz.Fuzzer.ProgramAArch64.Displacement
import Silifuzz.Fuzzer.ProgramAArch64.Roundtrip
import Silifuzz.Fuzzer.ProgramMutationOps.Retarget
import Silifuzz.Fuzzer.ProgramBatchMutator
import Silifuzz.Orchestrator.BinaryLogChannel.Receive
import Silifuzz.Orchestrator.ExecutionContext.Delivery
import Silifuzz.Proxies.PageTable.Image
import Silifuzz.Proxies.PageTable.Walk
import Silifuzz.Runner.Runner.Timers
import Silifuzz.Snap.Gen.RepeatingByteRuns.Maximal
import Silifuzz.Snap.Gen.Snapify.Convertible
import Silifuzz.Snap.SnapChecksum
import Silifuzz.Tools.Minimizer.Budgets
import Silifuzz.Tools.Minimizer.Runs
import Silifuzz.Tools.SdcExperiment.Gate
import Silifuzz.Tools.SdcPipeline.Vault
import Silifuzz.ToolLibs.SnapGroup.Partition
import Silifuzz.Util.Crc32c.Accelerated
import Silifuzz.Util.RangeMap.Usage
import Silifuzz.Common.MappedMemoryMap.Exact
import Silifuzz.Runner.SnapMaker.CheckTrace
import Silifuzz.Runner.Runner.Report
import Silifuzz.Util.MemUtil
import Silifuzz.Util.TextProtoPrinter.Capacity
import Silifuzz.Util.TextProtoPrinter.Messages
import Silifuzz.Util.TextProtoPrinter.Numbers
import Silifuzz.Util.Atoi
import Silifuzz.Proxies.PmuEventProxy.PerfEventBuffer
import Silifuzz.Orchestrator.OrchestratorUtil.MemLimit
import Silifuzz.Tools.SdcPipeline.Filters
import Silifuzz.Tools.SdcPipeline.Candidate
import Silifuzz.Tools.SdcPipeline.Gem5Runner
import Silifuzz.Tools.SdcPipeline.Readset
import Silifuzz.Tools.SdcPipeline.Mutators
import Silifuzz.Tools.SdcPipeline.Pipeline
import Silifuzz.Tools.SdcExperiment.Correlation
import Silifuzz.Tools.SdcExperiment.SdcbenchGen
import Silifuzz.Util.TimeProtoUtil
import Silifuzz.Util.Ucontext.Signal
import Silifuzz.Util.ProcMapsParser
import Silifuzz.Instruction.DecodedInsn.SplitLock
import Silifuzz.Runner.RunnerMain
import Silifuzz.Snap.SnapRelocator.Safe
import Silifuzz.Tools.SdcExperiment.Feedback.Listed
import Silifuzz.Library.Footprints
import Silifuzz.Snap.Gen.RelocatableSnapGenerator
import Silifuzz.Snap.Gen.RelocatableSnapGenerator.Passes
import Silifuzz.Snap.Gen.RelocatableSnapGenerator.Stores
import Silifuzz.Snap.Gen.RelocatableSnapGenerator.Objects
import Silifuzz.Snap.Gen.RelocatableSnapGenerator.RoundTrip
import Silifuzz.Library.AddressSpaces
import Silifuzz.Runner.Runner.Memory
import Silifuzz.Snap.Gen.Snapify.Snapified
import Silifuzz.Runner.Runner.GeneratedCorpus
