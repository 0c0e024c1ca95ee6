import LoneNvme.Lib.Machine
import LoneNvme.Lib.Python
import LoneNvme.Lib.Lists
import LoneNvme.Lib.Sweep
import LoneNvme.Lib.Ring
import LoneNvme.Lib.RoundRobin
import LoneNvme.Lib.Fifo
import LoneNvme.Lib.Links
import LoneNvme.Lib.Dict
import LoneNvme.Lib.Bytes
import LoneNvme.Structures
import LoneNvme.Queues
import LoneNvme.QueueMgr
import LoneNvme.CompletionRing
import LoneNvme.Complete
import LoneNvme.SubmissionRing
import LoneNvme.NVSimThread
import LoneNvme.Rings
import LoneNvme.FlowControl
import LoneNvme.Device
import LoneNvme.Bookkeeping
import LoneNvme.CidReuse
import LoneNvme.Prp
import LoneNvme.PrpData
import LoneNvme.CompletionFailures
import LoneNvme.Commands
import LoneNvme.NVSim
import LoneNvme.Answers
import LoneNvme.Lib.BlockDevice
import LoneNvme.PrpBuffer
import LoneNvme.PrpEnds
import LoneNvme.PrpRoundTrip
import LoneNvme.ReadWrite
import LoneNvme.LiveQueues
import LoneNvme.IoDispatch
import LoneNvme.NVSimDevice
import LoneNvme.QueueReset
import LoneNvme.QueueViews
import LoneNvme.SimFrame
import LoneNvme.HostFrame
import LoneNvme.QueueLife
import LoneNvme.QueueSteps
import LoneNvme.NewPairs
import LoneNvme.QueueAgreement
import LoneNvme.QueueRuns
import LoneNvme.DeleteQueues
import LoneNvme.FreeMalloc
import LoneNvme.MemMgr
import LoneNvme.PrpMemory
import LoneNvme.IovaRanges
import LoneNvme.HugePagesCalls
import LoneNvme.FreeAll
import LoneNvme.HugePagesRuns
import LoneNvme.Fragmentation
import LoneNvme.StatusCodes
import LoneNvme.SyncCmd
import LoneNvme.ProcessCompletions
import LoneNvme.Msix
import LoneNvme.PairCreation
import LoneNvme.Registers
import LoneNvme.Lib.Codec
import LoneNvme.PackedStructs
import LoneNvme.WireFormat
import LoneNvme.QueueMemory
import LoneNvme.QueueBytes
import LoneNvme.Session
import LoneNvme.Features
import LoneNvme.PowerStates
import LoneNvme.SimConfig
import LoneNvme.Discovery
import LoneNvme.FunctionLevelReset
import LoneNvme.Lib.BinaryPoly
import LoneNvme.Lib.Periods
import LoneNvme.LbaGen
import LoneNvme.LbaCycle
import LoneNvme.LbaPermutation
import LoneNvme.Lib.Retry
import LoneNvme.LbaRetry
import LoneNvme.RwProgram
import LoneNvme.PcieRegs
import LoneNvme.LogPages
import LoneNvme.Capabilities
import LoneNvme.CapabilityWalk
import LoneNvme.CapabilityDiscovery
import LoneNvme.CapabilityAccess
import LoneNvme.CapabilityLayout
import LoneNvme.Lib.Hex
import LoneNvme.Hexdump
import LoneNvme.VfioInfo
import LoneNvme.IdentifyNamespaces
import LoneNvme.ComparableStruct
import LoneNvme.Lib.Firsts
import LoneNvme.Conftest
