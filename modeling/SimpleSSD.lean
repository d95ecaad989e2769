import SimpleSSD.FTL.FreeSpace
import SimpleSSD.FTL.Isolation
import SimpleSSD.FTL.Transparency
import SimpleSSD.FTL.Flash
import SimpleSSD.ICL.Splitting
import SimpleSSD.FTL.Discipline
import SimpleSSD.HIL.CompletionQueue
import SimpleSSD.Util.FIFOTransfers
import SimpleSSD.HIL.NVMe.DataIntegrity
import SimpleSSD.FTL.WarmUpBudget
import SimpleSSD.FTL.CacheOrder
import SimpleSSD.HIL.UFS.Progress
import SimpleSSD.HIL.SATA.Responses
import SimpleSSD.ICL.UsedPages
import SimpleSSD.FTL.WearLeveling
import SimpleSSD.FTL.BlockPages
import SimpleSSD.FTL.VictimSelection
import SimpleSSD.FTL.ReadLatency
import SimpleSSD.FTL.CacheHits
import SimpleSSD.PAL.Retries
import SimpleSSD.PAL.BusyTime
import SimpleSSD.ICL.FlushOnce
import SimpleSSD.ICL.Bounds
import SimpleSSD.ICL.ReadAhead
import SimpleSSD.HIL.NVMe.PipelineRuns
import SimpleSSD.HIL.NVMe.UnitConversion
import SimpleSSD.SIL.PRPData
import SimpleSSD.HIL.NVMe.DoorbellValues
import SimpleSSD.HIL.NVMe.QueueAborts
import SimpleSSD.HIL.NVMe.DatasetManagement
import SimpleSSD.CPU.Core
import SimpleSSD.SIL.None.Driver
import SimpleSSD.SIL.NVMe.BlockIO
import SimpleSSD.Util.DiskEquivalence
import SimpleSSD.HIL.NVMe.NamespaceLists
import SimpleSSD.HIL.NVMe.BadBlockTable
import SimpleSSD.HIL.NVMe.LogPage
import SimpleSSD.HIL.NVMe.NamespaceAttachment
import SimpleSSD.HIL.PRDT
import SimpleSSD.HIL.BusyTime
import SimpleSSD.Util.Bitset
import SimpleSSD.HIL.UFS.Query
import SimpleSSD.HIL.UFS.Ranges
import SimpleSSD.IGL.RequestTermination
import SimpleSSD.IGL.TraceReplayer
import SimpleSSD.PAL.Requests
import SimpleSSD.DRAM.SimpleDRAM
import SimpleSSD.HIL.ScatterGather
import SimpleSSD.BIL.BlockIOEntry
import SimpleSSD.SIL.NVMe.Dialogue
