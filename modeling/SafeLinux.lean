import SafeLinux.IovaMap.Invert
import SafeLinux.Kiumd.CloseOutcome
import SafeLinux.Kiumd.ReservedMem
import SafeLinux.Effects.Actions
import SafeLinux.Effects.Lift
import SafeLinux.Kiumd.Actions
import SafeLinux.Kiumd.BufferShapes
import SafeLinux.Kiumd.ContextBanks
import SafeLinux.Kiumd.CustomIova
import SafeLinux.Kiumd.HandleCounts
import SafeLinux.Kiumd.Ids
import SafeLinux.Kiumd.KgslRanges
import SafeLinux.Kiumd.OwnTables
import SafeLinux.Kiumd.RegionArrays
import SafeLinux.Kiumd.TableOwners
import SafeLinux.Effects.Determined
import SafeLinux.Effects.Free
import SafeLinux.Effects.Threads
import SafeLinux.Heaps.Clearing
import SafeLinux.Heaps.Zeroed
import SafeLinux.Kiumd.Creators
import SafeLinux.Kiumd.Owners
import SafeLinux.Kiumd.SecurePage
import SafeLinux.KryoEdac.Checks
import SafeLinux.KryoEdac.HandlerLock
import SafeLinux.KryoEdac.PmExit
import SafeLinux.MhiEpNet.Conservation
import SafeLinux.MhiEpNet.Wakeups
import SafeLinux.Profiler.Driver
import SafeLinux.Profiler.Exclusion
import SafeLinux.ScmIntf.Driver
import SafeLinux.ScmIntf.SecureCalls
import SafeLinux.ScmIntf.StackContents
import SafeLinux.SgOps.Driver
import SafeLinux.SgOps.Mapped
import SafeLinux.Uscmi.Power
import SafeLinux.Handovers.Basic
import SafeLinux.IovaMap.Ownership
import SafeLinux.Kiumd.BufferParts
import SafeLinux.Kiumd.CloseReversal
import SafeLinux.Kiumd.FailedUnmaps
import SafeLinux.Kiumd.FaultLatch
import SafeLinux.Kiumd.FaultText
import SafeLinux.Kiumd.FaultTokens
import SafeLinux.Kiumd.HandleFailures
import SafeLinux.Kiumd.HandleNames
import SafeLinux.Kiumd.HandleObjects
import SafeLinux.Kiumd.HandleReleases
import SafeLinux.Kiumd.IovaFailures
import SafeLinux.Kiumd.MapBalance
import SafeLinux.Kiumd.MappedBytes
import SafeLinux.Kiumd.MmioFixed
import SafeLinux.Kiumd.PageLinks
import SafeLinux.Kiumd.PairLinks
import SafeLinux.Kiumd.RegionReports
import SafeLinux.Kiumd.ScmRoundTrip
import SafeLinux.Kiumd.SecureMapFailures
import SafeLinux.KryoEdac.Probe
import SafeLinux.KryoEdac.Unwind
import SafeLinux.DmaHeap.Driver
import SafeLinux.DmaHeap.ParseFailures
import SafeLinux.DmaHeap.Probe
import SafeLinux.Effects.Erase
import SafeLinux.Heaps.Accounts
import SafeLinux.Kiumd.FaultFailures
import SafeLinux.Kiumd.MmioFailures
import SafeLinux.Kiumd.TcrHalves
import SafeLinux.SgOps.KernelMaps
import SafeLinux.SgOps.Mmap
import SafeLinux.Effects.Expand
import SafeLinux.KryoEdac.Clearing
import SafeLinux.Loans.Basic
import SafeLinux.Profiler.Counters
import SafeLinux.Profiler.Modes
import SafeLinux.Profiler.SharedBuffers
import SafeLinux.ScmIntf.Bounds
import SafeLinux.ScmIntf.Custody
import SafeLinux.Kiumd.ConcurrentUnmaps
import SafeLinux.Effects.Arrays
import SafeLinux.Heaps.Batches
import SafeLinux.IovaMap.PropertyLengths
import SafeLinux.Kiumd.ConcurrentMaps
import SafeLinux.MhiEpNet.Ordering
import SafeLinux.MhiEpNet.Received
import SafeLinux.MhiEpNet.UplinkBounds
import SafeLinux.SgOps.PagePointers
import SafeLinux.Uscmi.Resets
import SafeLinux.Kiumd.Services
import SafeLinux.Kiumd.KgslLeases
import SafeLinux.Kiumd.LentMemory
import SafeLinux.Kiumd.MappingStore
import SafeLinux.Kiumd.LiveRanges
import SafeLinux.Kiumd.DetachedMemory
import SafeLinux.DloadMode.Agreement
import SafeLinux.DmaHeap.Descriptions
