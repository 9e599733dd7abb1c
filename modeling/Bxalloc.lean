import Bxalloc.AnchorRaceRuns
import Bxalloc.ArrayQueueLockFree
import Bxalloc.ArrayQueueSequential
import Bxalloc.AtomicCrossPtrCnt
import Bxalloc.ArrayQueueQuiescent
import Bxalloc.AtomicPptr
import Bxalloc.BuddyCoalesced
import Bxalloc.BuddyCrashRuns
import Bxalloc.BuddyFreeMemory
import Bxalloc.BulkWriteBack
import Bxalloc.BxpObjects
import Bxalloc.CacheBounds
import Bxalloc.DurableRuns
import Bxalloc.FirstRun
import Bxalloc.GcConsume
import Bxalloc.GcLost
import Bxalloc.GcReclaim
import Bxalloc.GcRestart
import Bxalloc.HeapRaceMoves
import Bxalloc.HeapStrays
import Bxalloc.LargeRecovery
import Bxalloc.LargeRegion
import Bxalloc.PartialList
import Bxalloc.RegionDurable
import Bxalloc.Roots
import Bxalloc.SbSupply
