import Sdarc.Transition
import Sdarc.TaggedCounter
import Sdarc.AtomicTaggedCounter
import Sdarc.UpdateState
import Sdarc.ZeroDetection
import Sdarc.ShardIndex
import Sdarc.ShardedRwLock
import Sdarc.ShardedRwLock.Data
import Sdarc.ShardedAlloc.Dropping
import Sdarc.ShardedAlloc.Alone
import Sdarc.ShardedAlloc.Integrity
import Sdarc.CollectorMain.Served
import Sdarc.Collection.Resting
import Sdarc.Reclamation
import Sdarc.System.Tracking
import Sdarc.System.Conservation
import Sdarc.System.Upgrades
import Sdarc.System.RecordCount
import Sdarc.System.Scopes
import Sdarc.System.Refinement
import Sdarc.System.NonNull
import Sdarc.System.GracePeriod
import Sdarc.System.Identity
import Sdarc.System.Progress
import Sdarc.System.Waiting
import Sdarc.System.Unlinked
import Sdarc.System.OuterIteration
import Sdarc.System.Overflow
import Sdarc.System.Garbage
