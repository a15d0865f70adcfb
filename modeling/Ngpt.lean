import Ngpt.Sched.Conserve
import Ngpt.Sync.Once
import Ngpt.Sync.Robust
import Ngpt.Sync.BarrierRuns
import Ngpt.Sync.AreaRuns
import Ngpt.Sync.SharedOwner
import Ngpt.Io.Positioned
import Ngpt.Sched.Join
import Ngpt.Sync.WaitLists
import Ngpt.Sync.NativeLock
import Ngpt.Sync.Owned
import Ngpt.Sched.Bounded
import Ngpt.Sched.Sigmask
import Ngpt.Sync.CondState
import Ngpt.Sched.SuspendResume
import Ngpt.Alloc.Lookup
import Ngpt.Sync.Destroy
import Ngpt.Sync.FutexFd
import Ngpt.Sync.SemDestroy
import Ngpt.Sync.CondCancel
import Ngpt.Sync.StrayReturns
import Ngpt.Alloc.RwlockLeak
import Ngpt.Alloc.Usage
import Ngpt.Alloc.Verify
import Ngpt.Data.CancelType
import Ngpt.Data.CleanupAll
import Ngpt.Event.Extra
import Ngpt.Event.Wait
import Ngpt.Data.MsgDestroy
import Ngpt.Data.RingFront
import Ngpt.Data.Time
import Ngpt.Event.Select
import Ngpt.Data.Destroydata
import Ngpt.Io.Faked
import Ngpt.Io.FdMode
import Ngpt.Io.Poll
import Ngpt.Sched.Atfork
import Ngpt.Sched.Control
import Ngpt.Sched.Pending
import Ngpt.Sched.ThreadList
import Ngpt.Data.KeyBounds
import Ngpt.Io.Advance
import Ngpt.Queue.MsBit
import Ngpt.Data.Vasprintf
