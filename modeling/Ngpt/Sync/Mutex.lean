import Ngpt.Errno
import Ngpt.Lib.Transition
import Ngpt.Sync.Ring

/-!
# ngpt — private mutexes (`pth_sync.c`)

`pth_mutex_acquire` and `pth_mutex_release` on process-private mutexes, with the
two records they keep: the mutexes a thread owns (`mutex_owned` and the ring
`mutexring`) and the threads that wait for a mutex (`mx_waitlist`). What the code
does under `mx_lock` is one step; the tests that `pth_mutex_release` makes before
it takes the lock are steps of their own.

The model is that of 32-bit words: `mx_count` and `mx_waitcount` are `unsigned
long`. A waiting thread may come back from `pth_wait` or `select` at any time, so
the results do not depend on how the event manager and the scheduler choose.
-/

namespace Ngpt.Sync

open Function LinkedRing

/-- `mx_type`. -/
inductive MutexType where
  | timedNp
  | recursiveNp
  | errorcheckNp
  | adaptiveNp
  deriving DecidableEq, Repr

/-- `pth_mutex_t`, less the ring node and the wait list, which are in `Mem`. The
first two fields are bits of `mx_state`; `qlock` is `mx_lock` where it is itself the
lock, on a mutex with `PTH_MUTEX_INTERNAL_LOCKED`. -/
structure Mutex (Tid : Type) where
  locked         : Bool
  internalLocked : Bool
  type           : MutexType
  owner          : Option Tid
  ownerPid       : Nat
  count          : Nat
  waitcount      : Nat
  qlock          : Option Tid
  deriving DecidableEq, Repr

/-- The fields of a thread that the mutex code reads. -/
structure Thread (Mid D : Type) where
  mutexOwned   : Option Mid
  mutexring    : PthRing Mid
  boundnative  : Option D
  waitedNative : Option D
  deriving DecidableEq, Repr

/-- What a `pth_list_t` pointer of a wait list points at: nothing, the `mx_waitlist`
of a mutex, or the `mutex_cond_wait` of a thread. -/
inductive WaitNode (Mid Tid : Type) where
  | null
  | mutex (m : Mid)
  | thread (t : Tid)
  deriving DecidableEq, Repr

/-- The memory of the process: the mutexes with the links of their ring nodes and
wait lists, the threads, and what a release does to wake a waiter (bytes written to
the pipe of a native, threads appended to `pth_RQ`, calls of `pth_wakeup_anative`). -/
structure Mem (Mid Tid D : Type) where
  mutex    : Mid → Mutex Tid
  thread   : Tid → Thread Mid D
  rn       : Links (Option Mid)
  wait     : Links (WaitNode Mid Tid)
  natives  : Nat
  pid      : Nat
  sigpipe  : D → Nat
  readied  : List Tid
  anatives : Nat

variable {Mid Tid D : Type} [DecidableEq Mid] [DecidableEq Tid] [DecidableEq D]

/-- `pth_mutex_init` of a private mutex of the given type. -/
def pthMutexInit (type : MutexType) : Mutex Tid :=
  { locked := false, internalLocked := false, type := type, owner := none, ownerPid := 0
    count := 0, waitcount := 0, qlock := none }

/-- `PTH_ELEMENT_INSERT`: right after the head. -/
def pthElementInsert (l : Links (WaitNode Mid Tid)) (tq allTq : WaitNode Mid Tid) :
    Links (WaitNode Mid Tid) :=
  l.insertBetween tq allTq (l.next allTq)

/-- `PTH_ELEMENT_DELETE`. -/
def pthElementDelete (l : Links (WaitNode Mid Tid)) (tq : WaitNode Mid Tid) :
    Links (WaitNode Mid Tid) :=
  (l.unlink (l.prev tq) (l.next tq)).setNext tq .null

namespace Mem

def setMutex (s : Mem Mid Tid D) (m : Mid) (mx : Mutex Tid) : Mem Mid Tid D :=
  { s with mutex := update s.mutex m mx }

def setThread (s : Mem Mid Tid D) (t : Tid) (th : Thread Mid D) : Mem Mid Tid D :=
  { s with thread := update s.thread t th }

/-- The bookkeeping of a mutex just acquired: the first one a thread holds is its
`mutex_owned`, the others are in its ring. -/
def ownMutex (s : Mem Mid Tid D) (t : Tid) (m : Mid) : Mem Mid Tid D :=
  let th := s.thread t
  if th.mutexOwned = none then s.setThread t { th with mutexOwned := some m }
  else
    let r := pthRingAppend s.rn th.mutexring (some m)
    { s.setThread t { th with mutexring := r.2 } with rn := r.1 }

/-- Take a free mutex: the end of both paths of `pth_mutex_acquire`. -/
def take (s : Mem Mid Tid D) (t : Tid) (m : Mid) : Mem Mid Tid D :=
  (s.setMutex m { s.mutex m with
    locked := true, owner := some t, ownerPid := s.pid, count := 1 }).ownMutex t m

/-- The bookkeeping of a mutex that is given up. -/
def disownMutex (s : Mem Mid Tid D) (t : Tid) (m : Mid) : Mem Mid Tid D :=
  let th := s.thread t
  if th.mutexOwned = some m then s.setThread t { th with mutexOwned := none }
  else
    let r := pthRingDelete s.rn th.mutexring (some m)
    { s.setThread t { th with mutexring := r.2 } with rn := r.1 }

/-- Free a mutex that `t` owns. -/
def giveUp (s : Mem Mid Tid D) (t : Tid) (m : Mid) : Mem Mid Tid D :=
  (s.setMutex m { s.mutex m with
    locked := false, owner := none, ownerPid := 0, count := 0 }).disownMutex t m

def addWaiter (s : Mem Mid Tid D) (m : Mid) : Mem Mid Tid D :=
  s.setMutex m { s.mutex m with waitcount := Unsigned.incr (s.mutex m).waitcount }

def removeWaiter (s : Mem Mid Tid D) (m : Mid) : Mem Mid Tid D :=
  s.setMutex m { s.mutex m with waitcount := Unsigned.decr (s.mutex m).waitcount }

/-- `pth_mutex_acquire` up to its return or its first wait: the return code, or
`none` when the caller has to wait. -/
def acquireEnter (s : Mem Mid Tid D) (t : Tid) (m : Mid) (tryonly bounded : Bool) :
    Option Errno × Mem Mid Tid D :=
  let mx := s.mutex m
  if mx.locked = false ∧ mx.waitcount = 0 then (some .ok, s.take t m)
  else if mx.owner = some t ∧ mx.count ≥ 1 then
    if mx.type = .recursiveNp then
      (some .ok, s.setMutex m { mx with count := Unsigned.incr mx.count })
    else (some (if tryonly then .ebusy else .edeadlk), s)
  else if tryonly then (some .ebusy, s)
  else
    let s := if s.natives > 1 then
      { s with wait := pthElementInsert s.wait (.thread t) (.mutex m) } else s
    (none, if bounded then s.addWaiter m else s)

/-- A waiter that is back and has `mx_lock`: it takes the mutex, or waits again. -/
def acquireResume (s : Mem Mid Tid D) (t : Tid) (m : Mid) (bounded : Bool) :
    Option Errno × Mem Mid Tid D :=
  let s := if bounded then s.removeWaiter m else s
  if (s.mutex m).locked = false then
    let s := if s.natives > 1 then { s with wait := pthElementDelete s.wait (.thread t) } else s
    (some .ok, s.take t m)
  else (none, if bounded then s.addWaiter m else s)

/-- Move a waiter from the wait queue of its native to `pth_RQ`, unless the event
manager has done so. -/
def readyWaiter (s : Mem Mid Tid D) (tmp : Tid) : Mem Mid Tid D :=
  if (s.thread tmp).waitedNative = none then s
  else
    { s.setThread tmp { s.thread tmp with waitedNative := none } with
      readied := s.readied ++ [tmp] }

def pthWakeupAnative (s : Mem Mid Tid D) : Mem Mid Tid D := { s with anatives := s.anatives + 1 }

/-- The wake-up at the end of a release by `t`: the longest waiting thread, which is
the last one of the list. A tail that is neither the head nor a thread's element
stands for memory that is no thread; nobody is woken then. -/
def wakeWaiter (s : Mem Mid Tid D) (t : Tid) (m : Mid) : Mem Mid Tid D :=
  if s.natives > 1 then
    match s.wait.prev (.mutex m) with
    | .thread tmp =>
      match (s.thread tmp).boundnative with
      | some ds => { s with sigpipe := update s.sigpipe ds (s.sigpipe ds + 1) }
      | none =>
        let s := s.readyWaiter tmp
        if (s.thread t).boundnative = none then s else s.pthWakeupAnative
    | _ => s
  else s

/-- `pth_mutex_release` from the moment it has `mx_lock`. -/
def releaseLocked (s : Mem Mid Tid D) (t : Tid) (m : Mid) : Mem Mid Tid D :=
  let count := Unsigned.decr (s.mutex m).count
  if count = 0 then (s.giveUp t m).wakeWaiter t m
  else s.setMutex m { s.mutex m with count := count }

/-- `pth_mutex_release` as one step, for a caller that nobody interrupts. -/
def pthMutexRelease (s : Mem Mid Tid D) (t : Tid) (m : Mid) : Errno × Mem Mid Tid D :=
  let mx := s.mutex m
  if mx.locked = false then
    if mx.internalLocked then (.ok, s.setMutex m { mx with qlock := none })
    else (.eperm, s)
  else if mx.owner ≠ some t then (.eperm, s)
  else (.ok, s.releaseLocked t m)

end Mem

/-! ## Threads -/

/-- Where a thread is: outside the mutex code, or before the named piece of it. -/
inductive Pc (Mid : Type) where
  | idle
  | acquire (m : Mid) (tryonly extra bounded : Bool)
  /-- in `pth_wait`, or (a bounded native) in `select` -/
  | waitEvent (m : Mid) (extra : Bool)
  | waitSelect (m : Mid)
  /-- before the test of `mx_state`, the test of `mx_owner`, and `mx_lock` -/
  | releaseState (m : Mid)
  | releaseOwner (m : Mid)
  | releaseLock (m : Mid)
  | returned (rc : Errno)
  deriving DecidableEq, Repr

/-- The threads at work. `held m t` is not in the code: how often `t` has acquired
`m` and not released it yet. -/
structure Sys (Mid Tid D : Type) where
  mem  : Mem Mid Tid D
  pc   : Tid → Pc Mid
  held : Mid → Tid → Nat

inductive Action (Mid Tid D : Type) where
  | acquire (t : Tid) (m : Mid) (tryonly extra bounded : Bool)
  | release (t : Tid) (m : Mid)
  /-- the next piece of `t`; `occurred` says whether a wait that ends was ended by
  the mutex event -/
  | go (t : Tid) (occurred : Bool)
  /-- what other parts of the library change -/
  | natives (n : Nat)
  | bind (t : Tid) (d : Option D)
  | park (t : Tid) (d : Option D)
  deriving DecidableEq, Repr

/-- A thread that may make a call. -/
def Pc.outside : Pc Mid → Bool
  | .idle | .returned _ => true
  | _ => false

/-- One entry of the count of acquires. -/
def heldSet (held : Mid → Tid → Nat) (m : Mid) (t : Tid) (n : Nat) : Mid → Tid → Nat :=
  update held m (update (held m) t n)

namespace Sys

def goto (s : Sys Mid Tid D) (t : Tid) (pc : Pc Mid) : Sys Mid Tid D :=
  { s with pc := update s.pc t pc }

def setHeld (s : Sys Mid Tid D) (m : Mid) (t : Tid) (n : Nat) : Sys Mid Tid D :=
  { s with held := heldSet s.held m t n }

/-- A piece of `pth_mutex_acquire` has run: it returns, or the thread waits at `pc`. -/
def acquired (s : Sys Mid Tid D) (t : Tid) (m : Mid) (pc : Pc Mid) :
    Option Errno × Mem Mid Tid D → Sys Mid Tid D
  | (none, mem) => { s.goto t pc with mem := mem }
  | (some rc, mem) =>
    let s := { s.goto t (.returned rc) with mem := mem }
    if rc = .ok then s.setHeld m t (s.held m t + 1) else s

/-- The next piece of the call that `t` is in; `none` if there is none. -/
def go (s : Sys Mid Tid D) (t : Tid) (occurred : Bool) : Option (Sys Mid Tid D) :=
  match s.pc t with
  | .idle => none
  | .returned _ => none
  | .acquire m tryonly extra bounded =>
    let mx := s.mem.mutex m
    if mx.internalLocked then
      if mx.qlock = none then
        some { s.goto t (.returned .ok) with mem := s.mem.setMutex m { mx with qlock := some t } }
      else none
    else
      some (s.acquired t m (if bounded then .waitSelect m else .waitEvent m extra)
        (s.mem.acquireEnter t m tryonly bounded))
  | .waitEvent m extra =>
    if extra && !occurred then some (s.goto t (.returned .eintr))
    else some (s.acquired t m (.waitEvent m extra) (s.mem.acquireResume t m false))
  | .waitSelect m => some (s.acquired t m (.waitSelect m) (s.mem.acquireResume t m true))
  | .releaseState m =>
    let mx := s.mem.mutex m
    if mx.locked then some (s.goto t (.releaseOwner m))
    else if mx.internalLocked then
      some { s.goto t (.returned .ok) with mem := s.mem.setMutex m { mx with qlock := none } }
    else some (s.goto t (.returned .eperm))
  | .releaseOwner m =>
    if (s.mem.mutex m).owner ≠ some t then some (s.goto t (.returned .eperm))
    else some (s.goto t (.releaseLock m))
  | .releaseLock m =>
    some ({ s.goto t (.returned .ok) with mem := s.mem.releaseLocked t m }.setHeld m t
      (s.held m t - 1))

def step (s : Sys Mid Tid D) : Action Mid Tid D → Option (Sys Mid Tid D)
  | .acquire t m tryonly extra bounded =>
    if (s.pc t).outside then some (s.goto t (.acquire m tryonly extra bounded)) else none
  | .release t m => if (s.pc t).outside then some (s.goto t (.releaseState m)) else none
  | .go t occurred => s.go t occurred
  | .natives n => some { s with mem := { s.mem with natives := n } }
  | .bind t d =>
    some { s with mem := s.mem.setThread t { s.mem.thread t with boundnative := d } }
  | .park t d =>
    some { s with mem := s.mem.setThread t { s.mem.thread t with waitedNative := d } }

end Sys

end Ngpt.Sync
