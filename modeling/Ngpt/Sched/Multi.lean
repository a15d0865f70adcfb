import Ngpt.Sched.Single

/-!
# ngpt — threads between the queues of several native threads

In M:N mode every native thread `d` runs the scheduler and, in between, one of the threads.
This module follows a thread's node through the queues (`pth_sched.c`, `pth_lib.c`,
`pth_sync.c`), together with `waited_native`, the back reference to the native thread in
whose `wait_queue` it is:

* the scheduler parks a thread that waits, and moves one to `pth_SQ` that was marked with
  `should_suspend` while it ran;
* the event manager wakes threads, a mutex release, a notify and an exit hand a waiter over
  to the ready queue;
* `pth_suspend` and `pth_resume` take a thread to `pth_SQ` and back.

The lock of a `wait_queue` is explicit: the code between `spin_lock` and `spin_unlock` is
cut into steps at every access to `waited_native`. The sections of the other queues are one
step each. What is read without a lock is read in a step of its own.

Which events have occurred and which waiter a release or a notify picks is left open; so
are the binding of threads, the list of the native threads and `pth_exit_count`, which
other parts of the library change. A run ends where the process faults, as it does when a
thread is woken whose priority is not below `PRIO_TOTAL`. Left out: the creation of threads,
joins and cancellation, whose queue moves concern neither wait queues nor `waited_native`.
-/

namespace Ngpt.Sched.Multi

open Function Ngpt.Queue
open Ngpt.Sched.Single (PthState)

/-- `struct pth_st`, the fields that decide about the queues. -/
structure Tcb (D T : Type) where
  state         : PthState
  priority      : Nat
  joinable      : Bool
  joinedThread  : Option T
  joinedNative  : Option D
  waitedNative  : Option D
  boundnative   : Option D
  shouldSuspend : Bool

/-- Where a native thread is: in the scheduler, or in a call that its thread `cur` makes. -/
inductive Pc (D T : Type) where
  /-- the scheduler without a thread -/
  | top
  /-- `t` has been taken off the ready queue; it runs; it switches back -/
  | picked (t : T)
  | running (t : T)
  | leaving (t : T)
  /-- the scheduler with the thread that has switched to it: before the tests of its end
  and of `should_suspend`, and before the test for `PTH_STATE_WAITING`, which is made of a
  thread that has been moved to `pth_SQ` too -/
  | back (t : T)
  | parked (t : T) (suspended : Bool)
  /-- in the section of `ds`: `t` has been appended, and `waited_native` is to be set -/
  | linked (t : T) (ds : D)
  /-- the event manager in the section of `ds`; it has unlinked `t` there -/
  | events (ds : D)
  | woken (ds : D) (t : T)
  /-- a hand-off of `tmp`, by a thread or (`none`) by the scheduler: `waited_native` was
  `ds` without the lock; in the section of `ds`, `tmp` has been unlinked; before the
  section of the ready queue -/
  | handoff (cur : Option T) (tmp : T) (ds : D)
  | handed (cur : Option T) (tmp : T) (ds : D)
  | ready (cur : Option T) (tmp : T)
  /-- `pth_suspend`: the search among the running threads, the choice of the queue, the
  search in it, and `pqueue_delete_node` -/
  | suspend (cur t : T) (slots : List D)
  | locate (cur t : T)
  | found (cur t : T) (q : QName D)
  | remove (cur t : T) (q : QName D)
  /-- `pth_WQ_delete`: the search without locks; before the section of `ds`, and in it
  after `t` has been unlinked -/
  | wqScan (cur t : T) (slots : List D)
  | wqLock (cur t : T) (ds : D)
  | wqDeleted (cur t : T) (ds : D)
  | toSQ (cur t : T)
  /-- `pth_resume`: before the two queue operations -/
  | resumeRemove (cur t : T)
  | resumeAppend (cur t : T)
  deriving DecidableEq, Repr

/-- `lock ds` is the native thread that has `ds->wait_queue.lock`, `natives` is
`pth_native_list`, and `rc d` what the last call of a thread on `d` has returned. -/
structure State (D T : Type) where
  heap      : Heap (QName D) T
  tcb       : T → Tcb D T
  pc        : D → Pc D T
  lock      : D → Option D
  isBounded : D → Bool
  natives   : List D
  exitCount : Nat
  rc        : D → Errno

inductive Action (D T : Type) where
  /-- the scheduler moves a new thread, picks one, or enters a section of the event
  manager and wakes a thread there -/
  | moveNew (d : D)
  | pick (d : D)
  | events (d ds : D)
  | wake (d : D) (t : T)
  /-- the running thread marks itself as waiting or ready without a switch (as it does for
  `select` on a bounded native), waits, yields or exits, releases a mutex or notifies `tmp`,
  suspends or resumes `t` -/
  | mark (d : D) (waits : Bool)
  | wait (d : D)
  | yield (d : D)
  | exit (d : D)
  | handoff (d : D) (tmp : T)
  | suspend (d : D) (t : T)
  | resume (d : D) (t : T)
  /-- the next piece of the code that `d` is in -/
  | go (d : D)
  /-- what other parts of the library change -/
  | bind (t : T) (bound : Option D)
  | bounded (d : D) (isBounded : Bool)
  | natives (ds : List D)
  | joined (t : T) (thread : Option T) (native : Option D)
  | exitCount (n : Nat)
  deriving DecidableEq, Repr

variable {D T : Type} [DecidableEq D] [DecidableEq T]

/-- `descr->current`: the thread that a native runs, unless it is in the scheduler. -/
def Pc.current : Pc D T → Option T
  | .running t | .leaving t => some t
  | .handoff cur _ _ | .handed cur _ _ | .ready cur _ => cur
  | .suspend cur _ _ | .locate cur _ | .found cur _ _ | .remove cur _ _ => some cur
  | .wqScan cur _ _ | .wqLock cur _ _ | .wqDeleted cur _ _ | .toSQ cur _ => some cur
  | .resumeRemove cur _ | .resumeAppend cur _ => some cur
  | _ => none

/-- Where a hand-off returns to. -/
def Pc.done : Option T → Pc D T
  | some cur => .running cur
  | none => .top

/-- The queue of new threads of a scheduler. -/
def schedNQ (pthFirstNative descr : D) (isBounded : Bool) : QName D :=
  if isBounded || descr = pthFirstNative then .newQueue descr else .pthNQ

namespace State

/-- The queue that the thread is linked in. -/
def place (s : State D T) (t : T) : Option (QName D) := s.heap.place t

def waited (s : State D T) (t : T) : Option D := (s.tcb t).waitedNative

def setTcb (s : State D T) (t : T) (x : Tcb D T) : State D T :=
  { s with tcb := update s.tcb t x }

def setState (s : State D T) (t : T) (state : PthState) : State D T :=
  s.setTcb t { s.tcb t with state := state }

def setWaitedNative (s : State D T) (t : T) (w : Option D) : State D T :=
  s.setTcb t { s.tcb t with waitedNative := w }

def setShouldSuspend (s : State D T) (t : T) (b : Bool) : State D T :=
  s.setTcb t { s.tcb t with shouldSuspend := b }

def append (s : State D T) (q : QName D) (t : T) : State D T :=
  { s with heap := pqueueAppendNode s.heap q t }

def delete (s : State D T) (t : T) : State D T :=
  { s with heap := pqueueDeleteNode s.heap t }

def goto (s : State D T) (d : D) (pc : Pc D T) : State D T :=
  { s with pc := update s.pc d pc }

def acquire (s : State D T) (ds d : D) : State D T :=
  { s with lock := update s.lock ds (some d) }

def release (s : State D T) (ds : D) : State D T :=
  { s with lock := update s.lock ds none }

/-- The call of `cur` returns. -/
def ret (s : State D T) (d : D) (cur : T) (rc : Errno) : State D T :=
  { s.goto d (.running cur) with rc := update s.rc d rc }

/-- The lock of the queue is free, if it is a wait queue. -/
def lockFree (s : State D T) : Option (QName D) → Bool
  | some (.waitQueue ds) => s.lock ds = none
  | _ => true

/-- `__thread_eprio_recalculate` and `__pqueue_append_node`; with a priority of
`PRIO_TOTAL` or more the process faults. -/
def eprioRecalculateAppend (s : State D T) (q : QName D) (t : T) : Option (State D T) :=
  if (s.tcb t).priority < prioTotal then
    some (append { s with heap := pqueueNodePrioritySet s.heap t (s.tcb t).priority } q t)
  else none

/-- `pth_yield (to)` by `cur` on `d`. To a thread on a bounded native it returns at once. -/
def yieldTo (s : State D T) (d : D) (cur : T) (dest : T) : State D T :=
  let favored := { s with heap := pqueueFavor s.heap dest }
  match (s.tcb dest).boundnative with
  | some ds => if s.isBounded ds then favored.ret d cur .ok else favored.goto d (.leaving cur)
  | none => favored.goto d (.leaving cur)

theorem yieldTo_cases (s : State D T) (d : D) (cur dest : T) :
    s.yieldTo d cur dest = { s with heap := pqueueFavor s.heap dest }.ret d cur .ok ∨
      s.yieldTo d cur dest =
        { s with heap := pqueueFavor s.heap dest }.goto d (.leaving cur) := by
  unfold yieldTo
  cases (s.tcb dest).boundnative with
  | none => exact Or.inr rfl
  | some ds =>
    by_cases hb : s.isBounded ds = true
    · exact Or.inl (if_pos hb)
    · exact Or.inr (if_neg hb)

theorem yieldTo_heap (s : State D T) (d : D) (cur dest : T) :
    (s.yieldTo d cur dest).heap = pqueueFavor s.heap dest := by
  rcases s.yieldTo_cases d cur dest with h | h <;> rw [h] <;> rfl

theorem yieldTo_tcb (s : State D T) (d : D) (cur dest : T) :
    (s.yieldTo d cur dest).tcb = s.tcb := by
  rcases s.yieldTo_cases d cur dest with h | h <;> rw [h] <;> rfl

/-- The bounded native that a thread is bound to. -/
def boundTo (s : State D T) (t : T) : Option D :=
  (s.tcb t).boundnative.filter fun ds => s.isBounded ds

/-- `pth_suspend` after the search among the running threads. -/
def locate (s : State D T) (d : D) (cur t : T) : State D T :=
  match s.boundTo t with
  | some ds =>
    match (s.tcb t).state with
    | .new => s.goto d (.found cur t (.readyQueue ds))
    | .waiting => s.goto d (.found cur t (.waitQueue ds))
    | _ => s.ret d cur .eperm
  | none =>
    match (s.tcb t).state with
    | .new => s.goto d (.found cur t (if s.natives.length > 1 then .pthNQ else .newQueue d))
    | .ready => s.goto d (.found cur t (if s.natives.length > 1 then .pthRQ else .readyQueue d))
    | .waiting => s.goto d (.wqScan cur t s.natives)
    | _ => s.ret d cur .eperm

/-- The queue for a resumed thread. -/
def resumeQueue (s : State D T) (d : D) (t : T) : Option (QName D) :=
  match s.boundTo t with
  | some ds =>
    match (s.tcb t).state with
    | .new => some (.readyQueue ds)
    | .waiting => some (.waitQueue ds)
    | _ => none
  | none =>
    match (s.tcb t).state with
    | .new => some (if s.natives.length > 1 then .pthNQ else .newQueue d)
    | .ready => some (if s.natives.length > 1 then .pthRQ else .readyQueue d)
    | .waiting => some (.waitQueue d)
    | _ => none

section Steps

variable (pthFirstNative : D)

/-- The scheduler of `d` appends a thread to the wait queue of `ds`, and keeps the lock. -/
def park (s : State D T) (d ds : D) (t : T) : Option (State D T) :=
  if s.lock ds = none then
    some (((s.acquire ds d).append (.waitQueue ds) t).goto d (.linked t ds))
  else none

/-- The scheduler of `d` with a thread that has switched to it. -/
def schedBack (s : State D T) (d : D) (t : T) : State D T :=
  match (s.tcb t).state with
  | .dead => s.goto d .top
  | .exit =>
    if (s.tcb t).joinable = false then s.goto d .top
    else
      let s := (s.append .pthDQ t).setState t .dead
      if (s.tcb t).joinedNative.isSome ∨ s.isBounded d then s.goto d .top
      else
        match (s.tcb t).joinedThread with
        | none => s.goto d .top
        | some tmp =>
          match s.waited tmp with
          | none => s.goto d .top
          | some ds => s.goto d (.handoff none tmp ds)
  | _ =>
    -- the thread stays the current one
    if (s.tcb t).shouldSuspend then
      ((s.setShouldSuspend t false).append .pthSQ t).goto d (.parked t true)
    else s.goto d (.parked t false)

/-- The scheduler of `d` puts its thread into a queue. -/
def schedPark (s : State D T) (d : D) (t : T) : Option (State D T) :=
  if (s.tcb t).state = .waiting then
    if (s.tcb t).boundnative = some pthFirstNative ∧ d ≠ pthFirstNative then
      if s.exitCount > 0 then some ((s.append (.readyQueue pthFirstNative) t).goto d .top)
      else s.park d pthFirstNative t
    else if d = pthFirstNative ∧ s.isBounded d then
      let s := { s with isBounded := update s.isBounded d false }
      some ((s.append .pthRQ t).goto d .top)
    else s.park d d t
  else some ((s.append (schedRQ pthFirstNative d (s.isBounded d)) t).goto d .top)

/-- The next piece of the code that `d` is in. -/
def go (s : State D T) (d : D) : Option (State D T) :=
  match s.pc d with
  | .top => none
  | .picked t => some (s.goto d (.running t))
  | .running _ => none
  | .leaving t => some (s.goto d (.back t))
  | .back t => some (s.schedBack d t)
  | .parked t _ => s.schedPark pthFirstNative d t
  | .linked t ds => some (((s.setWaitedNative t (some ds)).release ds).goto d .top)
  | .events ds => some ((s.release ds).goto d .top)
  | .woken ds t =>
    (((s.setWaitedNative t none).setState t .ready).eprioRecalculateAppend
      (schedRQ pthFirstNative ds (s.isBounded ds)) t).map (·.goto d (.events ds))
  | .handoff cur tmp ds =>
    if s.lock ds = none then
      if s.waited tmp = none then some (s.goto d (.done cur))
      else some (((s.acquire ds d).delete tmp).goto d (.handed cur tmp ds))
    else none
  | .handed cur tmp ds =>
    some (((s.setWaitedNative tmp none).release ds).goto d (.ready cur tmp))
  | .ready cur tmp =>
    let q : QName D := if cur.isSome then .pthRQ else schedRQ pthFirstNative d false
    ((s.setState tmp .ready).eprioRecalculateAppend q tmp).map (·.goto d (.done cur))
  | .suspend cur t [] => some (s.goto d (.locate cur t))
  | .suspend cur t (e :: slots) =>
    if (s.pc e).current = some t then some ((s.setShouldSuspend t true).ret d cur .einprogress)
    else some (s.goto d (.suspend cur t slots))
  | .locate cur t => some (s.locate d cur t)
  | .found cur t q =>
    if pqueueContains s.heap q t then some (s.goto d (.remove cur t q))
    else some (s.ret d cur .esrch)
  | .remove cur t _ =>
    if s.lockFree (s.place t) then some ((s.delete t).goto d (.toSQ cur t)) else none
  | .wqScan cur _ [] => some (s.ret d cur .esrch)
  | .wqScan cur t (ds :: slots) =>
    if pqueueContains s.heap (.waitQueue ds) t then some (s.goto d (.wqLock cur t ds))
    else some (s.goto d (.wqScan cur t slots))
  | .wqLock cur t ds =>
    if s.lock ds = none then
      some (((s.acquire ds d).delete t).goto d (.wqDeleted cur t ds))
    else none
  | .wqDeleted cur t ds => some (((s.setWaitedNative t none).release ds).goto d (.toSQ cur t))
  | .toSQ cur t => some ((s.append .pthSQ t).ret d cur .ok)
  | .resumeRemove cur t =>
    if s.lockFree (s.place t) then some ((s.delete t).goto d (.resumeAppend cur t)) else none
  | .resumeAppend cur t =>
    match s.resumeQueue d t with
    | none => some (s.ret d cur .eperm)
    | some q => if s.lockFree (some q) then some ((s.append q t).yieldTo d cur t) else none

/-- A step of the thread that `d` runs. -/
def byRunning (s : State D T) (d : D) (f : T → State D T) : Option (State D T) :=
  match s.pc d with
  | .running cur => some (f cur)
  | _ => none

def step (s : State D T) : Action D T → Option (State D T)
  | .moveNew d =>
    if s.pc d = .top ∧ s.isBounded d = false then
      (pqueueFirstNode s.heap (schedNQ pthFirstNative d false)).map fun t =>
        let s := (s.delete t).setState t .ready
        { s with heap := pqueuePrependSecondNode s.heap (schedRQ pthFirstNative d false) t }
    else none
  | .pick d =>
    if s.pc d = .top then
      let sel := selectThread pthFirstNative d (fun t => (s.tcb t).boundnative)
        (schedRQ pthFirstNative d (s.isBounded d)) s.heap
      let s := { s with heap := sel.heap }
      match sel.current with
      | none => some s
      | some t => some (s.goto d (.picked t))
    else none
  | .events d ds =>
    -- a bounded native looks after its own queue, the others but the first one leave out
    -- the first one and those that are bounded
    if s.pc d = .top ∧ ds ∈ s.natives ∧ s.lock ds = none ∧ (s.isBounded d → ds = d) ∧
        (d ≠ pthFirstNative ∧ s.isBounded d = false →
          s.isBounded ds = false ∧ ds ≠ pthFirstNative) then
      some ((s.acquire ds d).goto d (.events ds))
    else none
  | .wake d t =>
    match s.pc d with
    | .events ds =>
      if pqueueContains s.heap (.waitQueue ds) t then some ((s.delete t).goto d (.woken ds t))
      else none
    | _ => none
  | .mark d waits => s.byRunning d fun cur =>
      s.setState cur (if waits then .waiting else .ready)
  | .wait d => s.byRunning d fun cur => (s.setState cur .waiting).goto d (.leaving cur)
  | .yield d => s.byRunning d fun cur => s.goto d (.leaving cur)
  | .exit d => s.byRunning d fun cur => (s.setState cur .exit).goto d (.leaving cur)
  | .handoff d tmp => s.byRunning d fun cur =>
      if (s.tcb tmp).boundnative.isSome then s
      else
        match s.waited tmp with
        | none => s
        | some ds => s.goto d (.handoff (some cur) tmp ds)
  | .suspend d t => s.byRunning d fun cur =>
      if t = cur then s.ret d cur .eperm else s.goto d (.suspend cur t s.natives)
  | .resume d t => s.byRunning d fun cur =>
      if t = cur then s.ret d cur .eperm
      else if pqueueContains s.heap .pthSQ t then s.goto d (.resumeRemove cur t)
      else s.ret d cur .eperm
  | .go d => s.go pthFirstNative d
  | .bind t bound => some (s.setTcb t { s.tcb t with boundnative := bound })
  | .bounded d b => some { s with isBounded := update s.isBounded d b }
  | .natives ds => some { s with natives := ds }
  | .joined t thread native =>
    some (s.setTcb t { s.tcb t with joinedThread := thread, joinedNative := native })
  | .exitCount n => some { s with exitCount := n }

end Steps

end State

end Ngpt.Sched.Multi
