import Ngpt.Errno
import Ngpt.Lib.Transition
import Ngpt.Sched.Dispatch

/-!
# ngpt — the thread system on one native thread

With `pth_max_native_threads == 1` all threads share the descriptor
`pth_first_native` and run one at a time: control moves between a thread and
the scheduler only at context switches. The model follows the places where a
thread's node or state changes (`pth_lib.c`, `pth_cancel.c`, `pth_sched.c`):

* the running thread spawns, yields, waits, joins, suspends, resumes, cancels
  and exits;
* the scheduler takes back the thread that switched to it, runs the event
  manager, moves new threads to the ready queue and dispatches.

The event manager may wake any thread in the wait queue: which events have
occurred is left open. A freed control block keeps its fields until it is
allocated again.

Left out: `joined_native` and the branches for bounded native threads and for
several native threads (never taken here), signals, stacks, thread-specific
data and the join value.
-/

namespace Ngpt.Sched.Single

open Ngpt.Queue

/-- `pth_state_t` of the threads on `pth_threads_queue`. -/
inductive PthState where
  | new
  | ready
  | waiting
  | exit
  | dead
  deriving DecidableEq, Repr

/-- `struct pth_st`, the fields that scheduling reads. The two cancellation
fields are the bits of `cancelstate`; native threads are named by `Unit`. -/
structure Tcb (T : Type) where
  state         : PthState
  priority      : Nat
  joinable      : Bool
  cancelEnable  : Bool
  cancelAsync   : Bool
  cancelreq     : Bool
  joinedThread  : Option T
  joinedCount   : Int
  waitedNative  : Option Unit
  boundnative   : Option Unit
  shouldSuspend : Bool

/-- Where the machine is: in a thread, in the scheduler with the thread that
has just switched to it, in the event manager, or at the top of the loop. -/
inductive Phase (T : Type) where
  | running (t : T)
  | back (t : T)
  | events
  | top
  deriving DecidableEq, Repr

/-- Where a thread is in its own code: anywhere, in `pth_join` behind
`pth_wait`, or in `pth_exit` running its cleanup handlers. -/
inductive Pc (T : Type) where
  | user
  | joining (c : T)
  | exiting
  deriving DecidableEq, Repr

structure Sys (T : Type) where
  heap    : Heap (QName Unit) T
  tcb     : T → Tcb T
  /-- `pth_threads_queue`; `pth_threads_count` is its length -/
  threads : List T
  phase   : Phase T
  pc      : T → Pc T

/-- The attributes a thread is created with. -/
structure Attr where
  suspended    : Bool
  joinable     : Bool
  cancelEnable : Bool
  cancelAsync  : Bool
  priority     : Nat

abbrev newQueue : QName Unit := .newQueue ()
abbrev readyQueue : QName Unit := .readyQueue ()
abbrev waitQueue : QName Unit := .waitQueue ()

variable {T : Type} [DecidableEq T]

namespace Sys

def setTcb (s : Sys T) (t : T) (x : Tcb T) : Sys T :=
  { s with tcb := Function.update s.tcb t x }

def setState (s : Sys T) (t : T) (state : PthState) : Sys T :=
  s.setTcb t { s.tcb t with state := state }

def setWaitedNative (s : Sys T) (t : T) (w : Option Unit) : Sys T :=
  s.setTcb t { s.tcb t with waitedNative := w }

def setPc (s : Sys T) (t : T) (pc : Pc T) : Sys T :=
  { s with pc := Function.update s.pc t pc }

def append (s : Sys T) (q : QName Unit) (t : T) : Sys T :=
  { s with heap := pqueueAppendNode s.heap q t }

def delete (s : Sys T) (t : T) : Sys T :=
  { s with heap := pqueueDeleteNode s.heap t }

end Sys

/-- `thread_exists`: the magic word is set by `__thread_queue_add` and cleared
by `__thread_queue_remove`. -/
def threadExists (s : Sys T) (t : T) : Bool := t ∈ s.threads

/-- `pth_active_threads`. -/
def pthActiveThreads (s : Sys T) : Nat := s.threads.length - pqueueTotal s.heap .pthDQ

/-- `pth_tcb_free`: off the global list. -/
def pthTcbFree (s : Sys T) (t : T) : Sys T := { s with threads := s.threads.erase t }

/-- `pth_spawn_cb` on the block `u`: allocation, attributes (`priority` has
eight bits), the global list, and the new or the suspend queue. -/
def pthSpawn (s : Sys T) (u : T) (attr : Attr) : Sys T :=
  let s := { s with
    heap := nodeInit (s.heap.setNode u nodeZero) u
    tcb := Function.update s.tcb u
      { state := .new
        priority := attr.priority % 256
        joinable := attr.joinable
        cancelEnable := attr.cancelEnable
        cancelAsync := attr.cancelAsync
        cancelreq := false
        joinedThread := none
        joinedCount := 0
        waitedNative := none
        boundnative := none
        shouldSuspend := false }
    threads := u :: s.threads
    pc := Function.update s.pc u .user }
  s.append (if attr.suspended then .pthSQ else newQueue) u

/-- `pth_yield` by the running thread `cur`. -/
def pthYield (s : Sys T) (cur : T) (dest : Option T) : Sys T :=
  match dest with
  | none => { s with phase := .back cur }
  | some u =>
    if u = cur then s
    else { s with heap := pqueueFavor s.heap u, phase := .back cur }

/-- `pth_wait` up to the context switch. -/
def pthWait (s : Sys T) (cur : T) : Sys T := pthYield (s.setState cur .waiting) cur none

/-- `__thread_eprio_recalculate` followed by `__pqueue_append_node`. With a
priority of `PRIO_TOTAL` or more the append takes the words behind `queue[]`
for a list head and stores through them. If the process does not fault, the
queues are then as `left` says, and nothing is assumed about them. -/
def eprioRecalculateAppend (s : Sys T) (q : QName Unit) (t : T) (left : Heap (QName Unit) T) :
    Sys T :=
  if (s.tcb t).priority < prioTotal then
    Sys.append { s with heap := pqueueNodePrioritySet s.heap t (s.tcb t).priority } q t
  else { s with heap := left }

/-- A waiting thread is moved to the ready queue (`pth_sched.c`, by the event
manager and by the hand-off to a joining thread). -/
def wakeUp (s : Sys T) (t : T) (left : Heap (QName Unit) T) : Sys T :=
  let s := s.delete t
  let s := s.setWaitedNative t none
  let s := s.setState t .ready
  eprioRecalculateAppend s readyQueue t left

/-- The second half of `pth_join`, after `pth_wait` or for a thread that is
dead already. -/
def pthJoinEnd (s : Sys T) (c : T) : Errno × Sys T :=
  if !pqueueContains s.heap .pthDQ c then (.esrch, s)
  else
    let s := s.setTcb c { s.tcb c with joinedCount := (s.tcb c).joinedCount - 1 }
    if (s.tcb c).joinedCount > 0 then (.esrch, s)
    else if (s.tcb c).state ≠ .dead then (.esrch, s)
    else (.ok, pthTcbFree (s.delete c) c)

/-- `pth_join`: an error number, a completed join, or the wait for the thread
(`none` in the first component). -/
def pthJoin (s : Sys T) (cur : T) (thread : Option T) : Option Errno × Sys T :=
  if thread = some cur then (some .edeadlk, s)
  else
    match thread.or (pqueueFirstNode s.heap .pthDQ) with
    | none => (some .esrch, s)
    | some c =>
      if !threadExists s c then (some .esrch, s)
      else if !(s.tcb c).joinable then (some .einval, s)
      else if s.threads.length = 1 then (some .edeadlk, s)
      else if (s.tcb c).state ≠ .dead then
        let s := s.setTcb c { s.tcb c with
          joinedThread := some cur, joinedCount := (s.tcb c).joinedCount + 1 }
        (none, pthWait (s.setPc cur (.joining c)) cur)
      else
        let (rc, s) := pthJoinEnd s c
        (some rc, s)

/-- `pth_WQ_delete`. -/
def pthWQDelete (s : Sys T) (t : T) : Bool × Sys T :=
  if pqueueContains s.heap waitQueue t then (true, (s.delete t).setWaitedNative t none)
  else (false, s)

/-- `pth_suspend`. The search for `t` among the running threads of all native
threads finds only `cur`, which has been excluded. -/
def pthSuspend (s : Sys T) (cur t : T) : Errno × Sys T :=
  if t = cur then (.eperm, s)
  else
    match (s.tcb t).state with
    | .new =>
      if !pqueueContains s.heap newQueue t then (.esrch, s)
      else (.ok, (s.delete t).append .pthSQ t)
    | .ready =>
      if !pqueueContains s.heap readyQueue t then (.esrch, s)
      else (.ok, (s.delete t).append .pthSQ t)
    | .waiting =>
      match pthWQDelete s t with
      | (false, s) => (.esrch, s)
      | (true, s) => (.ok, s.append .pthSQ t)
    | _ => (.eperm, s)

/-- `pth_resume`; `waited_native` is not set again. -/
def pthResume (s : Sys T) (cur t : T) : Errno × Sys T :=
  if t = cur then (.eperm, s)
  else if !pqueueContains s.heap .pthSQ t then (.eperm, s)
  else
    let s := s.delete t
    match (s.tcb t).state with
    | .new => (.ok, pthYield (s.append newQueue t) cur (some t))
    | .ready => (.ok, pthYield (s.append readyQueue t) cur (some t))
    | .waiting => (.ok, pthYield (s.append waitQueue t) cur (some t))
    | _ => (.eperm, s)

/-- `pth_exit` up to the cleanup handlers; `none` when the process exits. -/
def pthExit (main : T) (s : Sys T) (cur : T) (waitFlag : Bool) : Option (Sys T) :=
  if cur = main ∧ !waitFlag then none
  else if pthActiveThreads s > 1 then some (s.setPc cur .exiting)
  else none

/-- `pth_exit` after the cleanup handlers. -/
def pthExitEnd (s : Sys T) (cur : T) : Sys T :=
  let s := if (s.tcb cur).state ≠ .dead then s.setState cur .exit else s
  { s with phase := .back cur }

/-- `pth_cancel`; the Boolean is its result, and `none` is the exit of the
process in `pth_cancel_point`. A new thread has no cleanup handlers and holds
no mutex. -/
def pthCancel (main : T) (s : Sys T) (cur t : T) : Option (Bool × Sys T) :=
  if !threadExists s t then some (false, s)
  else if (s.tcb t).state = .dead ∨ (s.tcb t).cancelreq then some (true, s)
  else
    let s := s.setTcb t { s.tcb t with cancelreq := true }
    if (s.tcb t).cancelEnable && (s.tcb t).cancelAsync then
      if t = cur then
        (pthExit main (s.setTcb t { s.tcb t with cancelreq := false }) cur false).map (true, ·)
      else
        match (s.tcb t).state with
        | .new =>
          if !pqueueContains s.heap newQueue t then some (false, s)
          else
            let s := s.delete t
            if !(s.tcb t).joinable then some (true, pthTcbFree s t)
            else some (true, (s.setState t .dead).append .pthDQ t)
        | .ready => some (true, s)
        | .waiting => some (true, s)
        | _ => some (false, s)
    else some (true, s)

/-! ## The scheduler -/

/-- The scheduler takes back `current`, which has just switched to it. -/
def schedBack (s : Sys T) (current : T) (left : Heap (QName Unit) T) : Sys T :=
  match (s.tcb current).state with
  | .dead => { s with phase := .events }
  | .exit =>
    if !(s.tcb current).joinable then { pthTcbFree s current with phase := .events }
    else
      let s := s.append .pthDQ current
      let s := s.setState current .dead
      match (s.tcb current).joinedThread with
      | none => { s with phase := .events }
      | some tmp =>
        match (s.tcb tmp).waitedNative with
        | none => { s with phase := .events }
        | some _ =>
          -- handed to the joining thread; the event manager is skipped
          wakeUp { s with phase := .top } tmp left
  | state =>
    let s :=
      if (s.tcb current).shouldSuspend then
        (s.setTcb current { s.tcb current with shouldSuspend := false }).append .pthSQ current
      else s
    if state = .waiting then
      { (s.append waitQueue current).setWaitedNative current (some ()) with phase := .events }
    else { s.append readyQueue current with phase := .events }

/-- One round of the loop that moves new threads to the ready queue. -/
def moveNewThread (s : Sys T) : Sys T :=
  match pqueueFirstNode s.heap newQueue with
  | none => s
  | some t =>
    let s := (s.delete t).setState t .ready
    { s with heap := pqueuePrependSecondNode s.heap readyQueue t }

/-- `while (pqueue_total (NQ) != 0)`; every round takes one thread, so the
number of threads at the start is enough fuel. -/
def moveNewThreads : Nat → Sys T → Sys T
  | 0, s => s
  | fuel + 1, s =>
    if pqueueTotal s.heap newQueue ≠ 0 then moveNewThreads fuel (moveNewThread s) else s

/-- From the top of the scheduler loop to the switch into the next thread, or
to the event manager when no thread is ready. -/
def schedTop (s : Sys T) : Sys T :=
  let s := moveNewThreads (pqueueTotal s.heap newQueue) s
  let sel := selectThread () () (fun t => (s.tcb t).boundnative) (schedRQ () () false) s.heap
  match sel.current with
  | none => { s with heap := sel.heap, phase := .events }
  | some t => { s with heap := sel.heap, phase := .running t }

/-! ## The system -/

/-- What can happen next. The first group is done by the running thread; a
thread passed to `suspend`, `resume` or `yield` is one that exists. The queues
of `schedBack` and `wake` are those that an append out of range leaves. -/
inductive Action (T : Type) where
  | spawn (u : T) (attr : Attr)
  | yield (dest : Option T)
  | wait
  | join (thread : Option T)
  | joinEnd
  | suspend (t : T)
  | resume (t : T)
  | cancel (t : T)
  | exit (waitFlag : Bool)
  | exitEnd
  | schedBack (left : Heap (QName Unit) T)
  | wake (t : T) (left : Heap (QName Unit) T)
  | eventsDone
  | schedTop

/-- A step of the running thread outside `pth_join`. -/
def byRunning (s : Sys T) (f : T → Option (Sys T)) : Option (Sys T) :=
  match s.phase with
  | .running cur =>
    match s.pc cur with
    | .joining _ => none
    | _ => f cur
  | _ => none

def step (main : T) (s : Sys T) : Action T → Option (Sys T)
  | .spawn u attr => byRunning s fun _ => if u ∈ s.threads then none else some (pthSpawn s u attr)
  | .yield dest => byRunning s fun cur =>
      if ∀ u ∈ dest, u ∈ s.threads then some (pthYield s cur dest) else none
  | .wait => byRunning s fun cur => some (pthWait s cur)
  | .join thread => byRunning s fun cur => some (pthJoin s cur thread).2
  | .joinEnd =>
    match s.phase with
    | .running cur =>
      match s.pc cur with
      | .joining c => some ((pthJoinEnd s c).2.setPc cur .user)
      | _ => none
    | _ => none
  | .suspend t => byRunning s fun cur => if t ∈ s.threads then some (pthSuspend s cur t).2 else none
  | .resume t => byRunning s fun cur => if t ∈ s.threads then some (pthResume s cur t).2 else none
  | .cancel t => byRunning s fun cur => (pthCancel main s cur t).map Prod.snd
  | .exit waitFlag => byRunning s fun cur => pthExit main s cur waitFlag
  | .exitEnd => byRunning s fun cur =>
      if s.pc cur = .exiting then some (pthExitEnd s cur) else none
  | .schedBack left =>
    match s.phase with
    | .back current => some (schedBack s current left)
    | _ => none
  | .wake t left =>
    if s.phase = .events ∧ pqueueContains s.heap waitQueue t then some (wakeUp s t left) else none
  | .eventsDone => if s.phase = .events then some { s with phase := .top } else none
  | .schedTop => if s.phase = .top then some (schedTop s) else none

/-- The system before the first switch into the scheduler: only the main
thread, in the new queue. -/
def initSys (main : T) (priority : Nat) : Sys T :=
  pthSpawn
    { heap := initHeap
      tcb := fun _ =>
        { state := .new, priority := 0, joinable := false, cancelEnable := false
          cancelAsync := false, cancelreq := false, joinedThread := none, joinedCount := 0
          waitedNative := none, boundnative := none, shouldSuspend := false }
      threads := []
      phase := .top
      pc := fun _ => .user }
    main
    { suspended := false, joinable := true, cancelEnable := true, cancelAsync := false
      priority := priority }

/-- The thread that a step wakes: the one that the event manager picks, or the
one that waits in `pth_join` for the thread that exits. -/
def woken (s : Sys T) : Action T → Option T
  | .wake t _ => some t
  | .schedBack _ =>
    match s.phase with
    | .back current =>
      if (s.tcb current).state = .exit ∧ (s.tcb current).joinable then
        (s.tcb current).joinedThread.filter fun tmp => (s.tcb tmp).waitedNative.isSome
      else none
    | _ => none
  | _ => none

/-- The priority of a thread that a step wakes is below `PRIO_TOTAL`. -/
def InRange (s : Sys T) (a : Action T) : Prop :=
  ∀ t ∈ woken s a, (s.tcb t).priority < prioTotal

instance (s : Sys T) (a : Action T) : Decidable (InRange s a) := by
  unfold InRange; infer_instance

end Ngpt.Sched.Single
