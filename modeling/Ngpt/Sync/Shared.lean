import Ngpt.Sync.Futex
import Ngpt.Sync.Mutex

/-!
# ngpt — mutexes shared between processes (`pth_sync.c`)

`pth_shared_mutex_acquire` and `pth_mutex_release` on one process-shared mutex, over the
futex of `Ngpt.Sync.Futex`. What the code does under `mx_lock` is one step, and so are
the tests that `pth_mutex_release` makes before it takes the lock; the futex is accessed
without the lock, one memory access at a time.

Threads are of several processes. A process may die between two steps; `kill` fails for
it from then on. `mx_owner` is a pointer, which another process may use for a thread of
its own. A re-initialised mutex starts a new run.

Not in the code: `owns`, the threads that have the mutex, from the section that locks it
to the section that unlocks it or until another thread takes it over; `returns`, what
the acquires that are over have returned, with what the mutex was like before.

Left out: the record of the mutexes that a thread owns, which is that of
`Ngpt.Sync.Mutex`, the state and `is_bound` fields, and which descriptor is waited for.
-/

namespace Ngpt.Sync.Shared

open Transition

/-- The threads of all processes: their `pth_t` pointers and their process ids. -/
structure Threads (T P : Type) where
  ptr      : T → P
  pid      : T → Nat
  pid_ne   : ∀ t, pid t ≠ 0
  distinct : ∀ t u, ptr t = ptr u → pid t = pid u → t = u

/-- `pth_mutex_t`; the first two fields are bits of `mx_state`, `robust` is a bit of
`mx_shared.type`. -/
structure SharedMutex (P : Type) where
  locked        : Bool
  notConsistent : Bool
  robust        : Bool
  type          : MutexType
  owner         : Option P
  ownerPid      : Nat
  count         : Nat
  waitcount     : Nat
  deriving DecidableEq, Repr

/-- `pth_mutex_init` with `pshared`. -/
def pthMutexInit {P : Type} (type : MutexType) (robust : Bool) : SharedMutex P :=
  { locked := false, notConsistent := false, robust := robust, type := type, owner := none
    ownerPid := 0, count := 0, waitcount := 0 }

/-- Where a thread is: before the named section, or in the named call. -/
inductive Pc where
  | idle
  /-- the first section, and `futex_acquire` on the path without contention -/
  | start (tryonly extra bounded : Bool)
  | first (tryonly extra bounded : Bool)
  /-- the loop: `futex_acquire`, then `pth_wait` or `select` -/
  | futex (extra bounded : Bool)
  | event (extra : Bool)
  | select (extra : Bool)
  /-- before the tests of `mx_state` and `mx_owner`, before `mx_lock`, and in
  `futex_release` -/
  | releaseState
  | releaseOwner
  | releaseLock
  | releaseFutex
  | acquired (rc : Errno)
  | released (rc : Errno)
  /-- its process has died -/
  | dead
  deriving DecidableEq, Repr

def Pc.outside : Pc → Bool
  | .idle | .acquired _ | .released _ => true
  | _ => false

/-- A thread inside the futex code. -/
def Pc.inFutex : Pc → Bool
  | .first _ _ _ | .futex _ _ | .releaseFutex => true
  | _ => false

/-- An acquire that is over: its arguments, whether it has locked the mutex and had the
futex, and whether the mutex was abandoned or orphaned before. -/
structure Return (T : Type) where
  thread    : T
  rc        : Errno
  tryonly   : Bool
  extra     : Bool
  took      : Bool
  futex     : Bool
  abandoned : Bool
  orphaned  : Bool
  deriving DecidableEq, Repr

structure State (T P : Type) where
  mutex   : SharedMutex P
  futex   : Futex.State T
  pc      : T → Pc
  dead    : Nat → Bool
  owns    : T → Bool
  returns : List (Return T)

inductive Action (T : Type) where
  | acquire (t : T) (tryonly extra bounded : Bool)
  | release (t : T)
  /-- the next section of `t`; `occurred` says whether a wait was ended by the futex -/
  | go (t : T) (occurred : Bool)
  /-- the next futex step of `t`; `result` is what a system call returns -/
  | futex (t : T) (result : Int)
  | die (p : Nat)
  /-- `pthread_mutex_consistent_np` -/
  | consistent
  deriving DecidableEq, Repr

variable {T P : Type} [DecidableEq T] [DecidableEq P]

/-- The mutex as the ends of both paths of an acquire leave it. -/
def SharedMutex.lockBy (mx : SharedMutex P) (w : Threads T P) (t : T) : SharedMutex P :=
  { mx with locked := true, owner := some (w.ptr t), ownerPid := w.pid t, count := 1 }

namespace State

/-- `kill(pid, 0) == -1`. -/
def killFails (s : State T P) (pid : Nat) : Bool := pid ≠ 0 && s.dead pid

/-- A mutex that its last owner has left inconsistent. -/
def abandoned (s : State T P) : Bool := s.mutex.notConsistent && !s.mutex.locked

/-- A mutex whose owner is dead. -/
def orphaned (s : State T P) : Bool := s.mutex.locked && s.killFails s.mutex.ownerPid

def goto (s : State T P) (t : T) (pc : Pc) : State T P :=
  { s with pc := Function.update s.pc t pc }

/-- Start a call of the futex code. -/
def callFutex (s : State T P) (t : T) (op : Futex.Op) (pc : Pc) : State T P :=
  { s.goto t pc with futex := s.futex.goto t op.entry }

/-- An acquire returns and leaves the mutex as given. -/
def ret (s : State T P) (t : T) (rc : Errno) (tryonly extra took : Bool)
    (mutex : SharedMutex P) : State T P :=
  { s.goto t (.acquired rc) with
    mutex := mutex
    owns := Function.update s.owns t (s.owns t || took)
    returns := ⟨t, rc, tryonly, extra, took, s.futex.holds t, s.abandoned, s.orphaned⟩ ::
      s.returns }

/-- `t` takes the mutex over from a dead owner, and the futex with it. -/
def takeOver (w : Threads T P) (s : State T P) (t : T) (extra : Bool) : State T P :=
  { s with
    futex := { s.futex with holds := fun u => u = t || (s.futex.holds u && !s.dead (w.pid u)) }
    owns := fun u => s.owns u && !s.dead (w.pid u) }.ret t .eownerdead false extra true
      ({ s.mutex with notConsistent := true }.lockBy w t)

/-- The wait of an acquire, once `futex_acquire` has not given it the futex. -/
def wait (s : State T P) (t : T) (extra bounded : Bool) : State T P :=
  if bounded then
    { s with mutex := { s.mutex with waitcount := Unsigned.incr s.mutex.waitcount } }.goto t
      (.select extra)
  else s.goto t (.event extra)

/-- `pth_shared_mutex_acquire` from the label `wait`. -/
def contend (w : Threads T P) (s : State T P) (t : T) (tryonly extra bounded needFutex : Bool) :
    State T P :=
  let mx := s.mutex
  if mx.owner = some (w.ptr t) ∧ mx.count ≥ 1 ∧ mx.ownerPid = w.pid t then
    if mx.type = .recursiveNp then
      s.ret t .ok tryonly extra false { mx with count := Unsigned.incr mx.count }
    else s.ret t (if tryonly then .ebusy else .edeadlk) tryonly extra false mx
  else if tryonly then s.ret t .ebusy tryonly extra false mx
  else if mx.robust ∧ s.killFails mx.ownerPid then s.takeOver w t extra
  else if needFutex then s.callFutex t (.acquire false) (.futex extra bounded)
  else s.wait t extra bounded

/-- A wait is over and `t` has `mx_lock` again. -/
def resume (s : State T P) (t : T) (extra bounded : Bool) (mutex : SharedMutex P) : State T P :=
  if mutex.notConsistent then s.ret t .enotrecoverable false extra false mutex
  else { s with mutex := mutex }.callFutex t (.acquire false) (.futex extra bounded)

/-- A release clears the mutex and gives the futex back. -/
def unlock (s : State T P) (t : T) : State T P :=
  { s with
    mutex := { s.mutex with locked := false, owner := none, ownerPid := 0, count := 0 }
    owns := Function.update s.owns t false }.callFutex t .up .releaseFutex

/-- The next section of `t`; a thread inside the futex code has none. -/
def go (w : Threads T P) (s : State T P) (t : T) (occurred : Bool) : Option (State T P) :=
  let mx := s.mutex
  match s.pc t with
  | .start tryonly extra bounded =>
    if mx.locked = false ∧ mx.waitcount = 0 then
      some (s.callFutex t (.acquire false) (.first tryonly extra bounded))
    else some (s.contend w t tryonly extra bounded true)
  | .first tryonly extra bounded =>
    match s.futex.pc t with
    | .returned (.acquire false) fd =>
      if fd > 0 then some (s.contend w t tryonly extra bounded false)
      else if fd = -1 then some (s.ret t .einval tryonly extra false mx)
      else some (s.ret t .ok tryonly extra true (mx.lockBy w t))
    | _ => none
  | .futex extra bounded =>
    match s.futex.pc t with
    | .returned (.acquire false) fd =>
      if fd = 0 then some (s.ret t .ok false extra true (mx.lockBy w t))
      else if fd = -1 then some (s.ret t .einval false extra false mx)
      else some (s.wait t extra bounded)
    | _ => none
  | .event extra =>
    if extra && !occurred then some (s.ret t .eintr false extra false mx)
    else some (s.resume t extra false mx)
  | .select extra =>
    some (s.resume t extra true { mx with waitcount := Unsigned.decr mx.waitcount })
  | .releaseState =>
    if mx.locked = false then some (s.goto t (.released .eperm)) else some (s.goto t .releaseOwner)
  | .releaseOwner =>
    if mx.owner ≠ some (w.ptr t) then some (s.goto t (.released .eperm))
    else some (s.goto t .releaseLock)
  | .releaseLock =>
    let count := Unsigned.decr mx.count
    if count = 0 then some (s.unlock t)
    else some { s.goto t (.released .ok) with mutex := { mx with count := count } }
  | .releaseFutex =>
    match s.futex.pc t with
    | .returned .up _ => some (s.goto t (.released .ok))
    | _ => none
  | _ => none

/-- The threads of process `p` are gone, wherever they are. -/
def die (w : Threads T P) (s : State T P) (p : Nat) : State T P :=
  { s with
    dead := Function.update s.dead p true
    pc := fun t => if w.pid t = p then .dead else s.pc t
    futex := { s.futex with pc := fun t => if w.pid t = p then .idle else s.futex.pc t } }

def step (w : Threads T P) (s : State T P) : Action T → Option (State T P)
  | .acquire t tryonly extra bounded =>
    if (s.pc t).outside then some (s.goto t (.start tryonly extra bounded)) else none
  | .release t => if (s.pc t).outside then some (s.goto t .releaseState) else none
  | .go t occurred => s.go w t occurred
  | .futex t result =>
    if (s.pc t).inFutex then (s.futex.go t result).map fun f => { s with futex := f } else none
  | .die p => some (s.die w p)
  | .consistent => some { s with mutex := { s.mutex with notConsistent := false } }

/-- What a section of `t` does: one case for each branch of `go`. -/
inductive Turn (w : Threads T P) (s : State T P) (t : T) (occurred : Bool) : State T P → Prop where
  | ask {tryonly extra bounded : Bool} (hpc : s.pc t = .start tryonly extra bounded) :
      Turn w s t occurred (s.callFutex t (.acquire false) (.first tryonly extra bounded))
  | contend {tryonly extra bounded : Bool} (hpc : s.pc t = .start tryonly extra bounded) :
      Turn w s t occurred (s.contend w t tryonly extra bounded true)
  | firstFd {tryonly extra bounded : Bool} {fd : Int} (hpc : s.pc t = .first tryonly extra bounded)
      (hq : s.futex.pc t = .returned (.acquire false) fd) (hfd : fd > 0) :
      Turn w s t occurred (s.contend w t tryonly extra bounded false)
  | firstError {tryonly extra bounded : Bool} {fd : Int}
      (hpc : s.pc t = .first tryonly extra bounded)
      (hq : s.futex.pc t = .returned (.acquire false) fd) (hfd : fd = -1) :
      Turn w s t occurred (s.ret t .einval tryonly extra false s.mutex)
  | firstTake {tryonly extra bounded : Bool} {fd : Int}
      (hpc : s.pc t = .first tryonly extra bounded)
      (hq : s.futex.pc t = .returned (.acquire false) fd) (hfd : ¬ fd > 0) (herror : fd ≠ -1) :
      Turn w s t occurred (s.ret t .ok tryonly extra true (s.mutex.lockBy w t))
  | futexTake {extra bounded : Bool} (hpc : s.pc t = .futex extra bounded)
      (hq : s.futex.pc t = .returned (.acquire false) 0) :
      Turn w s t occurred (s.ret t .ok false extra true (s.mutex.lockBy w t))
  | futexError {extra bounded : Bool} (hpc : s.pc t = .futex extra bounded)
      (hq : s.futex.pc t = .returned (.acquire false) (-1)) :
      Turn w s t occurred (s.ret t .einval false extra false s.mutex)
  | futexWait {extra bounded : Bool} {fd : Int} (hpc : s.pc t = .futex extra bounded)
      (hq : s.futex.pc t = .returned (.acquire false) fd) (h0 : fd ≠ 0) (herror : fd ≠ -1) :
      Turn w s t occurred (s.wait t extra bounded)
  | interrupted {extra : Bool} (hpc : s.pc t = .event extra) (hextra : extra = true)
      (hnot : occurred = false) :
      Turn w s t occurred (s.ret t .eintr false extra false s.mutex)
  | woken {extra : Bool} (hpc : s.pc t = .event extra) :
      Turn w s t occurred (s.resume t extra false s.mutex)
  | timed {extra : Bool} (hpc : s.pc t = .select extra) :
      Turn w s t occurred (s.resume t extra true
        { s.mutex with waitcount := Unsigned.decr s.mutex.waitcount })
  | notLocked (hpc : s.pc t = .releaseState) (hlocked : s.mutex.locked = false) :
      Turn w s t occurred (s.goto t (.released .eperm))
  | locked (hpc : s.pc t = .releaseState) : Turn w s t occurred (s.goto t .releaseOwner)
  | notOwner (hpc : s.pc t = .releaseOwner) (howner : s.mutex.owner ≠ some (w.ptr t)) :
      Turn w s t occurred (s.goto t (.released .eperm))
  | owner (hpc : s.pc t = .releaseOwner) (howner : s.mutex.owner = some (w.ptr t)) :
      Turn w s t occurred (s.goto t .releaseLock)
  | unlock (hpc : s.pc t = .releaseLock) : Turn w s t occurred (s.unlock t)
  | countDown (hpc : s.pc t = .releaseLock) :
      Turn w s t occurred { s.goto t (.released .ok) with
        mutex := { s.mutex with count := Unsigned.decr s.mutex.count } }
  | gaveBack {r : Int} (hpc : s.pc t = .releaseFutex) (hq : s.futex.pc t = .returned .up r) :
      Turn w s t occurred (s.goto t (.released .ok))

theorem go_turn {w : Threads T P} {s s' : State T P} {t : T} {occurred : Bool}
    (h : s.go w t occurred = some s') : Turn w s t occurred s' := by
  cases hpc : s.pc t <;> simp only [go, hpc, reduceCtorEq, Option.some.injEq] at h
  case start tryonly extra bounded =>
    split at h <;> cases h
    · exact .ask hpc
    · exact .contend hpc
  case first tryonly extra bounded =>
    split at h
    case h_2 => cases h
    case h_1 fd hq =>
      split at h
      case isTrue hfd =>
        cases h
        exact .firstFd hpc hq hfd
      case isFalse hfd =>
        split at h <;> cases h
        case isTrue herror => exact .firstError hpc hq herror
        case isFalse herror => exact .firstTake hpc hq hfd herror
  case futex extra bounded =>
    split at h
    case h_2 => cases h
    case h_1 fd hq =>
      split at h
      case isTrue h0 =>
        subst h0
        cases h
        exact .futexTake hpc hq
      case isFalse h0 =>
        split at h <;> cases h
        case isTrue herror =>
          subst herror
          exact .futexError hpc hq
        case isFalse herror => exact .futexWait hpc hq h0 herror
  case event extra =>
    split at h <;> cases h
    case isTrue hintr =>
      simp only [Bool.and_eq_true, Bool.not_eq_true'] at hintr
      exact .interrupted hpc hintr.1 hintr.2
    case isFalse => exact .woken hpc
  case select extra =>
    subst h
    exact .timed hpc
  case releaseState =>
    split at h <;> cases h
    case isTrue hlocked => exact .notLocked hpc hlocked
    case isFalse => exact .locked hpc
  case releaseOwner =>
    split at h <;> cases h
    case isTrue howner => exact .notOwner hpc howner
    case isFalse howner => exact .owner hpc (not_not.mp howner)
  case releaseLock =>
    split at h <;> cases h
    · exact .unlock hpc
    · exact .countDown hpc
  case releaseFutex =>
    split at h <;> cases h
    case h_1 hq => exact .gaveBack hpc hq

end State

/-- A mutex as `pth_mutex_init` leaves it, live processes and idle threads. -/
structure Initial (robust : Bool) (s : State T P) : Prop where
  mutex   : ∃ type, s.mutex = pthMutexInit type robust
  futex   : Futex.Initial s.futex
  pc      : ∀ t, s.pc t = .idle
  dead    : ∀ p, s.dead p = false
  owns    : ∀ t, s.owns t = false
  returns : s.returns = []

end Ngpt.Sync.Shared
