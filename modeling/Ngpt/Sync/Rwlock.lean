import Ngpt.Sync.Plain

/-!
# ngpt — read/write locks (`pth_sync.c`)

A private `pth_rwlock_t` is a count of readers, a mode and two mutexes: `rw_mutex_rd`
guards the count, and `rw_mutex_rw` is held by the writer, or by the first reader for
all of them. Threads run `pth_rwlock_acquire`, `pth_rwlock_release` and the mutex code
under them piece by piece, and may exit, which calls `pth_mutex_releaseall`.

`reading` and `writing` are not in the code. They list the threads that hold the lock,
a thread once for every read acquire. A read hold begins and ends where the count
changes, inside the section that `rw_mutex_rd` guards; a write hold begins when the
call returns and ends when the release starts to give `rw_mutex_rw` back. A release
that fails leaves its caller with the lock.
-/

namespace Ngpt.Sync.Rwlock

open Transition

/-- `rw_mutex_rd` and `rw_mutex_rw`. -/
inductive RwMutex where
  | rd
  | rw
  deriving DecidableEq, Repr

/-- `PTH_RWLOCK_RD` and `PTH_RWLOCK_RW`. -/
inductive Mode where
  | rd
  | rw
  deriving DecidableEq, Repr

/-- Where a thread is in the read/write lock code: in the named call of the mutex
code, or before the named statement. -/
inductive Pc where
  | idle
  /-- `pth_rwlock_acquire`: for writing; for reading; the first reader -/
  | lockRw
  | lockRd (tryonly extra bounded : Bool)
  | lockFirst
  | undoRd (rc : Errno)
  | storeRd
  | unlockRd
  /-- `pth_rwlock_release`: the test of `rw_mode`, then the two branches; `h` is the
  hold that ends -/
  | test (bounded : Bool)
  | unlockRw (h : Mode)
  | lockDec
  | unlockLast (h : Mode)
  | undoDec (rc : Errno)
  | storeDec
  | unlockDec
  | acquired (rc : Errno)
  | released (rc : Errno)
  | exited
  deriving DecidableEq, Repr

/-- A thread that may make a call. -/
def Pc.outside : Pc → Bool
  | .idle | .acquired _ | .released _ => true
  | _ => false

/-- The lock (`rw_state`, `rw_readers`, `rw_mode` and the mutexes) and its threads. -/
structure State (Tid D : Type) where
  mutexes     : Sys RwMutex Tid D
  initialized : Bool
  readers     : Nat
  mode        : Mode
  pc          : Tid → Pc
  reading     : List Tid
  writing     : List Tid

inductive Action (Tid D : Type) where
  | acquire (t : Tid) (op : Mode) (tryonly extra bounded : Bool)
  | release (t : Tid) (bounded : Bool)
  /-- the next piece of the mutex call that `t` is in -/
  | mutex (t : Tid) (occurred : Bool)
  /-- the next statement of `t` -/
  | cont (t : Tid)
  /-- `pth_exit`; the loop of `pth_mutex_releaseall` ends within `fuel` rounds -/
  | exit (t : Tid) (fuel : Nat)
  /-- what other parts of the library change -/
  | natives (n : Nat)
  | bind (t : Tid) (d : Option D)
  | park (t : Tid) (d : Option D)
  deriving DecidableEq, Repr

variable {Tid D : Type} [DecidableEq Tid]

namespace State

def goto (s : State Tid D) (t : Tid) (pc : Pc) : State Tid D :=
  { s with pc := Function.update s.pc t pc }

/-- Start a call of the mutex code. -/
def call (s : State Tid D) (t : Tid) (q : Sync.Pc RwMutex) (pc : Pc) : State Tid D :=
  { s with mutexes := s.mutexes.goto t q, pc := Function.update s.pc t pc }

/-- The hold that a release by `t` ends. -/
def holdOf (s : State Tid D) (t : Tid) : Mode := if t ∈ s.writing then .rw else .rd

def drop (s : State Tid D) (t : Tid) : State Tid D :=
  if t ∈ s.writing then { s with writing := s.writing.erase t }
  else { s with reading := s.reading.erase t }

def restore (s : State Tid D) (t : Tid) : Mode → State Tid D
  | .rd => { s with reading := t :: s.reading }
  | .rw => { s with writing := t :: s.writing }

/-- The next statement of `t`; a thread inside a mutex call has none. -/
def cont (s : State Tid D) (t : Tid) : Option (State Tid D) :=
  match s.pc t, s.mutexes.pc t with
  | .lockRw, .returned rc =>
    if rc = .ok then
      some { s.goto t (.acquired .ok) with mode := .rw, writing := t :: s.writing }
    else some (s.goto t (.acquired rc))
  | .lockRd tryonly extra bounded, .returned rc =>
    if rc = .ok then
      let s : State Tid D := { s with readers := Unsigned.incr s.readers }
      if s.readers = 1 then some (s.call t (.acquire .rw tryonly extra bounded) .lockFirst)
      else some (s.goto t .storeRd)
    else some (s.goto t (.acquired rc))
  | .lockFirst, .returned rc =>
    if rc = .ok then some (s.goto t .storeRd)
    else some ({ s with readers := Unsigned.decr s.readers }.call t (.releaseState .rd)
      (.undoRd rc))
  | .undoRd rc, .returned _ => some (s.goto t (.acquired rc))
  | .storeRd, _ =>
    some ({ s with mode := .rd, reading := t :: s.reading }.call t (.releaseState .rd) .unlockRd)
  | .unlockRd, .returned _ => some (s.goto t (.acquired .ok))
  | .test bounded, _ =>
    if s.mode = .rw then some ((s.drop t).call t (.releaseState .rw) (.unlockRw (s.holdOf t)))
    else some (s.call t (.acquire .rd false false bounded) .lockDec)
  | .unlockRw h, .returned rc =>
    if rc = .ok then some (s.goto t (.released .ok))
    else some ((s.restore t h).goto t (.released rc))
  | .lockDec, .returned rc =>
    if rc = .ok then
      let h := s.holdOf t
      let s : State Tid D := { s.drop t with readers := Unsigned.decr s.readers }
      if s.readers = 0 then some (s.call t (.releaseState .rw) (.unlockLast h))
      else some (s.goto t .storeDec)
    else some (s.goto t (.released rc))
  | .unlockLast h, .returned rc =>
    if rc = .ok then some (s.goto t .storeDec)
    else some ({ s.restore t h with readers := Unsigned.incr s.readers }.call t
      (.releaseState .rd) (.undoDec rc))
  | .undoDec rc, .returned _ => some (s.goto t (.released rc))
  | .storeDec, _ => some ({ s with mode := .rd }.call t (.releaseState .rd) .unlockDec)
  | .unlockDec, .returned _ => some (s.goto t (.released .ok))
  | _, _ => none

def step [DecidableEq D] (s : State Tid D) : Action Tid D → Option (State Tid D)
  | .acquire t op tryonly extra bounded =>
    if (s.pc t).outside then
      if s.initialized then
        match op with
        | .rw => some (s.call t (.acquire .rw tryonly extra bounded) .lockRw)
        | .rd => some (s.call t (.acquire .rd tryonly extra bounded)
            (.lockRd tryonly extra bounded))
      else some (s.goto t (.acquired .einval))
    else none
  | .release t bounded =>
    -- a thread releases only a lock that it holds
    if (s.pc t).outside ∧ (t ∈ s.reading ∨ t ∈ s.writing) then
      if s.initialized then some (s.goto t (.test bounded)) else some (s.goto t (.released .einval))
    else none
  | .mutex t occurred => (s.mutexes.go t occurred).map fun ms => { s with mutexes := ms }
  | .cont t => s.cont t
  | .exit t fuel =>
    -- a thread exits only after it has released every lock
    if (s.pc t).outside ∧ t ∉ s.reading ∧ t ∉ s.writing then
      (s.mutexes.mem.pthMutexReleaseall fuel t).map fun mem =>
        { s.goto t .exited with mutexes := { s.mutexes with mem := mem, held := heldOf mem } }
    else none
  | .natives n => (s.mutexes.step (.natives n)).map fun ms => { s with mutexes := ms }
  | .bind t d => (s.mutexes.step (.bind t d)).map fun ms => { s with mutexes := ms }
  | .park t d => (s.mutexes.step (.park t d)).map fun ms => { s with mutexes := ms }

end State

/-- A lock as `pth_rwlock_init` leaves it, whatever `rw_mode` is, and idle threads. -/
structure Initial (s : State Tid D) : Prop where
  mutexes     : Sync.Initial s.mutexes
  mutex       : ∀ m, s.mutexes.mem.mutex m = pthMutexInit .timedNp
  initialized : s.initialized = true
  readers     : s.readers = 0
  pc          : ∀ t, s.pc t = .idle
  reading     : s.reading = []
  writing     : s.writing = []

/-- The statements of `cont`, with what each of them finds. -/
inductive Cont (s : State Tid D) (t : Tid) : State Tid D → Prop where
  | lockRw (hp : s.pc t = .lockRw) (hq : s.mutexes.pc t = .returned .ok) :
    Cont s t { s.goto t (.acquired .ok) with mode := .rw, writing := t :: s.writing }
  | lockRwFail {rc : Errno} (hp : s.pc t = .lockRw) (hq : s.mutexes.pc t = .returned rc)
    (hrc : rc ≠ .ok) : Cont s t (s.goto t (.acquired rc))
  | lockRdFirst {tryonly extra bounded : Bool} (hp : s.pc t = .lockRd tryonly extra bounded)
    (hq : s.mutexes.pc t = .returned .ok) (hone : Unsigned.incr s.readers = 1) :
    Cont s t ({ s with readers := Unsigned.incr s.readers }.call t
      (.acquire .rw tryonly extra bounded) .lockFirst)
  | lockRdNext {tryonly extra bounded : Bool} (hp : s.pc t = .lockRd tryonly extra bounded)
    (hq : s.mutexes.pc t = .returned .ok) (hone : Unsigned.incr s.readers ≠ 1) :
    Cont s t ({ s with readers := Unsigned.incr s.readers }.goto t .storeRd)
  | lockRdFail {tryonly extra bounded : Bool} {rc : Errno}
    (hp : s.pc t = .lockRd tryonly extra bounded) (hq : s.mutexes.pc t = .returned rc)
    (hrc : rc ≠ .ok) : Cont s t (s.goto t (.acquired rc))
  | lockFirst (hp : s.pc t = .lockFirst) (hq : s.mutexes.pc t = .returned .ok) :
    Cont s t (s.goto t .storeRd)
  | lockFirstFail {rc : Errno} (hp : s.pc t = .lockFirst)
    (hq : s.mutexes.pc t = .returned rc) (hrc : rc ≠ .ok) :
    Cont s t ({ s with readers := Unsigned.decr s.readers }.call t (.releaseState .rd)
      (.undoRd rc))
  | undoRd {rc rc' : Errno} (hp : s.pc t = .undoRd rc) (hq : s.mutexes.pc t = .returned rc') :
    Cont s t (s.goto t (.acquired rc))
  | storeRd (hp : s.pc t = .storeRd) :
    Cont s t ({ s with mode := .rd, reading := t :: s.reading }.call t (.releaseState .rd)
      .unlockRd)
  | unlockRd {rc : Errno} (hp : s.pc t = .unlockRd) (hq : s.mutexes.pc t = .returned rc) :
    Cont s t (s.goto t (.acquired .ok))
  | testRw {bounded : Bool} (hp : s.pc t = .test bounded) (hmode : s.mode = .rw) :
    Cont s t ((s.drop t).call t (.releaseState .rw) (.unlockRw (s.holdOf t)))
  | testRd {bounded : Bool} (hp : s.pc t = .test bounded) (hmode : s.mode ≠ .rw) :
    Cont s t (s.call t (.acquire .rd false false bounded) .lockDec)
  | unlockRw {h : Mode} (hp : s.pc t = .unlockRw h) (hq : s.mutexes.pc t = .returned .ok) :
    Cont s t (s.goto t (.released .ok))
  | unlockRwFail {h : Mode} {rc : Errno} (hp : s.pc t = .unlockRw h)
    (hq : s.mutexes.pc t = .returned rc) (hrc : rc ≠ .ok) :
    Cont s t ((s.restore t h).goto t (.released rc))
  | lockDecLast (hp : s.pc t = .lockDec) (hq : s.mutexes.pc t = .returned .ok)
    (hz : Unsigned.decr s.readers = 0) :
    Cont s t ({ s.drop t with readers := Unsigned.decr s.readers }.call t (.releaseState .rw)
      (.unlockLast (s.holdOf t)))
  | lockDecNext (hp : s.pc t = .lockDec) (hq : s.mutexes.pc t = .returned .ok)
    (hz : Unsigned.decr s.readers ≠ 0) :
    Cont s t ({ s.drop t with readers := Unsigned.decr s.readers }.goto t .storeDec)
  | lockDecFail {rc : Errno} (hp : s.pc t = .lockDec) (hq : s.mutexes.pc t = .returned rc)
    (hrc : rc ≠ .ok) : Cont s t (s.goto t (.released rc))
  | unlockLast {h : Mode} (hp : s.pc t = .unlockLast h) (hq : s.mutexes.pc t = .returned .ok) :
    Cont s t (s.goto t .storeDec)
  | unlockLastFail {h : Mode} {rc : Errno} (hp : s.pc t = .unlockLast h)
    (hq : s.mutexes.pc t = .returned rc) (hrc : rc ≠ .ok) :
    Cont s t ({ s.restore t h with readers := Unsigned.incr s.readers }.call t
      (.releaseState .rd) (.undoDec rc))
  | undoDec {rc rc' : Errno} (hp : s.pc t = .undoDec rc) (hq : s.mutexes.pc t = .returned rc') :
    Cont s t (s.goto t (.released rc))
  | storeDec (hp : s.pc t = .storeDec) :
    Cont s t ({ s with mode := .rd }.call t (.releaseState .rd) .unlockDec)
  | unlockDec {rc : Errno} (hp : s.pc t = .unlockDec) (hq : s.mutexes.pc t = .returned rc) :
    Cont s t (s.goto t (.released .ok))

theorem cont_of_cont {s s' : State Tid D} {t : Tid} (h : s.cont t = some s') :
    Cont s t s' := by
  unfold State.cont at h
  split at h
  case h_1 rc hp hq =>
    obtain ⟨rfl, ⟨⟩⟩ | ⟨hrc, ⟨⟩⟩ := ite_eq_iff.mp h
    · exact .lockRw hp hq
    · exact .lockRwFail hp hq hrc
  case h_2 tryonly extra bounded rc hp hq =>
    obtain ⟨rfl, hs⟩ | ⟨hrc, ⟨⟩⟩ := ite_eq_iff.mp h
    · obtain ⟨hone, ⟨⟩⟩ | ⟨hone, ⟨⟩⟩ := ite_eq_iff.mp hs
      · exact .lockRdFirst hp hq hone
      · exact .lockRdNext hp hq hone
    · exact .lockRdFail hp hq hrc
  case h_3 rc hp hq =>
    obtain ⟨rfl, ⟨⟩⟩ | ⟨hrc, ⟨⟩⟩ := ite_eq_iff.mp h
    · exact .lockFirst hp hq
    · exact .lockFirstFail hp hq hrc
  case h_7 bounded hp =>
    obtain ⟨hmode, ⟨⟩⟩ | ⟨hmode, ⟨⟩⟩ := ite_eq_iff.mp h
    · exact .testRw hp hmode
    · exact .testRd hp hmode
  case h_8 hold rc hp hq =>
    obtain ⟨rfl, ⟨⟩⟩ | ⟨hrc, ⟨⟩⟩ := ite_eq_iff.mp h
    · exact .unlockRw hp hq
    · exact .unlockRwFail hp hq hrc
  case h_9 rc hp hq =>
    obtain ⟨rfl, hs⟩ | ⟨hrc, ⟨⟩⟩ := ite_eq_iff.mp h
    · obtain ⟨hz, ⟨⟩⟩ | ⟨hz, ⟨⟩⟩ := ite_eq_iff.mp hs
      · exact .lockDecLast hp hq hz
      · exact .lockDecNext hp hq hz
    · exact .lockDecFail hp hq hrc
  case h_10 hold rc hp hq =>
    obtain ⟨rfl, ⟨⟩⟩ | ⟨hrc, ⟨⟩⟩ := ite_eq_iff.mp h
    · exact .unlockLast hp hq
    · exact .unlockLastFail hp hq hrc
  all_goals cases h
  case h_4 hp hq => exact .undoRd hp hq
  case h_5 hp => exact .storeRd hp
  case h_6 hp hq => exact .unlockRd hp hq
  case h_11 hp hq => exact .undoDec hp hq
  case h_12 hp => exact .storeDec hp
  case h_13 hp hq => exact .unlockDec hp hq

end Ngpt.Sync.Rwlock
