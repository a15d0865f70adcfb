import Ngpt.Sync.Books
import Ngpt.Sync.Semaphore

/-!
# ngpt — the end of a semaphore (`__new_sem_destroy`, `semaphore.c`)

A semaphore keeps a mutex and a condition variable in a block of its own. To destroy it is
to destroy the one, then the other, and to free the block. Either of the first two can be
refused, and the block is freed all the same.

The calls are taken as a whole here. Of the mutex and the condition variable the model has
what the two destroys read, for private and for shared ones.

Result: `sem_destroy_harmless_iff`.
-/

namespace Ngpt.Sync.SemDestroy

open Transition Semaphore

/-- `pth_mutex_t`, with `PTH_MUTEX_NOT_CONSISTENT` and whether it is one of `init_mutex`. -/
structure PthMutex (Tid : Type) where
  mx            : Mutex Tid
  notConsistent : Bool
  inTable       : Bool

/-- `pthread_mutex_t`. -/
structure PthreadMutex (Tid : Type) where
  mxInit  : Bool
  mxMutex : Option (PthMutex Tid)

/-- `pth_cond_t`. -/
structure PthCond where
  waiters : Nat

/-- `pthread_cond_t`. -/
structure PthreadCond where
  cnInit : Bool
  cnCond : Option PthCond

/-- `struct _sem_lock_st`: what `__sem_waiting` points to. -/
structure SemLock (Tid : Type) where
  lock    : PthreadMutex Tid
  nonzero : PthreadCond

variable {Tid D : Type} [DecidableEq Tid] [DecidableEq D]

/-- What an unlock by its owner does to a mutex. -/
def unlocked (mx : Mutex Tid) : Mutex Tid :=
  let count := Unsigned.decr mx.count
  if count = 0 then { mx with locked := false, owner := none, ownerPid := 0, count := 0 }
  else { mx with count := count }

/-- `pthread_mutex_destroy` by `t`. -/
def pthreadMutexDestroy (t : Tid) (mutex : PthreadMutex Tid) : Errno × PthreadMutex Tid :=
  if mutex.mxInit = false then (.einval, mutex)
  else
    match mutex.mxMutex with
    | none => (.ok, { mutex with mxInit := false })
    | some m =>
      if m.mx.locked then
        if m.mx.owner = some t then
          if m.notConsistent then (.ebusy, mutex)
          else free { mutex with mxMutex := some { m with mx := unlocked m.mx } } m
        else (.ebusy, mutex)
      else free mutex m
where
  /-- The end of the call: a mutex of the table stays as it is. -/
  free (mutex : PthreadMutex Tid) (m : PthMutex Tid) : Errno × PthreadMutex Tid :=
    if m.inTable then (.ok, mutex) else (.ok, { mxInit := false, mxMutex := none })

/-- `pthread_cond_destroy`. -/
def pthreadCondDestroy (cond : PthreadCond) : Errno × PthreadCond :=
  let destroyed : Errno × PthreadCond := (.ok, { cnInit := false, cnCond := none })
  if cond.cnInit then
    match cond.cnCond with
    | some cn => if cn.waiters > 0 then (.ebusy, cond) else destroyed
    | none => destroyed
  else destroyed

/-- `__new_sem_destroy`: its return value and what is left of the block, `none` if that has
been freed. -/
def newSemDestroy (t : Tid) (sem : SemLock Tid) : Errno × Option (SemLock Tid) :=
  let r := pthreadMutexDestroy t sem.lock
  if r.1 = .ok then ((pthreadCondDestroy sem.nonzero).1, none) else (r.1, none)

/-! ## Failures -/

/-- If the call fails, the semaphore is what it was before. -/
def Harmless (t : Tid) (sem : SemLock Tid) : Prop :=
  (newSemDestroy t sem).1 ≠ .ok → (newSemDestroy t sem).2 = some sem

/-- The mutex is free or the caller's, and nobody waits for the condition. -/
structure Idle (t : Tid) (sem : SemLock Tid) : Prop where
  init   : sem.lock.mxInit = true
  lock   : ∀ m ∈ sem.lock.mxMutex, m.mx.locked = true →
    m.mx.owner = some t ∧ m.notConsistent = false
  nobody : sem.nonzero.cnInit = true → ∀ cn ∈ sem.nonzero.cnCond, cn.waiters = 0

theorem pthreadMutexDestroy_ok_iff (t : Tid) (mutex : PthreadMutex Tid) :
    (pthreadMutexDestroy t mutex).1 = .ok ↔ mutex.mxInit = true ∧
      ∀ m ∈ mutex.mxMutex, m.mx.locked = true → m.mx.owner = some t ∧ m.notConsistent = false := by
  have hfree : ∀ mutex m,
      (pthreadMutexDestroy.free mutex m : Errno × PthreadMutex Tid).1 = .ok := by
    intro mutex m
    unfold pthreadMutexDestroy.free
    split <;> rfl
  obtain ⟨mxInit, mxMutex⟩ := mutex
  rcases mxInit with _ | _
  · simp [pthreadMutexDestroy]
  · rcases mxMutex with _ | m
    · simp [pthreadMutexDestroy]
    · by_cases hl : m.mx.locked = true
      · by_cases hown : m.mx.owner = some t
        · rcases hc : m.notConsistent with _ | _
          · simp [pthreadMutexDestroy, hl, hown, hc, hfree]
          · simp [pthreadMutexDestroy, hl, hown, hc]
        · simp [pthreadMutexDestroy, hl, hown]
      · simp [pthreadMutexDestroy, hl, hfree]

theorem pthreadCondDestroy_ok_iff (cond : PthreadCond) :
    (pthreadCondDestroy cond).1 = .ok ↔
      (cond.cnInit = true → ∀ cn ∈ cond.cnCond, cn.waiters = 0) := by
  obtain ⟨cnInit, cnCond⟩ := cond
  rcases cnInit with _ | _
  · simp [pthreadCondDestroy]
  · rcases cnCond with _ | cn
    · simp [pthreadCondDestroy]
    · by_cases hw : cn.waiters = 0
      · simp [pthreadCondDestroy, hw]
      · simp [pthreadCondDestroy, hw, Nat.pos_of_ne_zero hw]

theorem newSemDestroy_ok_iff (t : Tid) (sem : SemLock Tid) :
    (newSemDestroy t sem).1 = .ok ↔ Idle t sem := by
  have hlock := pthreadMutexDestroy_ok_iff t sem.lock
  have hcond := pthreadCondDestroy_ok_iff sem.nonzero
  by_cases h : (pthreadMutexDestroy t sem.lock).1 = .ok
  · obtain ⟨hinit, howner⟩ := hlock.mp h
    simp only [newSemDestroy, h, if_true, hcond]
    exact ⟨fun hw => ⟨hinit, howner, hw⟩, fun hi => hi.nobody⟩
  · have hfail : (newSemDestroy t sem).1 = (pthreadMutexDestroy t sem.lock).1 := by
      simp [newSemDestroy, h]
    rw [hfail]
    exact iff_of_false h fun hi => h (hlock.mpr ⟨hi.init, hi.lock⟩)

theorem newSemDestroy_freed (t : Tid) (sem : SemLock Tid) : (newSemDestroy t sem).2 = none := by
  unfold newSemDestroy
  simp only
  split <;> rfl

/--
**Failed destroys.** `__new_sem_destroy` leaves a semaphore as it was when it fails, if and
only if it does not fail: the mutex of the semaphore is free or held by the caller, and no
thread waits for its condition.
-/
theorem sem_destroy_harmless_iff (t : Tid) (sem : SemLock Tid) : Harmless t sem ↔ Idle t sem := by
  rw [← newSemDestroy_ok_iff, Harmless, newSemDestroy_freed]
  constructor
  · intro h
    by_contra hne
    exact absurd (h hne) (Option.some_ne_none sem).symm
  · exact fun hok hne => absurd hok hne

/-- The block of a semaphore in use; the threads asleep in `pthread_cond_wait` are the
waiters of its condition. -/
def semLockOf (s : Sem Tid) : SemLock Tid where
  lock :=
    { mxInit := true
      mxMutex := some
        { mx := { pthMutexInit .timedNp with
            locked := s.lock.isSome, owner := s.lock, count := if s.lock.isSome then 1 else 0 }
          notConsistent := false
          inTable := false } }
  nonzero := { cnInit := true, cnCond := some { waiters := s.waiters.length } }

/-- Thread 0 waits for a semaphore with the value 0, and thread 1 destroys it: the call
fails, and the waiter is left with a block that has been freed. -/
theorem sem_destroy_under_waiter :
    ∃ s s' : Sem Nat, newSemInit 0 = .ok s ∧ run step s [.call 0 .wait, .go 0, .go 0] = some s' ∧
      s'.waiters = [0] ∧ newSemDestroy 1 (semLockOf s') = (.ebusy, none) ∧
      ¬ Harmless 1 (semLockOf s') := by
  refine ⟨_, _, rfl, rfl, rfl, rfl, fun hharmless => ?_⟩
  exact absurd (hharmless (by decide)) (Option.some_ne_none _).symm

end Ngpt.Sync.SemDestroy
