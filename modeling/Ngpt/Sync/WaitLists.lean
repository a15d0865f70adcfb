import Ngpt.Lib.Rings
import Ngpt.Sync.Condvar
import Ngpt.Sync.StaticInit

/-!
# ngpt — the wait lists of mutexes and condition variables (`pth_sync.c`, `pth_tcb.c`)

`pth_mutex_acquire`, `pth_mutex_release` and `pth_cond_await` on any number of private
mutexes and condition variables. The mutex calls are those of `Ngpt.Sync.Mutex`; what the
code does under the lock of an object is one step. A thread has one list element,
`mutex_cond_wait`, for the list of the object that it waits for.

The list is edited only if `pth_number_of_natives` is above 1 at that moment, and this
number may change at any time. How a wait ends is up to the environment. So is the state
of a condition variable: `pth_cond_notify` sets it, and reads the lists without editing
them; it may keep the lock of the object from one step to the next.

Result: `wait_lists_exact`.
-/

namespace Ngpt.Sync

/-! ## The mutex calls and the wait lists -/

section Mutexes

open Function LinkedRing StaticInit

variable {Mid Tid D : Type}

/-- The mutex that a thread waits for. -/
def Pc.waitsFor : Pc Mid → Option Mid
  | .waitEvent m _ | .waitSelect m => some m
  | _ => none

/-- Outside the calls or in a release. -/
def Pc.calm : Pc Mid → Bool
  | .idle | .returned _ | .releaseState _ | .releaseOwner _ | .releaseLock _ => true
  | _ => false

theorem Pc.waitsFor_of_calm {q : Pc Mid} (h : q.calm = true) : q.waitsFor = none := by
  cases q <;> first | rfl | cases h

theorem Pc.calm_of_outside {q : Pc Mid} (h : q.outside = true) : q.calm = true := by
  cases q <;> first | rfl | cases h

variable {x : Mem Mid Tid D} {s s' : Sys Mid Tid D} {t u : Tid} {m : Mid} {occurred : Bool}

variable [DecidableEq Tid]

theorem readyWaiter_wait : (x.readyWaiter t).wait = x.wait := by
  unfold Mem.readyWaiter
  split <;> rfl

theorem wakeWaiter_wait [DecidableEq D] : (x.wakeWaiter t m).wait = x.wait := by
  unfold Mem.wakeWaiter
  simp only []
  repeat' split
  all_goals first | rfl | exact readyWaiter_wait

theorem update_calm {pc : Tid → Pc Mid} {q : Pc Mid} (h : q.calm = true) :
    (update pc t q t).calm = true := by
  rw [update_self]
  exact h

theorem listOp_delete (h : listOp s (.go t occurred) = some (.delete u)) :
    u = t ∧ ∃ m, (s.pc t).waitsFor = some m := by
  unfold listOp at h
  rcases hpc : s.pc t with _ | ⟨m, tryonly, extra, bounded⟩ | ⟨m, extra⟩ | m | m | m | m | rc
  all_goals simp only [hpc] at h
  case waitEvent | waitSelect =>
    repeat' split at h
    all_goals cases h
    exact ⟨rfl, m, rfl⟩
  all_goals
    repeat' split at h
    all_goals cases h

variable [DecidableEq Mid]

theorem take_wait : (x.take t m).wait = x.wait := by
  unfold Mem.take Mem.ownMutex
  simp only []
  split <;> rfl

theorem giveUp_wait : (x.giveUp t m).wait = x.wait := by
  unfold Mem.giveUp Mem.disownMutex
  simp only []
  split <;> rfl

theorem acquireEnter_wait (x : Mem Mid Tid D) (t : Tid) (m : Mid) (tryonly bounded : Bool) :
    ((x.acquireEnter t m tryonly bounded).1 = none ∧
      (x.acquireEnter t m tryonly bounded).2.wait =
        if x.natives > 1 then pthElementInsert x.wait (.thread t) (.mutex m) else x.wait) ∨
    ∃ rc, (x.acquireEnter t m tryonly bounded).1 = some rc ∧
      (x.acquireEnter t m tryonly bounded).2.wait = x.wait := by
  unfold Mem.acquireEnter
  simp only []
  split
  case isTrue => exact .inr ⟨_, rfl, take_wait⟩
  case isFalse =>
    split
    case isTrue => split <;> exact .inr ⟨_, rfl, rfl⟩
    case isFalse =>
      split
      case isTrue => exact .inr ⟨_, rfl, rfl⟩
      case isFalse =>
        refine .inl ⟨rfl, ?_⟩
        cases bounded <;> exact apply_ite Mem.wait (x.natives > 1) ..

theorem acquireResume_wait (x : Mem Mid Tid D) (t : Tid) (m : Mid) (bounded : Bool) :
    ((x.mutex m).locked = false ∧ (x.acquireResume t m bounded).1 = some .ok ∧
      (x.acquireResume t m bounded).2.wait =
        if x.natives > 1 then pthElementDelete x.wait (.thread t) else x.wait) ∨
    ((x.mutex m).locked = true ∧ (x.acquireResume t m bounded).1 = none ∧
      (x.acquireResume t m bounded).2.wait = x.wait) := by
  -- the count of the waiters has nothing to do with it
  have hcount : ((x.removeWaiter m).mutex m).locked = (x.mutex m).locked := by
    simp [Mem.removeWaiter, Mem.setMutex]
  unfold Mem.acquireResume
  cases hlocked : (x.mutex m).locked <;> cases bounded <;>
    simp only [hlocked, hcount, if_true, if_false, Bool.false_eq_true, Bool.true_eq_false]
  case false.false | false.true =>
    refine .inl ⟨trivial, trivial, ?_⟩
    rw [take_wait]
    exact apply_ite Mem.wait ..
  case true.false | true.true => exact .inr ⟨trivial, trivial, by trivial⟩

/-- A wait that ends without the mutex: the extra event has occurred alone. -/
def Sys.interrupted (s : Sys Mid Tid D) (t : Tid) (occurred : Bool) : Bool :=
  match s.pc t with
  | .waitEvent _ extra => extra && !occurred
  | _ => false

/-- What the macro that a step runs does to the lists, and whether the thread waits
before and after it. -/
def WaitEffect (s : Sys Mid Tid D) (t : Tid) (s' : Sys Mid Tid D) :
    Option (ListOp Mid Tid) → Prop
  | some (.insert u m) => u = t ∧ s'.mem.wait = (if s.mem.natives > 1 then
      pthElementInsert s.mem.wait (.thread t) (.mutex m) else s.mem.wait) ∧
      (s.pc t).waitsFor = none ∧ (s'.pc t).waitsFor = some m
  | some (.delete u) => u = t ∧ s'.mem.wait = (if s.mem.natives > 1 then
      pthElementDelete s.mem.wait (.thread t) else s.mem.wait) ∧
      (∃ m, (s.pc t).waitsFor = some m) ∧ (s'.pc t).waitsFor = none
  | _ => s'.mem.wait = s.mem.wait ∧ (s'.pc t).waitsFor = (s.pc t).waitsFor

theorem acquired_pc (s : Sys Mid Tid D) (t : Tid) (m : Mid) (q : Pc Mid)
    (r : Option Errno × Mem Mid Tid D) :
    (s.acquired t m q r).pc t = r.1.elim q .returned ∧ (s.acquired t m q r).mem = r.2 := by
  obtain ⟨_ | rc, mem⟩ := r
  · exact ⟨update_self .., rfl⟩
  · unfold Sys.acquired
    simp only []
    split <;> exact ⟨update_self .., rfl⟩

theorem waitEffect_resume {q : Pc Mid} {bounded : Bool} (hpc : s.pc t = q)
    (hq : q.waitsFor = some m) :
    WaitEffect s t (s.acquired t m q (s.mem.acquireResume t m bounded))
      (if (s.mem.mutex m).locked = false then some (.delete t) else none) := by
  obtain ⟨hpc', hmem⟩ := acquired_pc s t m q (s.mem.acquireResume t m bounded)
  rcases acquireResume_wait s.mem t m bounded with ⟨hfree, hrc, hwait⟩ | ⟨hlocked, hrc, hwait⟩ <;>
    rw [hrc] at hpc'
  · rw [if_pos hfree]
    exact ⟨rfl, hmem ▸ hwait, ⟨m, hpc ▸ hq⟩, hpc' ▸ rfl⟩
  · rw [if_neg (by simp [hlocked])]
    exact ⟨hmem ▸ hwait, by rw [hpc', hpc]; rfl⟩

variable [DecidableEq D]

theorem releaseLocked_wait : (x.releaseLocked t m).wait = x.wait := by
  unfold Mem.releaseLocked
  simp only []
  split
  case isTrue => rw [wakeWaiter_wait, giveUp_wait]
  case isFalse => rfl

theorem go_waitEffect (h : s.go t occurred = some s') (hint : s.interrupted t occurred = false) :
    WaitEffect s t s' (listOp s (.go t occurred)) := by
  unfold Sys.go at h
  unfold Sys.interrupted at hint
  unfold listOp
  rcases hpc : s.pc t with _ | ⟨m, tryonly, extra, bounded⟩ | ⟨m, extra⟩ | m | m | m | m | rc
  all_goals simp only [hpc] at h hint ⊢
  case idle | returned => cases h
  case acquire =>
    by_cases hintern : (s.mem.mutex m).internalLocked = true
    · rw [if_pos hintern] at h ⊢
      obtain ⟨-, ⟨⟩⟩ := Option.ite_none_right_eq_some.mp h
      exact ⟨rfl, by simp [hpc, Pc.waitsFor, Sys.goto]⟩
    · rw [if_neg hintern] at h ⊢
      cases h
      obtain ⟨hpc', hmem⟩ := acquired_pc s t m
        (if bounded then .waitSelect m else .waitEvent m extra)
        (s.mem.acquireEnter t m tryonly bounded)
      rcases acquireEnter_wait s.mem t m tryonly bounded with ⟨hrc, hwait⟩ | ⟨rc, hrc, hwait⟩ <;>
        rw [hrc] at hpc'
      · rw [if_pos (acquireEnter_eq_none_iff.mp hrc)]
        exact ⟨rfl, hmem ▸ hwait, hpc ▸ rfl, by rw [hpc']; cases bounded <;> rfl⟩
      · have hno : ¬ hasToWait (s.mem.mutex m) t tryonly = true := fun hwaits => by
          cases hrc.symm.trans (acquireEnter_eq_none_iff.mpr hwaits)
        rw [if_neg hno]
        exact ⟨hmem ▸ hwait, by rw [hpc', hpc]; rfl⟩
  case waitEvent =>
    rw [if_neg (by simp [hint])] at h ⊢
    cases h
    exact waitEffect_resume hpc rfl
  case waitSelect =>
    cases h
    exact waitEffect_resume hpc rfl
  case releaseState | releaseOwner =>
    repeat' split at h
    all_goals
      cases h
      exact ⟨rfl, by simp [hpc, Pc.waitsFor, Sys.goto]⟩
  case releaseLock =>
    cases h
    split <;> exact ⟨releaseLocked_wait, by simp [hpc, Pc.waitsFor, Sys.goto, Sys.setHeld]⟩

theorem go_calm (h : s.go t occurred = some s') (hcalm : (s.pc t).calm = true) :
    (s'.pc t).calm = true ∧ s.interrupted t occurred = false ∧
      ∀ op, listOp s (.go t occurred) = some op → ∃ m, op = .tail m := by
  unfold Sys.go at h
  unfold Sys.interrupted
  unfold listOp
  rcases hpc : s.pc t with _ | ⟨m, tryonly, extra, bounded⟩ | ⟨m, extra⟩ | m | m | m | m | rc
  all_goals rw [hpc] at hcalm
  all_goals simp only [hpc] at h ⊢
  case idle | returned => cases h
  case acquire | waitEvent | waitSelect => cases hcalm
  case releaseState | releaseOwner =>
    refine ⟨?_, trivial, fun op hop => by cases hop⟩
    repeat' split at h
    all_goals
      cases h
      exact update_calm rfl
  case releaseLock =>
    cases h
    refine ⟨update_calm rfl, trivial, fun op hop => ?_⟩
    exact ⟨m, (Option.some.inj (Option.ite_none_right_eq_some.mp hop).2).symm⟩

end Mutexes

end Ngpt.Sync

namespace Ngpt.Sync.WaitLists

open Function LinkedRing Transition StaticInit

/-! ## Threads -/

/-- What has a lock and a wait list. -/
inductive Obj (Mid Cid : Type) where
  | mutex (m : Mid)
  | cond (c : Cid)
  deriving DecidableEq, Repr

/-- Where a thread is with the condition variables. -/
inductive Pc (Mid Cid : Type) where
  | idle
  /-- in a call of the mutex functions of its own -/
  | mutex
  /-- `pth_cond_await`: the consistency checks, the section that counts the thread in,
  and `pth_mutex_release` -/
  | await (c : Cid) (m : Mid) (bounded : Bool)
  | enter (c : Cid) (m : Mid) (bounded : Bool)
  | release (c : Cid) (m : Mid) (bounded : Bool)
  /-- in `pth_wait`, then out of it, with whether the `COND` event has occurred; or in
  `select` -/
  | waiting (c : Cid) (m : Mid)
  | ready (c : Cid) (m : Mid) (occurred : Bool)
  | select (c : Cid) (m : Mid)
  | reacquire (c : Cid) (m : Mid)
  | awaited (rv : Bool)
  deriving DecidableEq, Repr

/-- The mutexes with all wait lists, and the condition variables. -/
structure State (Mid Cid Tid D : Type) where
  mutexes : Sys (Obj Mid Cid) Tid D
  cond    : Cid → Condvar.Cond Tid
  pc      : Tid → Pc Mid Cid

inductive Action (Mid Cid Tid D : Type) where
  | acquire (t : Tid) (m : Mid) (tryonly extra bounded : Bool)
  | release (t : Tid) (m : Mid)
  | await (t : Tid) (c : Cid) (m : Mid) (bounded : Bool)
  /-- the next piece of the mutex call that `t` is in; `occurred` is that of the event -/
  | piece (t : Tid) (occurred : Bool)
  /-- the next piece of `pth_cond_await` -/
  | go (t : Tid)
  /-- `pth_wait` returns in `pth_cond_await` -/
  | wake (t : Tid) (occurred : Bool)
  /-- a piece of a notify, which leaves the condition variable like this -/
  | notify (c : Cid) (cn : Condvar.Cond Tid)
  /-- what other parts of the library change -/
  | natives (n : Nat)
  | bind (t : Tid) (d : Option D)
  | park (t : Tid) (d : Option D)

variable {Mid Cid Tid D : Type}

/-- A thread that may make a call, once its last mutex call is over. -/
def Pc.outside : Pc Mid Cid → Bool
  | .idle | .mutex | .awaited _ => true
  | _ => false

/-- The condition variable that a thread waits for: it has been counted in, and not out
yet. -/
def Pc.waitsFor : Pc Mid Cid → Option Cid
  | .release c _ _ | .waiting c _ | .ready c _ _ | .select c _ => some c
  | _ => none

/-- In a call of the mutex functions that may wait. -/
def Pc.acquires : Pc Mid Cid → Bool
  | .mutex | .reacquire _ _ => true
  | _ => false

theorem Pc.waitsFor_of_outside {q : Pc Mid Cid} (h : q.outside = true) : q.waitsFor = none := by
  cases q <;> first | rfl | cases h

theorem Pc.waitsFor_of_acquires {q : Pc Mid Cid} (h : q.acquires = true) : q.waitsFor = none := by
  cases q <;> first | rfl | cases h

namespace State

variable [DecidableEq Mid] [DecidableEq Cid] [DecidableEq Tid] [DecidableEq D]

abbrev wait (s : State Mid Cid Tid D) : Links (WaitNode (Obj Mid Cid) Tid) := s.mutexes.mem.wait

/-- The object whose call a thread is blocked in. -/
def blockedOn (s : State Mid Cid Tid D) (t : Tid) : Option (Obj Mid Cid) :=
  match (s.pc t).waitsFor with
  | some c => some (.cond c)
  | none => (s.mutexes.pc t).waitsFor

def goto (s : State Mid Cid Tid D) (t : Tid) (pc : Pc Mid Cid) : State Mid Cid Tid D :=
  { s with pc := update s.pc t pc }

/-- Start a call of the mutex code. -/
def callMutex (s : State Mid Cid Tid D) (t : Tid) (q : Sync.Pc (Obj Mid Cid)) (pc : Pc Mid Cid) :
    State Mid Cid Tid D :=
  { s with mutexes := s.mutexes.goto t q, pc := update s.pc t pc }

def setWait (s : State Mid Cid Tid D) (wait : Links (WaitNode (Obj Mid Cid) Tid)) :
    State Mid Cid Tid D :=
  { s with mutexes := { s.mutexes with mem := { s.mutexes.mem with wait := wait } } }

def setCond (s : State Mid Cid Tid D) (c : Cid) (cn : Condvar.Cond Tid) : State Mid Cid Tid D :=
  { s with cond := update s.cond c cn }

/-- `pth_cond_await` under `cn_lock`, up to the call of `pth_mutex_release`. -/
def enter (s : State Mid Cid Tid D) (t : Tid) (c : Cid) (m : Mid) (bounded : Bool) :
    State Mid Cid Tid D :=
  let s := if s.mutexes.mem.natives > 1 then
    s.setWait (pthElementInsert s.wait (.thread t) (.mutex (.cond c))) else s
  (s.setCond c (s.cond c).countIn).callMutex t (.releaseState (.mutex m)) (.release c m bounded)

/-- `pth_cond_await` from the moment it has `cn_lock` again, up to the call of
`pth_mutex_acquire`. -/
def leave (s : State Mid Cid Tid D) (t : Tid) (c : Cid) (m : Mid) (bounded : Bool) :
    State Mid Cid Tid D :=
  let s := if s.mutexes.mem.natives > 1 then
    s.setWait (pthElementDelete s.wait (.thread t)) else s
  (s.setCond c (s.cond c).countOut).callMutex t (.acquire (.mutex m) false false bounded)
    (.reacquire c m)

/-- The next piece of `pth_cond_await`; a thread that waits has none. -/
def go (s : State Mid Cid Tid D) (t : Tid) : Option (State Mid Cid Tid D) :=
  match s.pc t with
  | .await c m bounded =>
    if (s.cond c).initialized = false ∨ (s.mutexes.mem.mutex (.mutex m)).owner ≠ some t then
      some (s.goto t (.awaited false))
    else some (s.goto t (.enter c m bounded))
  | .enter c m bounded => if (s.cond c).lock = none then some (s.enter t c m bounded) else none
  | .release c m bounded =>
    match s.mutexes.pc t with
    | .returned _ => some (s.goto t (if bounded then .select c m else .waiting c m))
    | _ => none
  | .ready c m occurred =>
    if (s.cond c).lock = none then
      if (s.cond c).signaled = false ∧ occurred then some (s.goto t (.waiting c m))
      else some (s.leave t c m false)
    else none
  | .select c m => if (s.cond c).lock = none then some (s.leave t c m true) else none
  | .reacquire _ _ =>
    match s.mutexes.pc t with
    | .returned _ => some (s.goto t (.awaited true))
    | _ => none
  | _ => none

def liftMutex (s : State Mid Cid Tid D) (r : Option (Sys (Obj Mid Cid) Tid D)) :
    Option (State Mid Cid Tid D) :=
  r.map fun ms => { s with mutexes := ms }

def step (s : State Mid Cid Tid D) : Action Mid Cid Tid D → Option (State Mid Cid Tid D)
  | .acquire t m tryonly extra bounded =>
    if (s.pc t).outside ∧ (s.mutexes.pc t).outside then
      some (s.callMutex t (.acquire (.mutex m) tryonly extra bounded) .mutex)
    else none
  | .release t m =>
    if (s.pc t).outside ∧ (s.mutexes.pc t).outside then
      some (s.callMutex t (.releaseState (.mutex m)) .mutex)
    else none
  | .await t c m bounded =>
    if (s.pc t).outside ∧ (s.mutexes.pc t).outside then some (s.goto t (.await c m bounded))
    else none
  | .piece t occurred => s.liftMutex (s.mutexes.go t occurred)
  | .go t => s.go t
  | .wake t occurred =>
    match s.pc t with
    | .waiting c m => some (s.goto t (.ready c m occurred))
    | _ => none
  | .notify c cn => some (s.setCond c cn)
  | .natives n => s.liftMutex (s.mutexes.step (.natives n))
  | .bind t d => s.liftMutex (s.mutexes.step (.bind t d))
  | .park t d => s.liftMutex (s.mutexes.step (.park t d))

/-- The macro that a step runs, if there are several native threads. -/
def edit (s : State Mid Cid Tid D) : Action Mid Cid Tid D → Option (ListOp (Obj Mid Cid) Tid)
  | .piece t occurred =>
    match listOp s.mutexes (.go t occurred) with
    | some (.tail _) => none
    | op => op
  | .go t =>
    match s.pc t with
    | .enter c _ _ => if (s.cond c).lock = none then some (.insert t (.cond c)) else none
    | .ready c _ occurred =>
      if (s.cond c).lock = none ∧ ¬((s.cond c).signaled = false ∧ occurred) then some (.delete t)
      else none
    | .select c _ => if (s.cond c).lock = none then some (.delete t) else none
    | _ => none
  | _ => none

/-- A blocked acquire returns `EINTR`. -/
def interrupted (s : State Mid Cid Tid D) : Action Mid Cid Tid D → Bool
  | .piece t occurred => s.mutexes.interrupted t occurred
  | _ => false

end State

/-- The condition on a step: the macros find several native threads, and no acquire that
waits is interrupted. -/
def Steady [DecidableEq Tid] (s : State Mid Cid Tid D) (a : Action Mid Cid Tid D) : Prop :=
  (s.edit a ≠ none → s.mutexes.mem.natives > 1) ∧ s.interrupted a = false

instance [DecidableEq Tid] (s : State Mid Cid Tid D) (a : Action Mid Cid Tid D) :
    Decidable (Steady s a) :=
  inferInstanceAs (Decidable (_ ∧ _))

/-- Initialised wait lists, and threads outside all calls. -/
structure Start (s : State Mid Cid Tid D) : Prop where
  wait    : ∀ o, s.wait.next (.mutex o) = .mutex o ∧ s.wait.prev (.mutex o) = .mutex o
  mutexes : ∀ t, s.mutexes.pc t = .idle
  pc      : ∀ t, s.pc t = .idle

/-! ## The invariant -/

/-- The heads of the lists and the elements of the threads. -/
def layout : Layout (Obj Mid Cid) Tid (WaitNode (Obj Mid Cid) Tid) where
  anchor     := .mutex
  element    := .thread
  anchorInj  := fun _ _ h => WaitNode.mutex.inj h
  elementInj := fun _ _ h => WaitNode.thread.inj h
  apart      := nofun

/-- **Each list contains the elements of the threads that wait**, and a thread that waits
for a condition variable does not wait for a mutex. -/
structure Exact (s : State Mid Cid Tid D) : Prop where
  rings : Rings layout s.wait s.blockedOn
  calm  : ∀ t, (s.pc t).acquires = false → (s.mutexes.pc t).calm = true

variable {s s' : State Mid Cid Tid D} {a : Action Mid Cid Tid D} {t u : Tid}

theorem Exact.env (h : Exact s) (hwait : s'.wait = s.wait) (hpc : s'.pc = s.pc)
    (hmutexes : s'.mutexes.pc = s.mutexes.pc) : Exact s' := by
  have hblocked : s'.blockedOn = s.blockedOn := by
    funext t
    simp only [State.blockedOn, hpc, hmutexes]
  exact ⟨hwait ▸ hblocked ▸ h.rings, fun t ht => hmutexes ▸ h.calm t (hpc ▸ ht)⟩

theorem blockedOn_cond {c : Cid} (h : (s.pc t).waitsFor = some c) :
    s.blockedOn t = some (.cond c) := by
  unfold State.blockedOn
  rw [h]

theorem blockedOn_mutex (h : (s.pc t).waitsFor = none) :
    s.blockedOn t = (s.mutexes.pc t).waitsFor := by
  unfold State.blockedOn
  rw [h]

theorem Exact.blockedOn_none (h : Exact s) (hwaits : (s.pc t).waitsFor = none)
    (hacq : (s.pc t).acquires = false) : s.blockedOn t = none := by
  rw [blockedOn_mutex hwaits]
  exact Sync.Pc.waitsFor_of_calm (h.calm t hacq)

theorem Start.exact (h : Start s) : Exact s := by
  refine ⟨Rings.empty h.wait fun t => ?_, fun t _ => h.mutexes t ▸ rfl⟩
  rw [blockedOn_mutex (h.pc t ▸ rfl), h.mutexes t]
  rfl

theorem callMutex_pc [DecidableEq Tid] (s : State Mid Cid Tid D) (t : Tid)
    (q : Sync.Pc (Obj Mid Cid)) (p : Pc Mid Cid) :
    (s.callMutex t q p).pc t = p ∧ (s.callMutex t q p).mutexes.pc t = q ∧
      ∀ u, u ≠ t → (s.callMutex t q p).pc u = s.pc u ∧
        (s.callMutex t q p).mutexes.pc u = s.mutexes.pc u :=
  ⟨update_self .., update_self ..,
    fun _ hu => ⟨update_of_ne hu .., update_of_ne hu ..⟩⟩

theorem blockedOn_of_delete [DecidableEq Tid] (h : s.edit a = some (.delete t)) :
    ∃ o, s.blockedOn t = some o := by
  unfold State.edit at h
  split at h
  case h_1 u occurred =>
    split at h
    case h_1 => cases h
    case h_2 =>
      obtain ⟨rfl, m, hm⟩ := listOp_delete h
      rcases hw : (s.pc t).waitsFor with _ | c
      · exact ⟨m, (blockedOn_mutex hw).trans hm⟩
      · exact ⟨.cond c, blockedOn_cond hw⟩
  case h_2 u =>
    split at h
    case h_2 c _ _ hpc | h_3 c _ hpc =>
      obtain ⟨-, ⟨⟩⟩ := Option.ite_none_right_eq_some.mp h
      exact ⟨.cond c, blockedOn_cond (hpc ▸ rfl)⟩
    case h_1 => split at h <;> cases h
    case h_4 => cases h
  case h_3 => cases h

variable [DecidableEq Mid] [DecidableEq Cid] [DecidableEq Tid]

/-- What a step of `t` does to the lists. -/
inductive Edited (s : State Mid Cid Tid D) (t : Tid) (s' : State Mid Cid Tid D) : Prop
  | keep : s'.wait = s.wait → s'.blockedOn t = s.blockedOn t → Edited s t s'
  | insert (o : Obj Mid Cid) : s'.wait = pthElementInsert s.wait (.thread t) (.mutex o) →
      s.blockedOn t = none → s'.blockedOn t = some o → Edited s t s'
  | delete (o : Obj Mid Cid) : s'.wait = pthElementDelete s.wait (.thread t) →
      s.blockedOn t = some o → s'.blockedOn t = none → Edited s t s'

theorem Exact.edited (h : Exact s)
    (hothers : ∀ u, u ≠ t → s'.pc u = s.pc u ∧ s'.mutexes.pc u = s.mutexes.pc u)
    (hcalm : (s'.pc t).acquires = false → (s'.mutexes.pc t).calm = true)
    (hedit : Edited s t s') : Exact s' := by
  have hblocked : s'.blockedOn = update s.blockedOn t (s'.blockedOn t) := by
    refine eq_update_iff.mpr ⟨rfl, fun u hu => ?_⟩
    simp only [State.blockedOn, hothers u hu]
  refine ⟨?_, fun u hu => ?_⟩
  · rw [hblocked]
    rcases hedit with ⟨hwait, hsame⟩ | ⟨o, hwait, hfree, hnow⟩ | ⟨o, hwait, hwas, hnow⟩
    · rw [hwait, hsame, update_eq_self]
      exact h.rings
    · rw [hwait, hnow]
      exact h.rings.insert hfree o
    · rw [hwait, hnow]
      exact h.rings.delete hwas .null
  · by_cases hut : u = t
    · subst hut
      exact hcalm hu
    · rw [(hothers u hut).1] at hu
      rw [(hothers u hut).2]
      exact h.calm u hu

theorem Exact.goto (h : Exact s) {q : Pc Mid Cid} (hwaits : q.waitsFor = (s.pc t).waitsFor)
    (hcalm : q.acquires = false → (s.mutexes.pc t).calm = true) : Exact (s.goto t q) := by
  have hpc : (s.goto t q).pc t = q := update_self ..
  refine h.edited (fun u hu => ⟨update_of_ne hu .., rfl⟩) (fun hq => hcalm (hpc ▸ hq))
    (.keep rfl ?_)
  simp only [State.blockedOn, hpc, hwaits]
  rfl

theorem Exact.call (h : Exact s) {q : Sync.Pc (Obj Mid Cid)}
    (hout : (s.pc t).outside = true ∧ (s.mutexes.pc t).outside = true)
    (hq : q.waitsFor = none) : Exact (s.callMutex t q .mutex) := by
  obtain ⟨hpc, hmpc, hothers⟩ := callMutex_pc s t q .mutex
  refine h.edited hothers (fun hacq => nomatch hpc ▸ hacq) (.keep rfl ?_)
  rw [blockedOn_mutex (congrArg _ hpc), hmpc, hq, blockedOn_mutex (Pc.waitsFor_of_outside hout.1)]
  exact (Sync.Pc.waitsFor_of_calm (Sync.Pc.calm_of_outside hout.2)).symm

theorem Exact.enter (h : Exact s) {c : Cid} {m : Mid} {bounded : Bool}
    (hpc : s.pc t = .enter c m bounded) (hnatives : s.mutexes.mem.natives > 1) :
    Exact (s.enter t c m bounded) := by
  unfold State.enter
  rw [if_pos hnatives]
  obtain ⟨hpc', hmpc, hothers⟩ := callMutex_pc ((s.setWait _).setCond c (s.cond c).countIn) t
    (.releaseState (.mutex m)) (.release c m bounded)
  exact h.edited hothers (fun _ => congrArg Sync.Pc.calm hmpc) (.insert (.cond c) rfl
    (h.blockedOn_none (hpc ▸ rfl) (hpc ▸ rfl)) (blockedOn_cond (congrArg Pc.waitsFor hpc')))

theorem Exact.leave (h : Exact s) {c : Cid} {m : Mid} {bounded : Bool}
    (hwaits : (s.pc t).waitsFor = some c) (hnatives : s.mutexes.mem.natives > 1) :
    Exact (s.leave t c m bounded) := by
  unfold State.leave
  rw [if_pos hnatives]
  obtain ⟨hpc', hmpc, hothers⟩ := callMutex_pc ((s.setWait _).setCond c (s.cond c).countOut) t
    (.acquire (.mutex m) false false bounded) (.reacquire c m)
  refine h.edited hothers (fun hacq => nomatch hpc' ▸ hacq) (.delete (.cond c) rfl
    (blockedOn_cond hwaits) ?_)
  exact (blockedOn_mutex (congrArg Pc.waitsFor hpc')).trans (congrArg Sync.Pc.waitsFor hmpc)

theorem Exact.go (h : Exact s) (hok : Steady s (.go t)) (hs : s.go t = some s') : Exact s' := by
  have hmany : s.edit (.go t) ≠ none → s.mutexes.mem.natives > 1 := hok.1
  unfold State.edit at hmany
  unfold State.go at hs
  have hcalm := h.calm t
  rcases hpc : s.pc t with _ | _ | ⟨c, m, b⟩ | ⟨c, m, b⟩ | ⟨c, m, b⟩ | ⟨c, m⟩ | ⟨c, m, occurred⟩ |
    ⟨c, m⟩ | ⟨c, m⟩ | rv
  all_goals simp only [hpc] at hs hmany hcalm
  case await =>
    split at hs <;> cases hs <;>
      exact h.goto (hpc ▸ rfl) fun _ => hcalm rfl
  case enter =>
    obtain ⟨hlock, ⟨⟩⟩ := Option.ite_none_right_eq_some.mp hs
    exact h.enter hpc (hmany (by simp [hlock]))
  case release =>
    split at hs <;> cases hs
    exact h.goto (by rw [hpc]; cases b <;> rfl) fun _ => hcalm rfl
  case ready =>
    obtain ⟨hlock, hs⟩ := Option.ite_none_right_eq_some.mp hs
    split at hs <;> cases hs
    case isTrue => exact h.goto (hpc ▸ rfl) fun _ => hcalm rfl
    case isFalse hagain =>
      exact h.leave (hpc ▸ rfl) (hmany (by rw [if_pos ⟨hlock, hagain⟩]; exact nofun))
  case select =>
    obtain ⟨hlock, ⟨⟩⟩ := Option.ite_none_right_eq_some.mp hs
    exact h.leave (hpc ▸ rfl) (hmany (by simp [hlock]))
  case reacquire =>
    split at hs <;> cases hs
    case h_1 rc hret => exact h.goto (hpc ▸ rfl) fun _ => hret ▸ rfl
  all_goals cases hs

variable [DecidableEq D]

theorem Exact.piece (h : Exact s) {occurred : Bool} {ms : Sys (Obj Mid Cid) Tid D}
    (hok : Steady s (.piece t occurred)) (hs : s.mutexes.go t occurred = some ms) :
    Exact { s with mutexes := ms } := by
  have hothers : ∀ u, u ≠ t → s.pc u = s.pc u ∧ ms.pc u = s.mutexes.pc u :=
    fun u hu => ⟨rfl, (piece_of_go hs).pc_of_ne hu⟩
  obtain ⟨hmany, hint⟩ := hok
  have heffect := go_waitEffect hs hint
  by_cases hacq : (s.pc t).acquires = true
  · -- the thread is in no wait of a condition variable, before and after the step
    have hwaits := Pc.waitsFor_of_acquires hacq
    have hbefore : s.blockedOn t = (s.mutexes.pc t).waitsFor := blockedOn_mutex hwaits
    have hafter : State.blockedOn { s with mutexes := ms } t = (ms.pc t).waitsFor :=
      blockedOn_mutex hwaits
    refine h.edited hothers (fun hx => nomatch hacq.symm.trans hx) ?_
    unfold State.edit at hmany
    rcases hop : listOp s.mutexes (.go t occurred) with _ | ⟨u, o⟩ | u | o
    all_goals simp only [hop] at heffect hmany
    case none | some.tail => exact .keep heffect.1 (by rw [hbefore, hafter]; exact heffect.2)
    case some.insert =>
      obtain ⟨rfl, hwait, hfree, hnow⟩ := heffect
      rw [if_pos (hmany nofun)] at hwait
      exact .insert o hwait (hbefore.trans hfree) (hafter.trans hnow)
    case some.delete =>
      obtain ⟨rfl, hwait, ⟨o, hwas⟩, hnow⟩ := heffect
      rw [if_pos (hmany nofun)] at hwait
      exact .delete o hwait (hbefore.trans hwas) (hafter.trans hnow)
  · -- a release, maybe that of `pth_cond_await`
    have hcalm := h.calm t ((Bool.not_eq_true _).mp hacq)
    obtain ⟨hcalm', -, htail⟩ := go_calm hs hcalm
    refine h.edited hothers (fun _ => hcalm') (.keep ?_ ?_)
    · rcases hop : listOp s.mutexes (.go t occurred) with _ | op <;> rw [hop] at heffect
      · exact heffect.1
      · obtain ⟨o, rfl⟩ := htail op hop
        exact heffect.1
    · simp only [State.blockedOn, Sync.Pc.waitsFor_of_calm hcalm, Sync.Pc.waitsFor_of_calm hcalm']

theorem Exact.step (h : Exact s) (hok : Steady s a) (hs : s.step a = some s') : Exact s' := by
  cases a with
  | acquire | release =>
    obtain ⟨hout, ⟨⟩⟩ := Option.ite_none_right_eq_some.mp hs
    exact h.call hout rfl
  | await t c m bounded =>
    obtain ⟨hout, ⟨⟩⟩ := Option.ite_none_right_eq_some.mp hs
    exact h.goto (Pc.waitsFor_of_outside hout.1).symm fun _ => Sync.Pc.calm_of_outside hout.2
  | piece t occurred =>
    obtain ⟨ms, hms, rfl⟩ := Option.map_eq_some_iff.mp hs
    exact h.piece hok hms
  | go t => exact h.go hok hs
  | wake t occurred =>
    unfold State.step at hs
    simp only [] at hs
    split at hs <;> cases hs
    case h_1 c m hpc => exact h.goto (hpc ▸ rfl) fun _ => h.calm t (hpc ▸ rfl)
  | _ =>
    cases hs
    exact h.env rfl rfl rfl

/-! ## The wait lists over runs -/

/-- **The wait lists are exact** as long as the macros find several native threads and no
acquire that waits is interrupted: each object's list has the threads that are blocked in a
call for it, each once. -/
theorem wait_lists_exact (s : State Mid Cid Tid D) (hs : Reachable State.step Steady Start s) :
    (∀ o, ∃ ts : List Tid, IsRing s.wait (.mutex o) (ts.map .thread) ∧ ts.Nodup ∧
      ∀ t, t ∈ ts ↔ s.blockedOn t = some o) ∧
    ∀ a t, s.edit a = some (.delete t) →
      ∃ o, ∃ ts : List Tid, IsRing s.wait (.mutex o) (ts.map .thread) ∧ t ∈ ts := by
  have h : Exact s := hs.invariant (fun _ h => h.exact) fun _ _ _ h hok hstep => h.step hok hstep
  refine ⟨fun o => ?_, fun a t ha => ?_⟩
  · obtain ⟨ts, hring, hts⟩ := h.rings o
    exact ⟨ts, hring, List.Nodup.of_map _ hring.nodup_nodes, hts⟩
  · obtain ⟨o, ho⟩ := blockedOn_of_delete ha
    obtain ⟨ts, hring, hts⟩ := h.rings o
    exact ⟨o, ts, hring, (hts t).mpr ho⟩

/-- Two mutexes and a condition variable in a process with `n` native threads. -/
def twoMutexes (n : Nat) : State Bool Unit Nat Unit where
  mutexes :=
    { mem :=
        { mutex := fun _ => pthMutexInit .timedNp
          thread := fun _ => ⟨none, ⟨none, 0⟩, none, none⟩
          rn := ⟨fun _ => none, fun _ => none⟩
          wait := dynamicWait
          natives := n
          pid := 1
          sigpipe := fun _ => 0
          readied := []
          anatives := 0 }
      pc := fun _ => .idle
      held := fun _ _ => 0 }
  cond := fun _ => Condvar.pthCondInit
  pc := fun _ => .idle

theorem twoMutexes_start (n : Nat) : Start (twoMutexes n) :=
  ⟨fun _ => ⟨rfl, rfl⟩, fun _ => rfl, fun _ => rfl⟩

/-- Thread 1 waits for a mutex and thread 2 for the condition variable, and the number of
native threads drops to 1 meanwhile. The mutex becomes free, and thread 1 is about to take
its element out. -/
theorem wait_lists_exact_blocked :
    ∃ s : State Bool Unit Nat Unit, Reachable State.step Steady Start s ∧
      s.blockedOn 1 = some (.mutex false) ∧ s.blockedOn 2 = some (.cond ()) ∧
      (∃ ts : List Nat, IsRing s.wait (.mutex (.cond ())) (ts.map .thread) ∧ 2 ∈ ts) ∧
      s.edit (.piece 1 true) = some (.delete 1) ∧
      ∃ o, ∃ ts : List Nat, IsRing s.wait (.mutex o) (ts.map .thread) ∧ 1 ∈ ts := by
  obtain ⟨s, hs, h1, h2, hedit⟩ : ∃ s, runOk State.step Steady (twoMutexes 2)
      [.acquire 0 false false false false, .piece 0 true,
        .acquire 1 false false true false, .piece 1 true,
        .acquire 2 true false false false, .piece 2 true, .await 2 () true false, .go 2, .go 2,
        .natives 1, .piece 2 true, .piece 2 true, .piece 2 true, .go 2,
        .release 0 false, .piece 0 true, .piece 0 true, .piece 0 true, .natives 2] = some s ∧
      s.blockedOn 1 = some (.mutex false) ∧ s.blockedOn 2 = some (.cond ()) ∧
      s.edit (.piece 1 true) = some (.delete 1) :=
    ⟨_, rfl, rfl, rfl, by decide +kernel⟩
  have hreach : Reachable State.step Steady Start s :=
    reachable_of_runOk (.init (twoMutexes_start 2)) hs
  obtain ⟨hlists, hdelete⟩ := wait_lists_exact s hreach
  obtain ⟨ts, hring, -, hts⟩ := hlists (.cond ())
  exact ⟨s, hreach, h1, h2, ⟨ts, hring, (hts 2).mpr h2⟩, hedit, hdelete _ 1 hedit⟩

/-- An acquire with an extra event that is interrupted leaves its element in the list.
And an element that has not been put into a list, because there was one native thread, is
taken out of it when there are two. -/
theorem interrupted_acquire_stays_linked :
    (∃ s : State Bool Unit Nat Unit, Reachable State.step Always Start s ∧
      s.mutexes.mem.natives = 2 ∧ s.mutexes.pc 1 = .returned .eintr ∧ s.blockedOn 1 = none ∧
      IsRing s.wait (.mutex (.mutex false)) [.thread 1]) ∧
    ∃ s : State Bool Unit Nat Unit, Reachable State.step Always Start s ∧
      s.mutexes.mem.natives = 2 ∧ s.edit (.piece 1 true) = some (.delete 1) ∧
      ∀ o, IsRing s.wait (.mutex o) [] := by
  have hempty : ∀ o : Obj Bool Unit, IsRing (dynamicWait : Links (WaitNode (Obj Bool Unit) Nat))
    (.mutex o) [] :=
    fun _ => IsRing.empty_iff.mpr ⟨rfl, rfl⟩
  refine ⟨?_, ?_⟩
  · obtain ⟨s, hs, hnatives, hpc, hblocked, hwait⟩ : ∃ s, run State.step (twoMutexes 2)
        [.acquire 0 false false false false, .piece 0 true,
          .acquire 1 false false true false, .piece 1 true, .piece 1 false] = some s ∧
        s.mutexes.mem.natives = 2 ∧ s.mutexes.pc 1 = .returned .eintr ∧ s.blockedOn 1 = none ∧
        s.wait = pthElementInsert dynamicWait (.thread 1) (.mutex (.mutex false)) :=
      ⟨_, rfl, rfl, rfl, rfl, rfl⟩
    refine ⟨s, reachable_of_run (.init (twoMutexes_start 2)) hs, hnatives, hpc, hblocked, ?_⟩
    rw [hwait]
    exact (hempty (.mutex false)).insertHead (by decide)
  · obtain ⟨s, hs, hnatives, hedit, hwait⟩ : ∃ s, run State.step (twoMutexes 1)
        [.acquire 0 false false false false, .piece 0 true,
          .acquire 1 false false false false, .piece 1 true,
          .release 0 false, .piece 0 true, .piece 0 true, .piece 0 true, .natives 2] = some s ∧
        s.mutexes.mem.natives = 2 ∧ s.edit (.piece 1 true) = some (.delete 1) ∧
        s.wait = dynamicWait :=
      ⟨_, rfl, rfl, by decide +kernel, rfl⟩
    refine ⟨s, reachable_of_run (.init (twoMutexes_start 1)) hs, hnatives, hedit, fun o => ?_⟩
    rw [hwait]
    exact hempty o

end Ngpt.Sync.WaitLists
