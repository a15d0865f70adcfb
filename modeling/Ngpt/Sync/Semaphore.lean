import Ngpt.Errno
import Ngpt.Lib.Transition
import Mathlib.Algebra.Group.Int.Defs
import Mathlib.Algebra.Group.Nat.Defs

/-!
# ngpt — POSIX semaphores (`semaphore.c`)

A semaphore is an `int` with a mutex and a condition variable. Threads run
`sem_wait`, `sem_trywait` and `sem_post` statement by statement, in any
interleaving. What the model takes from the pthread layer is what POSIX says of
it: the mutex has one owner, `pthread_cond_wait` releases it and acquires it
again before it returns, and a signal wakes at least one of the waiters.

`sem_wait` tests the value once, before the condition wait, and not again after
it. A thread that takes the token between the signal and the waiter's return
leaves the waiter to decrement a zero value (`sem_wait_decrements_zero`). The
accounting is right in every run in which no waiter comes back to a zero value
and no post meets `SEM_VALUE_MAX`.

Result: `sem_accounting`.
-/

namespace Ngpt.Sync.Semaphore

open Transition

/-- `SEM_VALUE_MAX`. -/
def semValueMax : Int := 2 ^ 31 - 1

/-- The value of an `int` after an addition or a subtraction. -/
def wrapInt (x : Int) : Int := (x + 2 ^ 31) % 2 ^ 32 - 2 ^ 31

variable {x : Int}

theorem wrapInt_of_small (hlo : -(2 ^ 31) ≤ x) (hhi : x < 2 ^ 31) : wrapInt x = x := by
  unfold wrapInt
  omega

/-- Where a thread is: before the named call or statement. -/
inductive Pc where
  | idle
  /-- `__new_sem_wait`: at the lock, the test, inside `pthread_cond_wait` asleep and
  woken, at the decrement, at the unlock -/
  | waitLock
  | waitTest
  | asleep
  | woken
  | waitDec
  | waitUnlock
  /-- `__new_sem_trywait` -/
  | tryLock
  | tryTest
  | tryFail
  | tryDec
  | tryUnlock
  /-- `__new_sem_post` -/
  | postLock
  | postInc
  | postTest
  | postUnlock
  deriving DecidableEq, Repr

/-- The return value and `errno` of a call. -/
structure Ret where
  retval : Int
  errno  : Option Errno
  deriving DecidableEq, Repr

/-- A semaphore, the threads that use it, and two counters that are not in the
code: the posts and the successful waits completed so far. -/
structure Sem (Tid : Type) where
  value   : Int
  lock    : Option Tid
  waiters : List Tid
  pc      : Tid → Pc
  ret     : Tid → Option Ret
  posts   : Nat
  waits   : Nat

variable {Tid : Type} {v : Nat} {s s' : Sem Tid} {t u : Tid}

/-- `__new_sem_init`: an `unsigned` above `SEM_VALUE_MAX` is refused. -/
def newSemInit (value : Nat) : Except Errno (Sem Tid) :=
  if (value : Int) > semValueMax then .error .einval
  else .ok
    { value := value, lock := none, waiters := [], pc := fun _ => .idle, ret := fun _ => none
      posts := 0, waits := 0 }

namespace Sem

variable [DecidableEq Tid]

def goto (s : Sem Tid) (t : Tid) (pc : Pc) : Sem Tid :=
  { s with pc := Function.update s.pc t pc }

def returns (s : Sem Tid) (t : Tid) (r : Ret) : Sem Tid :=
  { s.goto t .idle with ret := Function.update s.ret t (some r) }

end Sem

/-- The three calls. -/
inductive Call where
  | wait
  | trywait
  | post
  deriving DecidableEq, Repr

def Call.entry : Call → Pc
  | .wait => .waitLock
  | .trywait => .tryLock
  | .post => .postLock

/-- What can happen next: a thread makes a call, runs its next statement, or
signals the condition and wakes the threads `ws`. -/
inductive Action (Tid : Type) where
  | call (t : Tid) (c : Call)
  | go (t : Tid)
  | signal (t : Tid) (ws : List Tid)

/-- The next statement of a thread; `none` while it is blocked. -/
def go [DecidableEq Tid] (s : Sem Tid) (t : Tid) : Option (Sem Tid) :=
  match s.pc t with
  | .idle => none
  | .waitLock =>
    if s.lock = none then some { s.goto t .waitTest with lock := some t } else none
  | .waitTest =>
    -- `pthread_cond_wait` queues the thread and releases the mutex in one step
    if s.value = 0 then
      some { s.goto t .asleep with lock := none, waiters := s.waiters ++ [t] }
    else some (s.goto t .waitDec)
  | .asleep => none
  | .woken =>
    if s.lock = none then some { s.goto t .waitDec with lock := some t } else none
  | .waitDec => some { s.goto t .waitUnlock with value := wrapInt (s.value - 1) }
  | .waitUnlock => some { s.returns t ⟨0, none⟩ with lock := none, waits := s.waits + 1 }
  | .tryLock =>
    -- the error number of `pthread_mutex_trylock` (EBUSY, 16) is what is returned
    if s.lock = none then some { s.goto t .tryTest with lock := some t }
    else some (s.returns t ⟨16, some .eagain⟩)
  | .tryTest => if s.value = 0 then some (s.goto t .tryFail) else some (s.goto t .tryDec)
  | .tryFail => some { s.returns t ⟨-1, some .eagain⟩ with lock := none }
  | .tryDec => some { s.goto t .tryUnlock with value := wrapInt (s.value - 1) }
  | .tryUnlock => some { s.returns t ⟨0, none⟩ with lock := none, waits := s.waits + 1 }
  | .postLock =>
    if s.lock = none then some { s.goto t .postInc with lock := some t } else none
  | .postInc => some { s.goto t .postTest with value := wrapInt (s.value + 1) }
  | .postTest => if s.value ≠ 0 then none else some (s.goto t .postUnlock)
  | .postUnlock => some { s.returns t ⟨0, none⟩ with lock := none, posts := s.posts + 1 }

def step [DecidableEq Tid] (s : Sem Tid) : Action Tid → Option (Sem Tid)
  | .call t c => if s.pc t = .idle then some (s.goto t c.entry) else none
  | .go t => go s t
  | .signal t ws =>
    if s.pc t = .postTest ∧ s.value ≠ 0 ∧ (∀ u ∈ ws, u ∈ s.waiters) ∧
        (ws = [] → s.waiters = []) then
      some { s with
        waiters := s.waiters.filter (· ∉ ws)
        pc := fun u => if u = t then .postUnlock else if u ∈ ws then .woken else s.pc u }
    else none

/-! ## The property -/

/-- The accounting of a semaphore created with value `v`. -/
structure Accounted (v : Nat) (s : Sem Tid) : Prop where
  nonneg  : s.lock = none → 0 ≤ s.value
  account : s.lock = none → s.value = v + s.posts - s.waits
  nonzero : ∀ t, s.pc t = .waitDec ∨ s.pc t = .tryDec → s.value ≠ 0

/-- The condition on a step: a waiter that comes back from `pthread_cond_wait`
finds a value other than 0, and a post finds room below `SEM_VALUE_MAX`. -/
def StepOk (s : Sem Tid) : Action Tid → Prop
  | .go t => (s.pc t = .woken → s.value ≠ 0) ∧ (s.pc t = .postInc → s.value < semValueMax)
  | _ => True

instance (s : Sem Tid) (a : Action Tid) : Decidable (StepOk s a) := by
  rcases a <;> dsimp only [StepOk] <;> infer_instance

/-! ## The invariant -/

/-- The places inside a critical section. -/
def Pc.holds : Pc → Bool
  | .waitTest | .waitDec | .waitUnlock | .tryTest | .tryFail | .tryDec | .tryUnlock
  | .postInc | .postTest | .postUnlock => true
  | _ => false

/-- What the owner of the lock has added to the value and not yet completed. -/
def Pc.delta : Pc → Int
  | .waitUnlock | .tryUnlock => -1
  | .postTest | .postUnlock => 1
  | _ => 0

/-- What the owner of the lock has added to the value. -/
def pending (s : Sem Tid) : Int :=
  match s.lock with
  | none => 0
  | some t => (s.pc t).delta

structure Inv (v : Nat) (s : Sem Tid) : Prop where
  owner   : ∀ t, (s.pc t).holds = true ↔ s.lock = some t
  queued  : ∀ t ∈ s.waiters, s.pc t = .asleep
  range   : 0 ≤ s.value ∧ s.value ≤ semValueMax
  account : s.value = v + s.posts - s.waits + pending s
  nonzero : ∀ t, s.pc t = .waitDec ∨ s.pc t = .tryDec → s.value ≠ 0

theorem wrapInt_eq (hlo : -(2 ^ 31) ≤ x) (hhi : x ≤ semValueMax) : wrapInt x = x :=
  wrapInt_of_small hlo (Int.lt_of_le_sub_one hhi)

theorem Inv.accounted (hI : Inv v s) : Accounted v s := by
  refine ⟨fun _ => hI.range.1, fun hlock => ?_, hI.nonzero⟩
  have hacc := hI.account
  simp only [pending, hlock] at hacc
  omega

theorem Inv.setRet (hI : Inv v s) (r : Tid → Option Ret) : Inv v { s with ret := r } :=
  ⟨hI.owner, hI.queued, hI.range, hI.account, hI.nonzero⟩

theorem Inv.notMem_waiters (hI : Inv v s) (ht : s.pc t ≠ .asleep) : t ∉ s.waiters :=
  fun hm => ht (hI.queued t hm)

theorem Inv.nonzero_other (hI : Inv v s) (hlock : s.lock = none ∨ s.lock = some t) (hu : u ≠ t) :
    ¬ (s.pc u = .waitDec ∨ s.pc u = .tryDec) := by
  intro hdec
  have hh : (s.pc u).holds = true := by
    rcases hdec with h | h <;> rw [h] <;> rfl
  have hl := (hI.owner u).mp hh
  rcases hlock with hn | hn <;> rw [hn] at hl
  · cases hl
  · exact hu (Option.some.inj hl).symm

theorem wrapInt_dec (hI : Inv v s) (hz : s.value ≠ 0) :
    wrapInt (s.value - 1) = s.value - 1 ∧ 0 ≤ s.value - 1 ∧ s.value - 1 ≤ semValueMax := by
  have hr := hI.range
  refine ⟨wrapInt_eq ?_ ?_, ?_, ?_⟩ <;> omega

theorem newSemInit_inv (hs : newSemInit v = .ok s) : Inv v s := by
  unfold newSemInit at hs
  split at hs
  · cases hs
  next hv =>
    cases hs
    refine ⟨by simp [Pc.holds], by simp, ⟨?_, ?_⟩, by simp [pending], by simp⟩
    · exact Int.natCast_nonneg v
    · exact Int.not_lt.mp hv

variable [DecidableEq Tid]

@[simp] theorem goto_lock (s : Sem Tid) (t : Tid) (p : Pc) : (s.goto t p).lock = s.lock := rfl

theorem goto_pc_self (s : Sem Tid) (t : Tid) (p : Pc) : (s.goto t p).pc t = p := by
  simp [Sem.goto]

theorem goto_pc_ne (s : Sem Tid) (p : Pc) (hu : u ≠ t) : (s.goto t p).pc u = s.pc u := by
  simp [Sem.goto, hu]

/-! ## The four kinds of statement -/

variable {p : Pc}

theorem Inv.outside (hI : Inv v s) (hout : (s.pc t).holds = false)
    (hw : s.pc t ≠ .asleep) (hp : p.holds = false) : Inv v (s.goto t p) := by
  have hpend : pending (s.goto t p) = pending s := by
    unfold pending
    rcases hl : s.lock with _ | o
    · simp [Sem.goto, hl]
    · have hne : o ≠ t := by
        rintro rfl
        rw [(hI.owner o).mpr hl] at hout
        cases hout
      simp only [show (s.goto t p).lock = some o from hl, goto_pc_ne s p hne]
  refine ⟨fun u => ?_, fun u hu => ?_, hI.range, ?_, fun u hu => ?_⟩
  · by_cases he : u = t
    · subst he
      rw [goto_pc_self, hp, show (s.goto u p).lock = s.lock from rfl, ← hI.owner u, hout]
    · rw [goto_pc_ne s p he]
      exact hI.owner u
  · have hne : u ≠ t := by
      rintro rfl
      exact hI.notMem_waiters hw hu
    rw [goto_pc_ne s p hne]
    exact hI.queued u hu
  · rw [hpend]
    exact hI.account
  · by_cases he : u = t
    · subst he
      rw [goto_pc_self] at hu
      rcases hu with rfl | rfl <;> cases hp
    · rw [goto_pc_ne s p he] at hu
      exact hI.nonzero u hu

theorem Inv.acquire (hI : Inv v s) (hlock : s.lock = none) (hw : s.pc t ≠ .asleep)
    (hp : p.holds = true) (hd : p.delta = 0)
    (hz : p = .waitDec ∨ p = .tryDec → s.value ≠ 0) :
    Inv v { s.goto t p with lock := some t } := by
  refine ⟨fun u => ?_, fun u hu => ?_, hI.range, ?_, fun u hu => ?_⟩
  · by_cases he : u = t
    · subst he
      simp [goto_pc_self, hp]
    · have hno : (s.pc u).holds = false := by
        rw [Bool.eq_false_iff]
        intro hh
        rw [(hI.owner u).mp hh] at hlock
        cases hlock
      simp [goto_pc_ne s p he, hno, Ne.symm he]
  · have hne : u ≠ t := by
      rintro rfl
      exact hI.notMem_waiters hw hu
    simpa [goto_pc_ne s p hne] using hI.queued u hu
  · have hacc := hI.account
    simp only [pending, hlock] at hacc
    simp only [pending, goto_pc_self, hd]
    exact hacc
  · by_cases he : u = t
    · subst he
      simp only [goto_pc_self] at hu
      exact hz hu
    · simp only [goto_pc_ne s p he] at hu
      exact absurd hu (hI.nonzero_other (Or.inl hlock) he)

theorem Inv.inside (hI : Inv v s) (ht : (s.pc t).holds = true)
    (hp : p.holds = true) (hx : x = s.value + p.delta - (s.pc t).delta)
    (hr : 0 ≤ x ∧ x ≤ semValueMax) (hz : p = .waitDec ∨ p = .tryDec → x ≠ 0) :
    Inv v { s.goto t p with value := x } := by
  have hlock := (hI.owner t).mp ht
  refine ⟨fun u => ?_, fun u hu => ?_, hr, ?_, fun u hu => ?_⟩
  · by_cases he : u = t
    · subst he
      simp [goto_pc_self, hp, hlock]
    · simpa [goto_pc_ne s p he] using hI.owner u
  · have hne : u ≠ t := by
      rintro rfl
      rw [hI.queued u hu] at ht
      cases ht
    simpa [goto_pc_ne s p hne] using hI.queued u hu
  · have hacc := hI.account
    simp only [pending, hlock] at hacc
    simp only [pending, show (s.goto t p).lock = some t from hlock, goto_pc_self]
    simp only [Sem.goto]
    omega
  · by_cases he : u = t
    · subst he
      simp only [goto_pc_self] at hu
      exact hz hu
    · simp only [goto_pc_ne s p he] at hu
      exact absurd hu (hI.nonzero_other (Or.inr hlock) he)

theorem Inv.release {posts waits : Nat} {ws : List Tid} (hI : Inv v s)
    (ht : (s.pc t).holds = true) (hp : p.holds = false)
    (hc : (posts : Int) - waits = s.posts - s.waits + (s.pc t).delta)
    (hws : ∀ u ∈ ws, u ∈ s.waiters ∨ (u = t ∧ p = .asleep)) :
    Inv v { s.goto t p with lock := none, posts := posts, waits := waits, waiters := ws } := by
  have hlock := (hI.owner t).mp ht
  refine ⟨fun u => ?_, fun u hu => ?_, hI.range, ?_, fun u hu => ?_⟩
  · by_cases he : u = t
    · subst he
      simp [goto_pc_self, hp]
    · have hno : (s.pc u).holds = false := by
        rw [Bool.eq_false_iff]
        intro hh
        rw [(hI.owner u).mp hh] at hlock
        exact he (Option.some.inj hlock)
      simp [goto_pc_ne s p he, hno]
  · by_cases he : u = t
    · subst he
      rcases hws u hu with hm | ⟨-, rfl⟩
      · rw [hI.queued u hm] at ht
        cases ht
      · exact goto_pc_self s u _
    · rcases hws u hu with hm | ⟨heq, -⟩
      · simpa [goto_pc_ne s p he] using hI.queued u hm
      · exact absurd heq he
  · have hacc := hI.account
    simp only [pending, hlock] at hacc
    simp only [pending, Sem.goto]
    omega
  · by_cases he : u = t
    · subst he
      simp only [goto_pc_self] at hu
      rcases hu with rfl | rfl <;> cases hp
    · simp only [goto_pc_ne s p he] at hu
      exact absurd hu (hI.nonzero_other (Or.inr hlock) he)

theorem Inv.unlock (posts waits : Nat) (r : Ret) (hI : Inv v s) (ht : (s.pc t).holds = true)
    (hc : (posts : Int) - waits = s.posts - s.waits + (s.pc t).delta) :
    Inv v { s.returns t r with lock := none, posts := posts, waits := waits } :=
  (hI.release ht rfl hc fun _ hu => Or.inl hu).setRet _

/-! ## Steps and runs -/

section

variable (hI : Inv v s)
include hI

theorem Inv.test (ht : (s.pc t).holds = true) (hp : p.holds = true)
    (hd : p.delta = (s.pc t).delta) (hz : p = .waitDec ∨ p = .tryDec → s.value ≠ 0) :
    Inv v (s.goto t p) :=
  hI.inside ht hp (by omega) hI.range hz

theorem Inv.decr (hpc : s.pc t = .waitDec ∨ s.pc t = .tryDec)
    (hp : p = .waitUnlock ∨ p = .tryUnlock) :
    Inv v { s.goto t p with value := wrapInt (s.value - 1) } := by
  obtain ⟨hw, hr⟩ := wrapInt_dec hI (hI.nonzero t hpc)
  have ht : (s.pc t).holds = true ∧ (s.pc t).delta = 0 := by
    rcases hpc with h | h <;> rw [h] <;> exact ⟨rfl, rfl⟩
  have hd : p.holds = true ∧ p.delta = -1 := by
    rcases hp with rfl | rfl <;> exact ⟨rfl, rfl⟩
  rw [hw]
  refine hI.inside ht.1 hd.1 (by omega) hr ?_
  rcases hp with rfl | rfl <;> simp

theorem Inv.incr (hpc : s.pc t = .postInc) (hroom : s.value < semValueMax) :
    Inv v { s.goto t .postTest with value := wrapInt (s.value + 1) } := by
  have hr := hI.range
  have hw : wrapInt (s.value + 1) = s.value + 1 := by
    refine wrapInt_eq ?_ ?_ <;> omega
  rw [hw]
  refine hI.inside (by rw [hpc]; rfl) rfl ?_ ⟨by omega, by omega⟩ (by simp)
  rw [hpc]
  simp [Pc.delta]

theorem Inv.waited (hpc : s.pc t = .waitUnlock ∨ s.pc t = .tryUnlock) :
    Inv v { s.returns t ⟨0, none⟩ with lock := none, waits := s.waits + 1 } := by
  have ht : (s.pc t).holds = true ∧ (s.pc t).delta = -1 := by
    rcases hpc with h | h <;> rw [h] <;> exact ⟨rfl, rfl⟩
  refine hI.unlock s.posts (s.waits + 1) ⟨0, none⟩ ht.1 ?_
  rw [ht.2]
  push_cast
  omega

theorem go_inv (hok : StepOk s (.go t)) (hs : go s t = some s') : Inv v s' := by
  unfold go at hs
  split at hs <;> try simp only [Option.ite_none_right_eq_some, Option.some.injEq] at hs
  case h_1 | h_4 => cases hs
  case h_2 hpc | h_13 hpc =>
    obtain ⟨hlock, rfl⟩ := hs
    exact hI.acquire hlock (by simp [hpc]) rfl rfl (by simp)
  case h_3 hpc =>
    split at hs <;> cases hs
    case isTrue =>
      refine hI.release (by rw [hpc]; rfl) rfl ?_ (by simp)
      rw [hpc]
      simp [Sem.goto, Pc.delta]
    case isFalse hz => exact hI.test (by rw [hpc]; rfl) rfl (by rw [hpc]; rfl) fun _ => hz
  case h_5 hpc =>
    -- back from the condition wait: the value is not tested again
    obtain ⟨hlock, rfl⟩ := hs
    exact hI.acquire hlock (by simp [hpc]) rfl rfl (fun _ => hok.1 hpc)
  case h_6 hpc =>
    cases hs
    exact hI.decr (Or.inl hpc) (Or.inl rfl)
  case h_7 hpc =>
    cases hs
    exact hI.waited (Or.inl hpc)
  case h_8 hpc =>
    split at hs <;> cases hs
    case isTrue hlock => exact hI.acquire hlock (by simp [hpc]) rfl rfl (by simp)
    case isFalse =>
      exact (hI.outside (by rw [hpc]; rfl) (by simp [hpc]) rfl).setRet _
  case h_9 hpc =>
    split at hs <;> cases hs
    case isTrue => exact hI.test (by rw [hpc]; rfl) rfl (by rw [hpc]; rfl) (by simp)
    case isFalse hz => exact hI.test (by rw [hpc]; rfl) rfl (by rw [hpc]; rfl) fun _ => hz
  case h_10 hpc =>
    cases hs
    refine hI.unlock s.posts s.waits ⟨-1, some .eagain⟩ (by rw [hpc]; rfl) ?_
    rw [hpc]
    simp [Pc.delta]
  case h_11 hpc =>
    cases hs
    exact hI.decr (Or.inr hpc) (Or.inr rfl)
  case h_12 hpc =>
    cases hs
    exact hI.waited (Or.inr hpc)
  case h_14 hpc =>
    cases hs
    exact hI.incr hpc (hok.2 hpc)
  case h_15 hpc =>
    split at hs <;> cases hs
    exact hI.test (by rw [hpc]; rfl) rfl (by rw [hpc]; rfl) (by simp)
  case h_16 hpc =>
    cases hs
    refine hI.unlock (s.posts + 1) s.waits ⟨0, none⟩ (by rw [hpc]; rfl) ?_
    rw [hpc]
    simp only [Pc.delta]
    push_cast
    omega

theorem Inv.wake {ws : List Tid} (hws : ∀ u ∈ ws, u ∈ s.waiters) :
    Inv v { s with
      waiters := s.waiters.filter (· ∉ ws)
      pc := fun u => if u ∈ ws then .woken else s.pc u } := by
  have hasleep : ∀ u ∈ ws, s.pc u = .asleep := fun u hu => hI.queued u (hws u hu)
  refine ⟨fun u => ?_, fun u hu => ?_, hI.range, ?_, fun u hu => ?_⟩
  · by_cases hu : u ∈ ws
    · have hown := hI.owner u
      rw [hasleep u hu] at hown
      simp only [hu, if_true]
      exact hown
    · simp only [hu, if_false]
      exact hI.owner u
  · simp only [List.mem_filter, decide_eq_true_eq] at hu
    simp only [hu.2, if_false]
    exact hI.queued u hu.1
  · have hacc := hI.account
    unfold pending at hacc ⊢
    rcases hl : s.lock with _ | o
    · simp only [hl] at hacc ⊢
      exact hacc
    · have ho : o ∉ ws := by
        intro ho
        have := (hI.owner o).mpr hl
        rw [hasleep o ho] at this
        cases this
      simp only [hl, ho, if_false] at hacc ⊢
      exact hacc
  · by_cases hw : u ∈ ws
    · simp [hw] at hu
    · simp only [hw, if_false] at hu
      exact hI.nonzero u hu

/-- The invariant over one step. -/
theorem step_inv {a : Action Tid} (hok : StepOk s a) (hs : step s a = some s') :
    Inv v s' := by
  cases a with
  | call t c =>
    obtain ⟨hpc, ⟨⟩⟩ := Option.ite_none_right_eq_some.mp hs
    refine hI.outside (by rw [hpc]; rfl) (by simp [hpc]) ?_
    cases c <;> rfl
  | go t => exact go_inv hI hok hs
  | signal t ws =>
    obtain ⟨hg, hs⟩ := Option.ite_none_right_eq_some.mp hs
    obtain ⟨hpc, -, hws, -⟩ := hg
    cases hs
    have ht : t ∉ ws := by
      intro ht
      rw [hI.queued t (hws t ht)] at hpc
      cases hpc
    -- waking the threads, then the signaller's own step
    have hI₁ := hI.wake hws
    have hI₂ := hI₁.inside (t := t) (p := .postUnlock)
      (by simp [ht, hpc, Pc.holds]) rfl (by simp [ht, hpc, Pc.delta]) hI.range (by simp)
    have heq : (fun u => if u = t then Pc.postUnlock else if u ∈ ws then Pc.woken else s.pc u) =
        Function.update (fun u => if u ∈ ws then Pc.woken else s.pc u) t .postUnlock := by
      funext u
      by_cases hu : u = t
      · simp [hu]
      · simp [hu]
    rw [heq]
    exact hI₂

end

/-- **Semaphore accounting.** In every run in which no waiter comes back to a zero value and no
post meets `SEM_VALUE_MAX`, the value of a free semaphore is the initial value plus the posts
minus the waits, and is not negative. -/
theorem sem_accounting (v : Nat) (s : Sem Tid)
    (hs : Reachable step StepOk (fun s => newSemInit v = .ok s) s) : Accounted v s := by
  have hI : Inv v s :=
    hs.invariant (fun s hs => newSemInit_inv hs) fun s a s' hI hok hstep => step_inv hI hok hstep
  exact hI.accounted

/-- Thread 0 waits at value 0, thread 1 posts and wakes it, and it returns. -/
def handover : List (Action Nat) :=
  [.call 0 .wait, .go 0, .go 0, .call 1 .post, .go 1, .go 1, .signal 1 [0], .go 1,
    .go 0, .go 0, .go 0]

theorem sem_accounting_handover :
    ∃ s₀ s : Sem Nat, newSemInit 0 = .ok s₀ ∧ runOk step StepOk s₀ handover = some s ∧
      s.waits = 1 ∧ Accounted 0 s := by
  obtain ⟨s₀, hs₀⟩ : ∃ s₀ : Sem Nat, newSemInit 0 = .ok s₀ := ⟨_, rfl⟩
  obtain ⟨s, hs, hw⟩ : ∃ s, runOk step StepOk s₀ handover = some s ∧ s.waits = 1 := by
    cases hs₀
    exact exists_of_any (by decide)
  exact ⟨s₀, s, hs₀, hs, hw, sem_accounting 0 s (reachable_of_runOk (.init hs₀) hs)⟩

/-- Thread 0 waits at value 0 and is woken by the post of thread 1; before it
returns, thread 2 takes the token. -/
def barging : List (Action Nat) :=
  [.call 0 .wait, .go 0, .go 0, .call 1 .post, .go 1, .go 1, .signal 1 [0], .go 1,
    .call 2 .wait, .go 2, .go 2, .go 2, .go 2, .go 0, .go 0, .go 0]

/-- The woken thread decrements a zero value: the semaphore is free at -1. -/
theorem sem_wait_decrements_zero :
    ∃ s₀ s : Sem Nat, newSemInit 0 = .ok s₀ ∧ run step s₀ barging = some s ∧
      s.lock = none ∧ s.value = -1 ∧ ¬ Accounted 0 s := by
  obtain ⟨s₀, hs₀⟩ : ∃ s₀ : Sem Nat, newSemInit 0 = .ok s₀ := ⟨_, rfl⟩
  obtain ⟨s, hs, hlock, hvalue⟩ : ∃ s, run step s₀ barging = some s ∧ s.lock = none ∧
      s.value = -1 := by
    cases hs₀
    exact exists_of_any (by decide)
  refine ⟨s₀, s, hs₀, hs, hlock, hvalue, fun hA => ?_⟩
  have := hA.nonneg hlock
  omega

end Ngpt.Sync.Semaphore
