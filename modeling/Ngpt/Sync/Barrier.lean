import Ngpt.Sync.CondClient

/-!
# ngpt — barriers (`pth_sync.c`)

`pth_barrier_reach` over the mutexes and the condition variable of `Ngpt.Sync.Condvar`:
a count of the threads that are still to come, a flag that flips with every cycle, a
mutex and a condition.

The function tests `!pth_mutex_acquire(...)` for an error, but that function returns 0
for success. `acquired` gives the value for each result, so that both readings can be
run: the one of the code (`Errno.code`) and the one of the manual (`documented`).

The `Books` are not in the code. They number the cycles and say of each call in which
cycle it was counted, and of a call that is over what it returned and whether its thread
had the mutex then.
-/

namespace Ngpt.Sync.Barrier

open Transition

/-- `PTH_BARRIER_HEADLIGHT`, `PTH_BARRIER_TAILLIGHT`, `TRUE` and `FALSE`. -/
def headlight : Int := -1
def taillight : Int := -2
def cTrue : Int := 1
def cFalse : Int := 0

/-- What the manual says of `pth_mutex_acquire`: `TRUE`, or `FALSE` on an error. -/
def documented : Errno → Int
  | .ok => cTrue
  | _ => cFalse

/-- Where a thread is: in the named call, or before the test of the loop. -/
inductive Pc where
  | idle
  | acquire (bounded : Bool)
  | notify
  | loop (bounded cycle : Bool) (rv : Int)
  | await (bounded cycle : Bool)
  | release (rv : Int)
  | returned (rv : Int)
  deriving DecidableEq, Repr

def Pc.outside : Pc → Bool
  | .idle | .returned _ => true
  | _ => false

/-- A call that is over. -/
structure Return (Tid : Type) where
  thread : Tid
  cycle  : Option Nat
  rv     : Int
  holds  : Bool
  deriving DecidableEq, Repr

/-- The number of complete cycles, the cycle that the call of a thread has been counted in,
all threads that have been counted, the last one first, and the calls that are over. -/
structure Books (Tid : Type) where
  cycles   : Nat
  cycleOf  : Tid → Option Nat
  arrivals : List (Tid × Nat)
  returns  : List (Return Tid)

/-- `pth_barrier_t`, less the mutex and the condition variable. -/
structure PthBarrier where
  initialized : Bool
  threshold   : Int
  count       : Int
  cycle       : Bool
  deriving DecidableEq, Repr

/-- `pth_barrier_init`; the two calls it makes return `TRUE`. -/
def pthBarrierInit (threshold : Int) : Option PthBarrier :=
  if threshold ≤ 0 then none
  else some { initialized := true, threshold := threshold, count := threshold, cycle := false }

structure State (Tid D : Type) where
  sync    : Condvar.State Unit Tid D
  barrier : PthBarrier
  pc      : Tid → Pc
  books   : Books Tid

inductive Action (Tid D : Type) where
  | reach (t : Tid) (bounded : Bool)
  /-- a step of the mutexes, the condition variable or the rest of the library -/
  | sync (a : Condvar.Action Unit Tid D)
  /-- the next piece of `t` -/
  | cont (t : Tid)
  deriving DecidableEq, Repr

variable {Tid D : Type}

/-- A barrier as `pth_barrier_init` leaves it, and idle threads. -/
structure Initial (n : Nat) (s : State Tid D) : Prop where
  sync    : Condvar.Initial s.sync
  mutex   : s.sync.mutexes.mem.mutex (.mutex ()) = pthMutexInit .timedNp
  barrier : pthBarrierInit n = some s.barrier
  pc      : ∀ t, s.pc t = .idle
  books   : s.books = ⟨0, fun _ => none, [], []⟩

/-- One native, and a barrier for `n` threads. -/
def initState (n : Nat) : State Tid D :=
  { sync := Condvar.initState .timedNp
    barrier := { initialized := true, threshold := n, count := n, cycle := false }
    pc := fun _ => .idle, books := ⟨0, fun _ => none, [], []⟩ }

theorem initState_initial {n : Nat} (hn : 1 ≤ n) : Initial n (initState n : State Tid D) := by
  refine ⟨Condvar.initState_initial _, rfl, ?_, fun _ => rfl, rfl⟩
  unfold pthBarrierInit
  rw [if_neg (by omega)]
  rfl

variable [DecidableEq Tid] [DecidableEq D]

namespace Books

/-- `t` calls. -/
def call (b : Books Tid) (t : Tid) : Books Tid :=
  { b with cycleOf := Function.update b.cycleOf t none }

/-- `t` is counted. -/
def arrive (b : Books Tid) (t : Tid) : Books Tid :=
  { b with cycleOf := Function.update b.cycleOf t (some b.cycles)
           arrivals := (t, b.cycles) :: b.arrivals }

/-- The cycle is complete. -/
def turn (b : Books Tid) : Books Tid := { b with cycles := b.cycles + 1 }

/-- The threads counted in the cycle `c`, the last one first. -/
def calls (b : Books Tid) (c : Nat) : List Tid :=
  (b.arrivals.filter fun a => a.2 = c).map (·.1)

end Books

namespace State

def goto (s : State Tid D) (t : Tid) (pc : Pc) : State Tid D :=
  { s with pc := Function.update s.pc t pc }

/-- Start a call of the mutex or the condition code. -/
def call (s : State Tid D) (t : Tid) (c : Condvar.Call Unit) (pc : Pc) : State Tid D :=
  { s.goto t pc with sync := s.sync.call t c }

/-- `br_mutex`. -/
def mutex (s : State Tid D) : Mutex Tid := s.sync.mutexes.mem.mutex (.mutex ())

/-- The call of `t` returns. -/
def ret (s : State Tid D) (t : Tid) (rv : Int) : State Tid D :=
  { s.goto t (.returned rv) with
    books := { s.books with
      returns := ⟨t, s.books.cycleOf t, rv, s.mutex.owner = some t⟩ :: s.books.returns } }

/-- `pth_barrier_reach` after `pth_mutex_acquire`: the last thread of the cycle turns it
and wakes the others, which wait. -/
def arrive (s : State Tid D) (t : Tid) (bounded : Bool) : State Tid D :=
  let b := s.barrier
  let books := s.books.arrive t
  if b.count - 1 = 0 then
    { s with
      barrier := { b with cycle := !b.cycle, count := b.threshold }
      books := books.turn }.call t (.notify true bounded) .notify
  else
    { s with barrier := { b with count := b.count - 1 }, books := books }.goto t
      (.loop bounded b.cycle (if b.threshold = b.count - 1 then headlight else cTrue))

/-- The next piece of `t`; a thread inside a call has none. -/
def cont (acquired : Errno → Int) (s : State Tid D) (t : Tid) : Option (State Tid D) :=
  match s.pc t with
  | .acquire bounded =>
    match s.sync.mutexes.pc t with
    | .returned rc => some (if acquired rc = 0 then s.ret t cFalse else s.arrive t bounded)
    | _ => none
  | .notify =>
    match s.sync.pc t with
    | .notified rv =>
      let rv := if rv then taillight else cFalse
      some (s.call t (.release ()) (.release rv))
    | _ => none
  | .loop bounded cycle rv =>
    if cycle = s.barrier.cycle then some (s.call t (.await () false bounded) (.await bounded cycle))
    else some (s.call t (.release ()) (.release rv))
  | .await bounded cycle =>
    match s.sync.pc t with
    | .awaited _ true => some (s.goto t (.loop bounded cycle cTrue))
    | .awaited _ false => some (s.call t (.release ()) (.release cFalse))
    | _ => none
  | .release rv =>
    match s.sync.mutexes.pc t with
    | .returned _ => some (s.ret t rv)
    | _ => none
  | .idle => none
  | .returned _ => none

def step (acquired : Errno → Int) (s : State Tid D) : Action Tid D → Option (State Tid D)
  | .reach t bounded =>
    if (s.pc t).outside then
      let s : State Tid D := { s with books := s.books.call t }
      if s.barrier.initialized then
        some (s.call t (.acquire () false false bounded) (.acquire bounded))
      else some (s.ret t cFalse)
    else none
  | .sync a =>
    match a with
    | .call _ _ => none
    | a => (s.sync.step a).map fun sync => { s with sync := sync }
  | .cont t => s.cont acquired t

end State

/-- A step that nothing calls for: a new call, what the rest of the library does, a look at
an event that has not occurred, and the end of a wait for a mutex that is locked or of a
`select` whose thread no broadcast has found. -/
def Unprompted (s : State Tid D) : Action Tid D → Prop
  | .reach _ _ => True
  | .cont _ => False
  | .sync (.mutex t _) => s.mutex.locked = true ∧
      (s.sync.mutexes.pc t = .waitSelect (.mutex ()) ∨
        ∃ extra, s.sync.mutexes.pc t = .waitEvent (.mutex ()) extra)
  | .sync (.go t _) => s.sync.pc t = .select () ∧ t ∉ s.sync.told
  | .sync (.examine _ _) => s.sync.cond.fires = false
  | .sync _ => True

/-- **Nothing moves**: no step is possible but those that nothing calls for. -/
def Resting (acquired : Errno → Int) (s : State Tid D) : Prop :=
  ∀ a, ¬ Unprompted s a → s.step acquired a = none

/-- Every walk of a notify is at an element of the list of `br_cond`, that of a thread or the
head. The process faults where it is not. -/
def OnList (s : State Tid D) : Prop :=
  ∀ t broadcast bounded cq, s.sync.pc t = .walk broadcast bounded cq →
    cq = .mutex .cond ∨ ∃ tmp, cq = .thread tmp

/-- **What a barrier promises** with the threshold `n`. -/
structure Contract (acquired : Errno → Int) (n : Nat) (s : State Tid D) : Prop where
  /-- a call returns only after `n` different threads have called in its cycle -/
  early    : ∀ r ∈ s.books.returns, ∃ c, r.cycle = some c ∧ r.thread ∈ s.books.calls c ∧
    (s.books.calls c).Nodup ∧ (s.books.calls c).length = n
  /-- no two of them return `PTH_BARRIER_TAILLIGHT` -/
  tails    : ∀ r ∈ s.books.returns, ∀ r' ∈ s.books.returns, r.cycle = r'.cycle →
    r.rv = taillight → r'.rv = taillight → r.thread = r'.thread
  /-- `br_count` is `n` again after each cycle, less the threads that have called since -/
  count    : (∀ c < s.books.cycles, (s.books.calls c).length = n) ∧
    s.barrier.count = n - (s.books.calls s.books.cycles).length ∧ 1 ≤ s.barrier.count
  /-- nobody returns with the mutex -/
  released : ∀ r ∈ s.books.returns, r.holds = false
  /-- when nothing moves, every call has been counted, and the threads of each complete
  cycle have returned, one of them with `PTH_BARRIER_TAILLIGHT` -/
  complete : Resting acquired s → OnList s → (∀ t bounded, s.pc t ≠ .acquire bounded) ∧
    ∀ c, (s.books.calls c).length = n →
      (∀ t ∈ s.books.calls c, ∃ r ∈ s.books.returns, r.thread = t ∧ r.cycle = some c) ∧
        ∃ r ∈ s.books.returns, r.cycle = some c ∧ r.rv = taillight

variable {s s' : State Tid D} {t u : Tid} {a : Action Tid D} {n : Nat}

theorem returns_mono {acquired : Errno → Int} (hs : s.step acquired a = some s')
    {r : Return Tid} (hr : r ∈ s.books.returns) : r ∈ s'.books.returns := by
  cases a with
  | reach t bounded =>
    simp only [State.step] at hs
    split at hs
    · split at hs <;> cases hs
      · exact hr
      · exact List.mem_cons_of_mem _ hr
    · cases hs
  | sync a =>
    simp only [State.step] at hs
    split at hs
    · cases hs
    · obtain ⟨sync, -, rfl⟩ := Option.map_eq_some_iff.mp hs
      exact hr
  | cont t =>
    simp only [State.step, State.cont] at hs
    split at hs
    · split at hs
      · cases hs
        split
        · exact List.mem_cons_of_mem _ hr
        · unfold State.arrive
          simp only
          split <;> exact hr
      · cases hs
    · split at hs <;> cases hs
      exact hr
    · split at hs <;> cases hs <;> exact hr
    · split at hs <;> cases hs <;> exact hr
    · split at hs <;> cases hs
      exact List.mem_cons_of_mem _ hr
    · cases hs
    · cases hs

/-- Thread `t` calls `pth_barrier_reach` when the mutex is free. -/
def firstReach (t : Tid) : List (Action Tid D) := [.reach t false, .sync (.mutex t true), .cont t]

theorem run_firstReach (t : Tid) :
    ∃ s : State Tid D, run (State.step Errno.code) (initState n) (firstReach t) = some s ∧
      s.books.returns = [⟨t, none, cFalse, true⟩] := by
  have hrun : (run (State.step Errno.code) (initState n : State Tid D) (firstReach t)).map
      (fun s => s.books.returns) = some [⟨t, none, cFalse, true⟩] := by
    simp [firstReach, run, State.step, initState, Pc.outside, State.call, State.goto,
      Condvar.State.call, Condvar.State.callMutex, Condvar.State.step, Condvar.State.liftMutex,
      Condvar.initState, initSys, Sys.goto, Sys.go, Sys.acquired, Sys.setHeld, pthMutexInit,
      Mem.acquireEnter, State.cont, State.ret, State.mutex, Errno.code, Mem.take_mutex, Books.call]
  exact Option.map_eq_some_iff.mp hrun

end Ngpt.Sync.Barrier
