import Ngpt.Sync.Plain

/-!
# ngpt — condition variables (`pth_sync.c`)

`pth_cond_await` and `pth_cond_notify` on a process-private condition variable, over the
mutexes of `Ngpt.Sync.Mutex`. What the code does under `cn_lock` is one step, except the
walk of `pth_cond_notify` over the waiters, which holds the lock from one waiter to the
next. `mutex_cond_wait` is the one list element of a thread, in the list of a mutex or in
that of the condition variable, so both kinds of list are in the same memory.

A thread that is not bounded waits in `pth_wait`. The event manager looks at its events
(`examine`: the `COND` event first, then the extra one), finds an extra event elapsed in
its last loop (`elapse`), or ends the wait for a signal or a cancellation request
(`interrupt`); with several natives a notify moves the thread to the ready queue itself.
A bounded thread waits in `select`, which may return at any time.

Four fields are not in the code: the threads counted in `cn_waiters`, those of them that
a broadcast has found there, and for the `pth_cond_await` that a thread is in, whether it
started with `mx_count` 1 and how often it has released the mutex.

Left out: shared condition variables, the state and `is_bound` fields, and the
cancellation point at the end of `pth_cond_await`, at which a thread may exit.
-/

namespace Ngpt.Sync.Condvar

open Function Transition

/-- What has a wait list: the mutexes and the condition variable. -/
inductive Obj (Mid : Type) where
  | mutex (m : Mid)
  | cond
  deriving DecidableEq, Repr

/-- `pth_cond_t`, less the wait list. The Booleans are the bits of `cn_state`; `lock` is
the thread that has `cn_lock` between two steps. -/
structure Cond (Tid : Type) where
  initialized : Bool
  signaled    : Bool
  broadcast   : Bool
  handled     : Bool
  waiters     : Nat
  wakecnt     : Nat
  lock        : Option Tid
  deriving DecidableEq, Repr

/-- `_pth_cond_init` of a private condition variable. -/
def pthCondInit {Tid : Type} : Cond Tid :=
  { initialized := true, signaled := false, broadcast := false, handled := false
    waiters := 0, wakecnt := 0, lock := none }

/-- Where a thread is: before the named piece of the code, or in the named call. -/
inductive Pc (Mid Tid D : Type) where
  | idle
  /-- in a call of the mutex functions of its own -/
  | mutex
  /-- `pth_cond_await`: the consistency checks, the section that counts the thread in,
  and `pth_mutex_release` -/
  | await (m : Mid) (extra bounded : Bool)
  | enter (m : Mid) (extra bounded : Bool)
  | release (m : Mid) (extra bounded : Bool)
  /-- in `pth_wait`, with the extra event in the ring or not; then out of it, with the
  events that have occurred; or in `select` -/
  | waiting (m : Mid) (extra : Bool)
  | ready (m : Mid) (occurred extra : Bool)
  | select (m : Mid)
  | reacquire (m : Mid)
  /-- `pth_cond_notify`: the consistency check, the section that sets the flags, the walk
  at the list element `cq`, the increment of `cn_wakecnt`, and what follows the release
  of `cn_lock` -/
  | notify (broadcast bounded : Bool)
  | signal (broadcast bounded : Bool)
  | walk (broadcast bounded : Bool) (cq : WaitNode (Obj Mid) Tid)
  | count (broadcast bounded : Bool) (ds : Option D)
  | nudge (broadcast bounded : Bool) (ds : Option D)
  /-- a broadcast that waits until `cn_waiters` is 0, in `pth_wait` or with `pth_yield` -/
  | drain (yields : Bool)
  /-- the calls are over -/
  | awaited (m : Mid) (rv : Bool)
  | notified (rv : Bool)
  deriving DecidableEq, Repr

structure State (Mid Tid D : Type) where
  mutexes : Sys (Obj Mid) Tid D
  cond    : Cond Tid
  pc      : Tid → Pc Mid Tid D
  inside  : List Tid
  told    : List Tid
  solo    : Tid → Bool
  freed   : Tid → Nat

inductive Call (Mid : Type) where
  | acquire (m : Mid) (tryonly extra bounded : Bool)
  | release (m : Mid)
  | await (m : Mid) (extra bounded : Bool)
  | notify (broadcast bounded : Bool)
  deriving DecidableEq, Repr

inductive Action (Mid Tid D : Type) where
  | call (t : Tid) (c : Call Mid)
  /-- the next piece of the mutex call that `t` is in -/
  | mutex (t : Tid) (occurred : Bool)
  /-- the next piece of `t`; `isBound` is that of the native a signal may wake -/
  | go (t : Tid) (isBound : Bool)
  /-- the event manager; `expired` says whether the extra event of `t` has occurred -/
  | examine (t : Tid) (expired : Bool)
  | elapse (t : Tid)
  | interrupt (t : Tid)
  /-- what other parts of the library change -/
  | natives (n : Nat)
  | bind (t : Tid) (d : Option D)
  | park (t : Tid) (d : Option D)
  deriving DecidableEq, Repr

variable {Mid Tid D : Type}

/-- A thread that may make a call, once its last mutex call is over. -/
def Pc.outside : Pc Mid Tid D → Bool
  | .idle | .mutex | .awaited _ _ | .notified _ => true
  | _ => false

namespace Cond

/-- A waiter is counted in. -/
def countIn (c : Cond Tid) : Cond Tid := { c with waiters := Unsigned.incr c.waiters }

/-- A waiter leaves, and takes the signal with it when it is the last one or the signal
is marked as handled. -/
def countOut (c : Cond Tid) : Cond Tid :=
  let c : Cond Tid := { c with waiters := Unsigned.decr c.waiters }
  if (c.waiters = 0 ∨ c.handled) ∧ c.signaled then
    let c : Cond Tid := { c with broadcast := false, handled := false
                                 wakecnt := Unsigned.decr c.wakecnt }
    if c.wakecnt = 0 then { c with signaled := false } else c
  else c

theorem countOut_waiters (c : Cond Tid) : c.countOut.waiters = Unsigned.decr c.waiters := by
  simp only [Cond.countOut]
  split
  · split <;> rfl
  · rfl

/-- The flags that a notify sets. -/
def raise (c : Cond Tid) (broadcast : Bool) : Cond Tid :=
  { c with signaled := true, broadcast := broadcast, handled := false }

def countWake (c : Cond Tid) : Cond Tid := { c with wakecnt := Unsigned.incr c.wakecnt }

/-- The event manager's test of a `COND` event. -/
def fires (c : Cond Tid) : Bool := c.signaled && (c.broadcast || !c.handled)

/-- A signal that is no broadcast is handled by the first waiter that sees it. -/
def examined (c : Cond Tid) : Cond Tid :=
  if c.fires ∧ c.broadcast = false then { c with handled := true } else c

end Cond

/-- A condition variable as `_pth_cond_init` leaves it, mutexes as `pth_mutex_init` does,
and idle threads. -/
structure Initial (s : State Mid Tid D) : Prop where
  mutexes : Sync.Initial s.mutexes
  mutex   : ∀ m, ∃ type, s.mutexes.mem.mutex m = pthMutexInit type
  cond    : s.cond = pthCondInit
  pc      : ∀ t, s.pc t = .idle
  inside  : s.inside = []
  told    : s.told = []

/-- One native, mutexes of one type, and nobody in a call. -/
def initState (type : MutexType) : State Mid Tid D :=
  { mutexes := initSys type, cond := pthCondInit, pc := fun _ => .idle, inside := []
    told := [], solo := fun _ => false, freed := fun _ => 0 }

theorem initState_initial (type : MutexType) : Initial (initState type : State Mid Tid D) :=
  ⟨initSys_initial type, fun _ => ⟨type, rfl⟩, rfl, fun _ => rfl, rfl, rfl⟩

theorem same_pipe (mem : Mem (Obj Mid) Tid D) (sigpipe : D → Nat) :
    Same mem { mem with sigpipe := sigpipe } :=
  .of_eq rfl rfl rfl

theorem same_wakeupAnative (mem : Mem (Obj Mid) Tid D) : Same mem mem.pthWakeupAnative :=
  .of_eq rfl rfl rfl

variable [DecidableEq Mid] [DecidableEq Tid] [DecidableEq D]

namespace State

def goto (s : State Mid Tid D) (t : Tid) (pc : Pc Mid Tid D) : State Mid Tid D :=
  { s with pc := update s.pc t pc }

/-- Start a call of the mutex code. -/
def callMutex (s : State Mid Tid D) (t : Tid) (q : Sync.Pc (Obj Mid)) (pc : Pc Mid Tid D) :
    State Mid Tid D :=
  { s with mutexes := s.mutexes.goto t q, pc := update s.pc t pc }

def setMem (s : State Mid Tid D) (mem : Mem (Obj Mid) Tid D) : State Mid Tid D :=
  { s with mutexes := { s.mutexes with mem := mem } }

def setWait (s : State Mid Tid D) (wait : LinkedRing.Links (WaitNode (Obj Mid) Tid)) :
    State Mid Tid D :=
  s.setMem { s.mutexes.mem with wait := wait }

/-- A byte is written to the pipe of a native. -/
def writePipe (s : State Mid Tid D) (ds : D) : State Mid Tid D :=
  s.setMem { s.mutexes.mem with
    sigpipe := update s.mutexes.mem.sigpipe ds (s.mutexes.mem.sigpipe ds + 1) }

/-- The wait of `t` has ended. -/
def wakeUp (s : State Mid Tid D) (t : Tid) (occurred extra : Bool) : State Mid Tid D :=
  match s.pc t with
  | .waiting m _ => s.goto t (.ready m occurred extra)
  | _ => s

/-- `pth_cond_await` from the moment it has `cn_lock` again, up to the call of
`pth_mutex_acquire`. -/
def leave (s : State Mid Tid D) (t : Tid) (m : Mid) (bounded : Bool) : State Mid Tid D :=
  let mem := s.mutexes.mem
  let s := if mem.natives > 1 then s.setWait (pthElementDelete mem.wait (.thread t)) else s
  { s with cond := s.cond.countOut, inside := s.inside.erase t, told := s.told.erase t }.callMutex
    t (.acquire (.mutex m) false false bounded) (.reacquire m)

/-- A notify moves the waiter `tmp` from the wait queue of its native to `pth_RQ`, unless
the event manager has done so. -/
def readyWaiter (s : State Mid Tid D) (broadcast : Bool) (tmp : Tid) : State Mid Tid D :=
  if (s.mutexes.mem.thread tmp).waitedNative = none then s
  else
    ({ s with cond := { s.cond with handled := s.cond.handled || !broadcast } }.setMem
      (s.mutexes.mem.readyWaiter tmp)).wakeUp tmp false false

/-- One waiter in the walk of a notify by `t`. -/
def visit (s : State Mid Tid D) (t : Tid) (broadcast bounded : Bool) (tmp : Tid) :
    State Mid Tid D :=
  let th := s.mutexes.mem.thread tmp
  let next : Pc Mid Tid D := .walk broadcast bounded (s.mutexes.mem.wait.prev (.thread tmp))
  match th.boundnative with
  | some ds =>
    if broadcast then (s.writePipe ds).goto t next
    else
      ({ s with cond := { s.cond.countWake with lock := none } }.writePipe ds).goto t
        (.notified true)
  | none =>
    (s.readyWaiter broadcast tmp).goto t
      (if broadcast then next else .count broadcast bounded th.waitedNative)

/-- The next piece of the condition code that `t` is in; a thread that waits has none. -/
def go (s : State Mid Tid D) (t : Tid) (isBound : Bool) : Option (State Mid Tid D) :=
  match s.pc t with
  | .await m extra bounded =>
    let mx := s.mutexes.mem.mutex (.mutex m)
    if s.cond.initialized = false ∨ mx.owner ≠ some t then some (s.goto t (.awaited m false))
    else some { s.goto t (.enter m extra bounded) with
      solo := update s.solo t (mx.count = 1), freed := update s.freed t 0 }
  | .enter m extra bounded =>
    if s.cond.lock = none then
      let mem := s.mutexes.mem
      let s := if mem.natives > 1 then
        s.setWait (pthElementInsert mem.wait (.thread t) (.mutex .cond)) else s
      some ({ s with cond := s.cond.countIn, inside := t :: s.inside }.callMutex t
        (.releaseState (.mutex m)) (.release m extra bounded))
    else none
  | .release m extra bounded =>
    match s.mutexes.pc t with
    | .returned rc =>
      some { s.goto t (if bounded then .select m else .waiting m extra) with
        freed := update s.freed t (s.freed t + if rc = .ok then 1 else 0) }
    | _ => none
  | .ready m occurred _ =>
    if s.cond.lock = none then
      if s.cond.signaled = false ∧ occurred then
        -- the ring has been taken apart: the next wait is for the COND event alone
        some (s.goto t (.waiting m false))
      else some (s.leave t m false)
    else none
  | .select m => if s.cond.lock = none then some (s.leave t m true) else none
  | .reacquire m =>
    match s.mutexes.pc t with
    | .returned _ => some (s.goto t (.awaited m true))
    | _ => none
  | .notify broadcast bounded =>
    if s.cond.initialized = false then some (s.goto t (.notified false))
    else some (s.goto t (.signal broadcast bounded))
  | .signal broadcast bounded =>
    if s.cond.lock = none then
      if s.cond.waiters > 0 then
        let pc : Pc Mid Tid D :=
          if s.mutexes.mem.natives > 1 then
            .walk broadcast bounded (s.mutexes.mem.wait.prev (.mutex .cond))
          else .count broadcast bounded none
        some { s.goto t pc with
          cond := { s.cond.raise broadcast with lock := some t }
          told := if broadcast then s.inside else s.told }
      else some (s.goto t (.notified true))
    else none
  | .walk broadcast bounded cq =>
    match cq with
    | .thread tmp => some (s.visit t broadcast bounded tmp)
    | .mutex .cond => some (s.goto t (.count broadcast bounded none))
    | _ => none
  | .count broadcast bounded ds =>
    some { s.goto t (.nudge broadcast bounded ds) with
      cond := { s.cond.countWake with lock := none } }
  | .nudge broadcast bounded ds =>
    if broadcast then
      if s.cond.waiters > 0 then
        if (s.mutexes.mem.thread t).boundnative = none then some (s.goto t (.drain false))
        else some ((s.setMem s.mutexes.mem.pthWakeupAnative).goto t (.drain true))
      else some (s.goto t (.notified true))
    else if bounded then some ((s.setMem s.mutexes.mem.pthWakeupAnative).goto t (.notified true))
    else
      match ds with
      | some ds => some ((if isBound then s else s.writePipe ds).goto t (.notified true))
      | none => some (s.goto t (.notified true))
  | .drain _ => if s.cond.waiters = 0 then some (s.goto t (.notified true)) else none
  | _ => none

def call (s : State Mid Tid D) (t : Tid) : Call Mid → State Mid Tid D
  | .acquire m tryonly extra bounded =>
    s.callMutex t (.acquire (.mutex m) tryonly extra bounded) .mutex
  | .release m => s.callMutex t (.releaseState (.mutex m)) .mutex
  | .await m extra bounded => s.goto t (.await m extra bounded)
  | .notify broadcast bounded => s.goto t (.notify broadcast bounded)

def liftMutex (s : State Mid Tid D) (r : Option (Sys (Obj Mid) Tid D)) :
    Option (State Mid Tid D) :=
  r.map fun ms => { s with mutexes := ms }

def step (s : State Mid Tid D) : Action Mid Tid D → Option (State Mid Tid D)
  | .call t c =>
    if (s.pc t).outside ∧ (s.mutexes.pc t).outside then some (s.call t c) else none
  | .mutex t occurred => s.liftMutex (s.mutexes.go t occurred)
  | .go t isBound => s.go t isBound
  | .examine t expired =>
    match s.pc t with
    | .waiting _ extra =>
      let fires := s.cond.fires
      let s : State Mid Tid D := { s with cond := s.cond.examined }
      if fires ∨ (extra ∧ expired) then
        (s.liftMutex (s.mutexes.step (.park t none))).map (·.wakeUp t fires (extra && expired))
      else some s
    | _ => none
  | .elapse t =>
    match s.pc t with
    | .waiting _ true =>
      (s.liftMutex (s.mutexes.step (.park t none))).map (·.wakeUp t false true)
    | _ => none
  | .interrupt t =>
    match s.pc t with
    | .waiting _ _ => (s.liftMutex (s.mutexes.step (.park t none))).map (·.wakeUp t false false)
    | .drain false => some (s.goto t (.notified true))
    | _ => none
  | .natives n => s.liftMutex (s.mutexes.step (.natives n))
  | .bind t d => s.liftMutex (s.mutexes.step (.bind t d))
  | .park t d => s.liftMutex (s.mutexes.step (.park t d))

end State

/-! ## What a step can do -/

/-- The thread whose own step the action is. -/
def Action.actor : Action Mid Tid D → Option Tid
  | .call t _ | .mutex t _ | .go t _ => some t
  | _ => none

/-- **The pieces of the condition code**, with the memory only as far as the mutexes are
concerned. -/
inductive Move (s : State Mid Tid D) (t : Tid) : State Mid Tid D → Prop
  | refuse {m : Mid} {extra bounded : Bool} : s.pc t = .await m extra bounded →
      s.cond.initialized = false ∨ (s.mutexes.mem.mutex (.mutex m)).owner ≠ some t →
      Move s t (s.goto t (.awaited m false))
  | accept {m : Mid} {extra bounded : Bool} : s.pc t = .await m extra bounded →
      (s.mutexes.mem.mutex (.mutex m)).owner = some t →
      Move s t { s.goto t (.enter m extra bounded) with
        solo := update s.solo t ((s.mutexes.mem.mutex (.mutex m)).count = 1)
        freed := update s.freed t 0 }
  | enter {m : Mid} {extra bounded : Bool} {mem : Mem (Obj Mid) Tid D} :
      s.pc t = .enter m extra bounded → s.cond.lock = none → Same s.mutexes.mem mem →
      Move s t ({ s.setMem mem with
        cond := s.cond.countIn, inside := t :: s.inside }.callMutex t (.releaseState (.mutex m))
          (.release m extra bounded))
  | block {m : Mid} {extra bounded : Bool} {rc : Errno} : s.pc t = .release m extra bounded →
      s.mutexes.pc t = .returned rc →
      Move s t { s.goto t (if bounded then .select m else .waiting m extra) with
        freed := update s.freed t (s.freed t + if rc = .ok then 1 else 0) }
  | again {m : Mid} {extra : Bool} : s.pc t = .ready m true extra → s.cond.signaled = false →
      Move s t (s.goto t (.waiting m false))
  | leave {m : Mid} {bounded : Bool} {mem : Mem (Obj Mid) Tid D} :
      s.pc t = .select m ∨ (∃ occurred extra, s.pc t = .ready m occurred extra) →
      s.cond.lock = none → Same s.mutexes.mem mem →
      Move s t ({ s.setMem mem with
        cond := s.cond.countOut, inside := s.inside.erase t, told := s.told.erase t }.callMutex
          t (.acquire (.mutex m) false false bounded) (.reacquire m))
  | reacquire {m : Mid} {rc : Errno} : s.pc t = .reacquire m → s.mutexes.pc t = .returned rc →
      Move s t (s.goto t (.awaited m true))
  | fail {broadcast bounded : Bool} : s.pc t = .notify broadcast bounded →
      s.cond.initialized = false → Move s t (s.goto t (.notified false))
  | start {broadcast bounded : Bool} : s.pc t = .notify broadcast bounded →
      Move s t (s.goto t (.signal broadcast bounded))
  | raise {broadcast bounded : Bool} {pc : Pc Mid Tid D} : s.pc t = .signal broadcast bounded →
      s.cond.lock = none → 0 < s.cond.waiters →
      (∃ cq, pc = .walk broadcast bounded cq) ∨ pc = .count broadcast bounded none →
      Move s t { s.goto t pc with
        cond := { s.cond.raise broadcast with lock := some t }
        told := if broadcast then s.inside else s.told }
  | nobody {broadcast bounded : Bool} : s.pc t = .signal broadcast bounded →
      s.cond.waiters = 0 → Move s t (s.goto t (.notified true))
  | visit {broadcast bounded : Bool} {tmp : Tid} :
      s.pc t = .walk broadcast bounded (.thread tmp) → Move s t (s.visit t broadcast bounded tmp)
  | walked {broadcast bounded : Bool} {cq : WaitNode (Obj Mid) Tid} :
      s.pc t = .walk broadcast bounded cq → Move s t (s.goto t (.count broadcast bounded none))
  | count {broadcast bounded : Bool} {ds : Option D} : s.pc t = .count broadcast bounded ds →
      Move s t { s.goto t (.nudge broadcast bounded ds) with
        cond := { s.cond.countWake with lock := none } }
  | nudge {broadcast bounded : Bool} {ds : Option D} {mem : Mem (Obj Mid) Tid D}
      {pc : Pc Mid Tid D} : s.pc t = .nudge broadcast bounded ds → Same s.mutexes.mem mem →
      pc = .notified true ∨ (∃ yields, pc = .drain yields) → Move s t ((s.setMem mem).goto t pc)
  | drained {yields : Bool} : s.pc t = .drain yields → Move s t (s.goto t (.notified true))

/-- **What a step does**, with the memory only as far as the mutexes are concerned. -/
inductive Change (s : State Mid Tid D) : Action Mid Tid D → State Mid Tid D → Prop
  | call {t : Tid} {c : Call Mid} : (s.pc t).outside = true → (s.mutexes.pc t).outside = true →
      Change s (.call t c) (s.call t c)
  | mutex {t : Tid} {occurred : Bool} {ms : Sys (Obj Mid) Tid D} :
      s.mutexes.go t occurred = some ms → Change s (.mutex t occurred) { s with mutexes := ms }
  | go {t : Tid} {isBound : Bool} {s' : State Mid Tid D} : Move s t s' → Change s (.go t isBound) s'
  | woken {a : Action Mid Tid D} {t : Tid} {c : Cond Tid} {mem : Mem (Obj Mid) Tid D}
      {occurred extra : Bool} : a.actor = none → c = s.cond.examined ∨ c = s.cond →
      Same s.mutexes.mem mem →
      Change s a (({ s with cond := c }.setMem mem).wakeUp t occurred extra)
  | examined {a : Action Mid Tid D} : a.actor = none →
      Change s a { s with cond := s.cond.examined }
  | drained {a : Action Mid Tid D} {t : Tid} : a.actor = none → s.pc t = .drain false →
      Change s a (s.goto t (.notified true))
  | env {a : Action Mid Tid D} {mem : Mem (Obj Mid) Tid D} : a.actor = none →
      Same s.mutexes.mem mem → Change s a (s.setMem mem)

variable {s s' : State Mid Tid D} {t : Tid} {a : Action Mid Tid D} {isBound : Bool}

theorem move_leave {m : Mid} {bounded : Bool}
    (hpc : s.pc t = .select m ∨ ∃ occurred extra, s.pc t = .ready m occurred extra)
    (hlock : s.cond.lock = none) : Move s t (s.leave t m bounded) := by
  simp only [State.leave]
  split <;> exact .leave hpc hlock (same_wait _ _)

theorem move_of_go (h : s.go t isBound = some s') : Move s t s' := by
  unfold State.go at h
  cases hpc : s.pc t <;>
    simp only [hpc, reduceCtorEq, Option.some.injEq, Option.ite_none_right_eq_some] at h
  case await m extra bounded =>
    split at h <;> cases h
    case isTrue hcheck => exact .refuse hpc hcheck
    case isFalse hcheck =>
      simp only [not_or, not_not] at hcheck
      exact .accept hpc hcheck.2
  case enter m extra bounded =>
    obtain ⟨hlock, rfl⟩ := h
    split
    · exact .enter hpc hlock (same_wait _ _)
    · exact .enter hpc hlock (Same.refl _)
  case release m extra bounded =>
    split at h <;> cases h
    case h_1 rc hq => exact .block hpc hq
  case ready m occurred extra =>
    obtain ⟨hlock, h⟩ := h
    split at h <;> cases h
    case isTrue hagain => exact .again (hagain.2 ▸ hpc) hagain.1
    case isFalse => exact move_leave (Or.inr ⟨occurred, extra, hpc⟩) hlock
  case select m =>
    obtain ⟨hlock, rfl⟩ := h
    exact move_leave (Or.inl hpc) hlock
  case reacquire m =>
    split at h <;> cases h
    case h_1 rc hq => exact .reacquire hpc hq
  case notify broadcast bounded =>
    split at h <;> cases h
    case isTrue hinit => exact .fail hpc hinit
    case isFalse => exact .start hpc
  case signal broadcast bounded =>
    obtain ⟨hlock, h⟩ := h
    split at h <;> cases h
    case isTrue hw =>
      refine .raise hpc hlock hw ?_
      split
      · exact Or.inl ⟨_, rfl⟩
      · exact Or.inr rfl
    case isFalse hw => exact .nobody hpc (by omega)
  case walk broadcast bounded cq =>
    split at h <;> cases h
    · exact .visit hpc
    · exact .walked hpc
  case count broadcast bounded ds =>
    subst h
    exact .count hpc
  case nudge broadcast bounded ds =>
    have hdone : ∀ {mem : Mem (Obj Mid) Tid D}, Same s.mutexes.mem mem →
        Move s t ((s.setMem mem).goto t (.notified true)) :=
      fun hsame => .nudge hpc hsame (Or.inl rfl)
    split at h
    · split at h
      · split at h <;> cases h
        · exact .nudge hpc (Same.refl _) (Or.inr ⟨false, rfl⟩)
        · exact .nudge hpc (same_wakeupAnative _) (Or.inr ⟨true, rfl⟩)
      · cases h
        exact hdone (Same.refl _)
    · split at h
      · cases h
        exact hdone (same_wakeupAnative _)
      · split at h <;> cases h
        · split
          · exact hdone (Same.refl _)
          · exact hdone (same_pipe _ _)
        · exact hdone (Same.refl _)
  case drain yields =>
    obtain ⟨-, rfl⟩ := h
    exact .drained hpc

theorem change_of_manager {c : Cond Tid} {occurred extra : Bool} (ha : a.actor = none)
    (hc : c = s.cond.examined ∨ c = s.cond)
    (h : (State.liftMutex { s with cond := c } (s.mutexes.step (.park t none))).map
      (·.wakeUp t occurred extra) = some s') : Change s a s' := by
  obtain ⟨s₁, h₁, rfl⟩ := Option.map_eq_some_iff.mp h
  obtain ⟨ms, hms, rfl⟩ := Option.map_eq_some_iff.mp h₁
  cases hms
  exact .woken ha hc (same_setThread rfl rfl)

theorem change_of_step (h : s.step a = some s') : Change s a s' := by
  cases a with
  | call t c =>
    simp only [State.step] at h
    split at h <;> cases h
    rename_i hout
    exact .call hout.1 hout.2
  | mutex t occurred =>
    obtain ⟨ms, hms, rfl⟩ := Option.map_eq_some_iff.mp h
    exact .mutex hms
  | go t isBound => exact .go (move_of_go h)
  | examine t expired =>
    simp only [State.step] at h
    split at h
    · split at h
      · exact change_of_manager rfl (Or.inl rfl) h
      · cases h
        exact .examined rfl
    · cases h
  | elapse t =>
    simp only [State.step] at h
    split at h
    · exact change_of_manager rfl (Or.inr rfl) h
    · cases h
  | interrupt t =>
    simp only [State.step] at h
    split at h
    · exact change_of_manager rfl (Or.inr rfl) h
    next hpc =>
      cases h
      exact .drained rfl hpc
    · cases h
  | natives n =>
    cases h
    exact .env rfl (.of_eq rfl rfl rfl)
  | bind | park =>
    cases h
    exact .env rfl (same_setThread rfl rfl)

end Ngpt.Sync.Condvar
