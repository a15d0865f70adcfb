import Ngpt.Sync.Condvar

/-!
# ngpt — shared condition variables (`pth_cond_await`, `pth_sync.c`)

`pth_cond_await` on one condition variable, private or shared between processes, and the
cancellation points on its way: `pth_wait` has one for the descriptor of a futex, on which
a thread waits for a shared condition variable or for a shared mutex, and none for a
condition or a mutex; `pth_cond_await` has one at its end.

What the code does under `cn_lock` is one step, and so is a call of `pth_mutex_acquire` or
`pth_mutex_release`, at the moment it ends. A wait may end at any time, and the flags of the
condition variable change at any time (`pth_cond_notify` and the event manager). A process
may die between two steps.

Of a mutex call nothing is assumed but that it makes no thread the owner except its caller
(`Lock.Follows`): it may take a mutex that another thread has, as it does after an error of
`FUTEX_FD`, and leave any count.

Not in the code: `calls`, how often a thread has called `pth_cond_await`, and `inside`, the
calls that are counted in `cn_waiters`; and for the call that a thread is in, what
`futex_add_waiter` has returned (`asked`) and whether a section of the call has changed the
condition variable or the mutex (`touched`).

Left out: `ev_extra`, which is one more way for a wait to end; the `is_bound` and state
fields.

Result: `failed_await_iff`.
-/

namespace Ngpt.Sync.SharedCond

open Function Transition
open Condvar (Cond pthCondInit)

/-- What does not change: the process of a thread, its address there, and what is shared
between processes, of the condition variable and the mutexes. -/
structure Setup (Mid T : Type) where
  pid     : T → Nat
  ptr     : T → Nat
  pshared : Bool
  shared  : Mid → Bool

/-- The owner and the count of a mutex. -/
structure Lock (T : Type) where
  owner : Option T
  count : Nat
  deriving DecidableEq, Repr

/-- The cancellation point at which a thread exits: in the `pth_wait` of `pth_cond_await`, in
that of `pth_shared_mutex_acquire`, or at the end of `pth_cond_await`. -/
inductive Exit where
  | inWait
  | inAcquire
  | atEnd
  deriving DecidableEq, Repr

/-- Where a thread is: before the named section, or in the named call. -/
inductive Pc (Mid : Type) where
  | idle
  /-- the consistency checks, the section that counts the thread in, `pth_mutex_release` -/
  | await (m : Mid) (bounded : Bool)
  | enter (m : Mid) (bounded : Bool)
  | release (m : Mid) (bounded : Bool) (fd : Int)
  /-- in `pth_wait` or `select`; then out of it -/
  | wait (m : Mid) (bounded : Bool) (fd : Int)
  | ready (m : Mid) (bounded : Bool) (fd : Int) (occurred : Bool)
  | reacquire (m : Mid) (bounded : Bool)
  | finish (m : Mid)
  /-- the call is over -/
  | awaited (m : Mid) (rv : Bool)
  /-- in `pth_exit`, before the cleanup handlers run -/
  | cleanup (m : Mid) (exit : Exit)
  /-- its process has died -/
  | dead
  deriving DecidableEq, Repr

structure State (Mid T : Type) where
  cond      : Cond T
  waitlist  : List T
  mutex     : Mid → Lock T
  natives   : Nat
  pc        : T → Pc Mid
  cancelreq : T → Bool
  enabled   : T → Bool
  calls     : T → Nat
  inside    : List (T × Nat)
  asked     : T → Option Int
  touched   : T → Bool

/-- What the environment answers: the result of `futex_add_waiter`, whether the event of the
wait has occurred, and what a mutex call leaves; `none` is a cancellation in it. -/
structure Outcome (T : Type) where
  fd       : Int
  occurred : Bool
  lock     : Option (Lock T)
  deriving DecidableEq, Repr

inductive Action (Mid T : Type) where
  | call (t : T) (m : Mid) (bounded : Bool)
  /-- the next section of `t` -/
  | go (t : T) (o : Outcome T)
  /-- a mutex call of a thread that is not in `pth_cond_await` -/
  | mutex (t : T) (m : Mid) (mx : Lock T)
  /-- `pth_cancel` and `pth_cancel_state` -/
  | cancel (t : T)
  | enable (t : T) (enabled : Bool)
  /-- what others change -/
  | flags (signaled broadcast handled : Bool) (wakecnt : Nat)
  | natives (n : Nat)
  | die (p : Nat)
  deriving DecidableEq, Repr

variable {Mid T : Type}

def Pc.outside : Pc Mid → Bool
  | .idle | .awaited _ _ => true
  | _ => false

/-- The mutex of the call. -/
def Pc.mutex : Pc Mid → Option Mid
  | .idle | .dead => none
  | .await m _ | .enter m _ | .release m _ _ | .wait m _ _ | .ready m _ _ _ | .reacquire m _
  | .finish m | .awaited m _ | .cleanup m _ => some m

/-- What `pth_mutex_acquire` tests: already locked by the caller. -/
def Lock.Held (mx : Lock T) (t : T) : Prop := mx.owner = some t ∧ mx.count ≥ 1

instance [DecidableEq T] (mx : Lock T) (t : T) : Decidable (mx.Held t) :=
  inferInstanceAs (Decidable (_ ∧ _))

/-- What a mutex call of `t` may leave: it makes nobody else the owner. -/
def Lock.Follows (mx : Lock T) (t : T) (mx' : Lock T) : Prop :=
  ∀ u, mx'.Held u → u = t ∨ mx.Held u

instance [DecidableEq T] (mx : Lock T) (t : T) (mx' : Lock T) :
    Decidable (mx.Follows t mx') :=
  decidable_of_iff (∀ u ∈ mx'.owner, mx'.count ≥ 1 → u = t ∨ mx.Held u)
    ⟨fun h u hu => h u hu.1 hu.2, fun h u hu hcount => h u ⟨hu, hcount⟩⟩

/-- What a call that fails is to leave alone. -/
structure View (T : Type) where
  cond     : Cond T
  waitlist : List T
  mutex    : Option (Lock T)
  deriving DecidableEq

namespace State

variable [DecidableEq Mid] [DecidableEq T]

def view (s : State Mid T) (m : Option Mid) : View T := ⟨s.cond, s.waitlist, m.map s.mutex⟩

def goto (s : State Mid T) (t : T) (pc : Pc Mid) : State Mid T :=
  { s with pc := update s.pc t pc }

def setMutex (s : State Mid T) (m : Mid) (mx : Lock T) : State Mid T :=
  { s with mutex := update s.mutex m mx }

/-- What `pth_cancel_point` tests. -/
def cancelled (s : State Mid T) (t : T) : Bool := s.cancelreq t && s.enabled t

/-- `pth_exit` from `pth_cancel_point`. -/
def exit (s : State Mid T) (t : T) (m : Mid) (e : Exit) : State Mid T :=
  { s.goto t (.cleanup m e) with cancelreq := update s.cancelreq t false }

/-- A mutex call of `t` ends and leaves `mx`. -/
def mutexCall (s : State Mid T) (t : T) (m : Mid) (mx : Lock T) : Option (State Mid T) :=
  if (s.mutex m).Follows t mx then some (s.setMutex m mx) else none

/-- A waiter is counted in. -/
def countIn (s : State Mid T) (t : T) : State Mid T :=
  { s with cond := s.cond.countIn, inside := (t, s.calls t) :: s.inside }

/-- A waiter is counted out. -/
def countOut (s : State Mid T) (t : T) : State Mid T :=
  { s with cond := s.cond.countOut, inside := s.inside.erase (t, s.calls t) }

/-- The next section of the `pth_cond_await` that `t` is in. -/
def piece (w : Setup Mid T) (s : State Mid T) (t : T) (o : Outcome T) :
    Option (State Mid T) :=
  match s.pc t with
  | .await m bounded =>
    if s.cond.initialized = false ∨ (s.mutex m).owner.map w.ptr ≠ some (w.ptr t) then
      some (s.goto t (.awaited m false))
    else some (s.goto t (.enter m bounded))
  | .enter m bounded =>
    if w.pshared then
      let s := { s.countIn t with asked := update s.asked t (some o.fd) }
      if o.fd < 0 then some (s.goto t (.awaited m false))
      else some (s.goto t (.release m bounded o.fd))
    else
      let s := s.countIn t
      some ({ s with waitlist := if s.natives > 1 then t :: s.waitlist else s.waitlist }.goto t
        (.release m bounded 0))
  | .release m bounded fd =>
    match o.lock with
    | some mx => (s.mutexCall t m mx).map (·.goto t (.wait m bounded fd))
    | none => none
  | .wait m bounded fd =>
    -- a `COND` event is no cancellation point, nor is `select`
    if bounded = false ∧ fd > 0 ∧ s.cancelled t then some (s.exit t m .inWait)
    else some (s.goto t (.ready m bounded fd o.occurred))
  | .ready m bounded fd occurred =>
    if bounded = false ∧ s.cond.signaled = false ∧ occurred ∧ w.pshared = false then
      some (s.goto t (.wait m bounded fd))
    else
      let s := if s.natives > 1 ∧ w.pshared = false then
        { s with waitlist := s.waitlist.erase t } else s
      some ((s.countOut t).goto t (.reacquire m bounded))
  | .reacquire m bounded =>
    match o.lock with
    | some mx => (s.mutexCall t m mx).map (·.goto t (.finish m))
    | none =>
      -- the wait of `pth_shared_mutex_acquire` is for a descriptor
      if w.shared m ∧ bounded = false ∧ ¬ (s.mutex m).Held t ∧ s.cancelled t then
        some (s.exit t m .inAcquire)
      else none
  | .finish m =>
    if s.cancelled t then some (s.exit t m .atEnd) else some (s.goto t (.awaited m true))
  | _ => none

/-- A section of `t` leads to `s'`. -/
def mark (s : State Mid T) (t : T) (s' : State Mid T) : State Mid T :=
  let m := (s.pc t).mutex
  let changed := decide (s'.view m ≠ s.view m)
  { s' with touched := update s.touched t (s.touched t || changed) }

def go (w : Setup Mid T) (s : State Mid T) (t : T) (o : Outcome T) : Option (State Mid T) :=
  (s.piece w t o).map (s.mark t)

def step (w : Setup Mid T) (s : State Mid T) : Action Mid T → Option (State Mid T)
  | .call t m bounded =>
    if (s.pc t).outside then
      some { s.goto t (.await m bounded) with
        calls := update s.calls t (s.calls t + 1)
        asked := update s.asked t none
        touched := update s.touched t false }
    else none
  | .go t o => s.go w t o
  | .mutex t m mx => if (s.pc t).outside then s.mutexCall t m mx else none
  | .cancel t => some { s with cancelreq := update s.cancelreq t true }
  | .enable t enabled =>
    if (s.pc t).outside then some { s with enabled := update s.enabled t enabled }
    else none
  | .flags signaled broadcast handled wakecnt =>
    some { s with cond := { s.cond with
      signaled := signaled, broadcast := broadcast, handled := handled, wakecnt := wakecnt } }
  | .natives n => some { s with natives := n }
  | .die p =>
    some { s with pc := fun t => if w.pid t = p then .dead else s.pc t }

end State

/-- A condition variable without waiters, initialised or not, free mutexes and idle
threads. -/
structure Initial (s : State Mid T) : Prop where
  waiters : s.cond.waiters = 0
  mutex   : ∀ m, s.mutex m = ⟨none, 0⟩
  pc      : ∀ t, s.pc t = .idle
  inside  : s.inside = []

/-- Nobody has called anything yet. -/
def init : State Unit T where
  cond      := pthCondInit
  waitlist  := []
  mutex     := fun _ => ⟨none, 0⟩
  natives   := 1
  pc        := fun _ => .idle
  cancelreq := fun _ => false
  enabled   := fun _ => true
  calls     := fun _ => 0
  inside    := []
  asked     := fun _ => none
  touched   := fun _ => false

theorem init_initial : Initial (init : State Unit T) := ⟨rfl, fun _ => rfl, fun _ => rfl, rfl⟩

variable {w : Setup Mid T} {s s' : State Mid T} {t u : T} {m : Mid} {o : Outcome T}
  {a : Action Mid T}

/-! ## Calls that have changed nothing -/

/-- What is known of a call that has not got further than the section that counts it in. -/
def Untouched (s : State Mid T) (t : T) : Prop :=
  match s.pc t with
  | .await _ _ | .enter _ _ => s.touched t = false ∧ s.asked t = none
  | .awaited _ false => s.touched t = false ↔ ∀ fd, s.asked t = some fd → 0 ≤ fd
  | _ => True

/-- The call of `t` is not concerned by a step. -/
structure Apart (s s' : State Mid T) (t : T) : Prop where
  pc      : s'.pc t = s.pc t ∨ s'.pc t = .dead
  asked   : s'.asked t = s.asked t
  touched : s'.touched t = s.touched t

theorem Untouched.apart (h : Untouched s t) (ha : Apart s s' t) : Untouched s' t := by
  unfold Untouched at h ⊢
  rcases ha.pc with hpc | hpc
  · rw [hpc, ha.asked, ha.touched]
    exact h
  · rw [hpc]
    trivial

variable [DecidableEq T]

@[simp] theorem goto_pc (s : State Mid T) (t : T) (pc : Pc Mid) : (s.goto t pc).pc t = pc :=
  update_self ..

@[simp] theorem exit_pc (s : State Mid T) (t : T) (m : Mid) (e : Exit) :
    (s.exit t m e).pc t = .cleanup m e :=
  update_self ..

@[simp] theorem mark_pc (s : State Mid T) (t : T) (s₁ : State Mid T) :
    (s.mark t s₁).pc = s₁.pc := rfl

@[simp] theorem mark_asked (s : State Mid T) (t : T) (s₁ : State Mid T) :
    (s.mark t s₁).asked = s₁.asked := rfl

theorem mark_touched_goto (s : State Mid T) (t : T) (pc : Pc Mid) :
    (s.mark t (s.goto t pc)).touched t = s.touched t := by
  have hview : (s.goto t pc).view (s.pc t).mutex = s.view (s.pc t).mutex := rfl
  simp [State.mark, hview]

theorem mark_touched_changed {s₁ : State Mid T}
    (h : s₁.cond.waiters ≠ s.cond.waiters) : (s.mark t s₁).touched t = true := by
  have hview : s₁.view (s.pc t).mutex ≠ s.view (s.pc t).mutex := fun hv =>
    h (congrArg (fun v => v.cond.waiters) hv)
  simp [State.mark, hview]

/-! ## What a section can do -/

variable [DecidableEq Mid]

/-- What a section of `t` does: one case for each branch of `piece`. -/
inductive Turn (s : State Mid T) (t : T) : State Mid T → Prop where
  | refused {m : Mid} {bounded : Bool} (hpc : s.pc t = .await m bounded) :
      Turn s t (s.goto t (.awaited m false))
  | checked {m : Mid} {bounded : Bool} (hpc : s.pc t = .await m bounded) :
      Turn s t (s.goto t (.enter m bounded))
  | failed {m : Mid} {bounded : Bool} {fd : Int} (hpc : s.pc t = .enter m bounded)
      (hfd : fd < 0) :
      Turn s t ({ s.countIn t with asked := update s.asked t (some fd) }.goto t
        (.awaited m false))
  | entered {m : Mid} {bounded : Bool} {fd : Int} (r : Option Int) (waitlist : List T)
      (hpc : s.pc t = .enter m bounded) :
      Turn s t ({ s.countIn t with
        asked := update s.asked t r, waitlist := waitlist }.goto t (.release m bounded fd))
  | released {m : Mid} {bounded : Bool} {fd : Int} {mx : Lock T}
      (hpc : s.pc t = .release m bounded fd) (hmx : (s.mutex m).Follows t mx) :
      Turn s t ((s.setMutex m mx).goto t (.wait m bounded fd))
  | exitWait {m : Mid} {bounded : Bool} {fd : Int} (hpc : s.pc t = .wait m bounded fd) :
      Turn s t (s.exit t m .inWait)
  | woken {m : Mid} {bounded occurred : Bool} {fd : Int} (hpc : s.pc t = .wait m bounded fd) :
      Turn s t (s.goto t (.ready m bounded fd occurred))
  | spurious {m : Mid} {bounded occurred : Bool} {fd : Int}
      (hpc : s.pc t = .ready m bounded fd occurred) :
      Turn s t (s.goto t (.wait m bounded fd))
  | left {m : Mid} {bounded occurred : Bool} {fd : Int} (waitlist : List T)
      (hpc : s.pc t = .ready m bounded fd occurred) :
      Turn s t (({ s with waitlist := waitlist }.countOut t).goto t (.reacquire m bounded))
  | exitAcquire {m : Mid} {bounded : Bool} (hpc : s.pc t = .reacquire m bounded)
      (hheld : ¬ (s.mutex m).Held t) :
      Turn s t (s.exit t m .inAcquire)
  | acquired {m : Mid} {bounded : Bool} {mx : Lock T} (hpc : s.pc t = .reacquire m bounded)
      (hmx : (s.mutex m).Follows t mx) :
      Turn s t ((s.setMutex m mx).goto t (.finish m))
  | exitEnd {m : Mid} (hpc : s.pc t = .finish m) :
      Turn s t (s.exit t m .atEnd)
  | returned {m : Mid} (hpc : s.pc t = .finish m) :
      Turn s t (s.goto t (.awaited m true))

theorem mutexCall_eq_some {mx : Lock T} :
    s.mutexCall t m mx = some s' ↔ (s.mutex m).Follows t mx ∧ s.setMutex m mx = s' := by
  unfold State.mutexCall
  rw [Option.ite_none_right_eq_some, Option.some.injEq]

theorem piece_turn (h : s.piece w t o = some s') : Turn s t s' := by
  cases hpc : s.pc t <;> simp only [State.piece, hpc, reduceCtorEq] at h
  case await m bounded =>
    split at h <;> cases h
    · exact .refused hpc
    · exact .checked hpc
  case enter m bounded =>
    split at h
    · split at h <;> cases h
      case isTrue hfd => exact .failed hpc hfd
      case isTrue.isFalse.refl => exact .entered (some o.fd) s.waitlist hpc
    · cases h
      -- `futex_add_waiter` has not been called
      have hturn : Turn s t ({ s.countIn t with
          asked := update s.asked t (s.asked t)
          waitlist := if s.natives > 1 then t :: s.waitlist else s.waitlist }.goto t
          (.release m bounded 0)) := .entered _ _ hpc
      rw [update_eq_self] at hturn
      exact hturn
  case release m bounded fd =>
    split at h
    · obtain ⟨s₁, hcall, rfl⟩ := Option.map_eq_some_iff.mp h
      obtain ⟨hmx, rfl⟩ := mutexCall_eq_some.mp hcall
      exact .released hpc hmx
    · cases h
  case wait m bounded fd =>
    split at h <;> cases h
    · exact .exitWait hpc
    · exact .woken hpc
  case ready m bounded fd occurred =>
    split at h
    · cases h
      exact .spurious hpc
    · split at h <;> cases h
      · exact .left _ hpc
      · exact .left s.waitlist hpc
  case reacquire m bounded =>
    split at h
    · obtain ⟨s₁, hcall, rfl⟩ := Option.map_eq_some_iff.mp h
      obtain ⟨hmx, rfl⟩ := mutexCall_eq_some.mp hcall
      exact .acquired hpc hmx
    · obtain ⟨hcancel, ⟨⟩⟩ := Option.ite_none_right_eq_some.mp h
      exact .exitAcquire hpc hcancel.2.2.1
  case finish m =>
    split at h <;> cases h
    · exact .exitEnd hpc
    · exact .returned hpc

theorem go_turn (h : s.go w t o = some s') : ∃ s₁, Turn s t s₁ ∧ s' = s.mark t s₁ := by
  obtain ⟨s₁, hpiece, rfl⟩ := Option.map_eq_some_iff.mp h
  exact ⟨s₁, piece_turn hpiece, rfl⟩

/-! ## Waits that fail -/

theorem Untouched.go (h : Untouched s t) (hgo : s.go w t o = some s') : Untouched s' t := by
  obtain ⟨s₁, hturn, rfl⟩ := go_turn hgo
  unfold Untouched at h ⊢
  rw [mark_pc, mark_asked]
  cases hturn with
  | refused hpc =>
    simp only [hpc] at h
    rw [goto_pc, mark_touched_goto]
    show s.touched t = false ↔ ∀ fd, s.asked t = some fd → 0 ≤ fd
    refine iff_of_true h.1 fun fd hfd => ?_
    rw [h.2] at hfd
    cases hfd
  | checked hpc =>
    simp only [hpc] at h
    rw [goto_pc, mark_touched_goto]
    exact h
  | @failed m _ fd hpc hfd =>
    rw [goto_pc, mark_touched_changed (Unsigned.incr_ne _)]
    refine iff_of_false (by decide) fun hall => ?_
    have h0 := hall fd (update_self ..)
    omega
  | entered | released | woken | spurious | left | acquired | returned =>
    rw [goto_pc]
    trivial
  | exitWait | exitAcquire | exitEnd =>
    rw [exit_pc]
    trivial

theorem Turn.apart (h : Turn s t s') (hut : u ≠ t) :
    s'.pc u = s.pc u ∧ s'.asked u = s.asked u := by
  cases h with
  | failed | entered =>
    exact ⟨update_of_ne hut _ _, update_of_ne hut _ _⟩
  | _ => exact ⟨update_of_ne hut _ _, rfl⟩

/-- The thread whose call goes on in a step. -/
def Action.actor : Action Mid T → Option T
  | .call t _ _ | .go t _ => some t
  | _ => none

theorem step_apart (h : s.step w a = some s') (hut : a.actor ≠ some u) : Apart s s' u := by
  cases a with
  | call t m bounded =>
    have hne : u ≠ t := fun hu => hut (congrArg some hu.symm)
    simp only [State.step] at h
    split at h
    · cases h
      exact ⟨Or.inl (update_of_ne hne _ _), update_of_ne hne _ _,
        update_of_ne hne _ _⟩
    · cases h
  | go t o =>
    have hne : u ≠ t := fun hu => hut (congrArg some hu.symm)
    obtain ⟨s₁, hturn, rfl⟩ := go_turn h
    obtain ⟨hpc, hasked⟩ := hturn.apart hne
    exact ⟨Or.inl hpc, hasked, update_of_ne hne _ _⟩
  | mutex t m mx =>
    obtain ⟨-, hcall⟩ := Option.ite_none_right_eq_some.mp h
    obtain ⟨-, rfl⟩ := mutexCall_eq_some.mp hcall
    exact ⟨Or.inl rfl, rfl, rfl⟩
  | enable =>
    simp only [State.step] at h
    split at h
    · cases h
      exact ⟨Or.inl rfl, rfl, rfl⟩
    · cases h
  | cancel | flags | natives =>
    cases h
    exact ⟨Or.inl rfl, rfl, rfl⟩
  | die p =>
    cases h
    refine ⟨?_, rfl, rfl⟩
    by_cases hp : w.pid u = p
    · exact Or.inr (if_pos hp)
    · exact Or.inl (if_neg hp)

theorem Untouched.step (h : ∀ t, Untouched s t) (hs : s.step w a = some s') (t : T) :
    Untouched s' t := by
  by_cases hactor : a.actor = some t
  · cases a with
    | call u m bounded =>
      obtain rfl : u = t := Option.some.inj hactor
      simp only [State.step] at hs
      split at hs
      · cases hs
        unfold Untouched
        simp [State.goto]
      · cases hs
    | go u o =>
      obtain rfl : u = t := Option.some.inj hactor
      exact (h u).go hs
    | _ => cases hactor
  · exact (h t).apart (step_apart hs hactor)

/-- **A failed wait.** Whatever the condition variable and the mutex are, and whatever has
happened to them: a `pth_cond_await` that returns `FALSE` has changed neither of them nor the
wait list, exactly if it has not failed in `futex_add_waiter`. -/
theorem failed_await_iff (w : Setup Mid T) (s : State Mid T)
    (hs : Reachable (State.step w) Always Initial s) (t : T) (m : Mid)
    (hfalse : s.pc t = .awaited m false) :
    s.touched t = false ↔ ∀ fd, s.asked t = some fd → 0 ≤ fd := by
  have hall : ∀ t, Untouched s t := by
    refine hs.invariant (fun s hinit t => ?_) (fun s a s' h _ hstep => Untouched.step h hstep)
    unfold Untouched
    rw [hinit.pc t]
    trivial
  have h := hall t
  unfold Untouched at h
  rw [hfalse] at h
  exact h

/-- A condition variable, shared or not, and a shared mutex. -/
def one (pshared : Bool) : Setup Unit Unit where
  pid     := fun _ => 1
  ptr     := fun _ => 1
  pshared := pshared
  shared  := fun _ => true

/-- The thread does not have the mutex. -/
theorem failed_await_iff_unlocked :
    ∃ s : State Unit Unit, Reachable (State.step (one false)) Always Initial s ∧
      s.pc () = .awaited () false ∧
      (s.touched () = false ↔ ∀ fd, s.asked () = some fd → 0 ≤ fd) := by
  refine exists_and_of_any (o := run (State.step (one false)) init [.call () () false,
    .go () ⟨0, true, none⟩]) (fun _ => reachable_of_run (.init init_initial)) (by decide)
    fun s hs hpc => ?_
  exact failed_await_iff _ s hs () () hpc

/-- `futex_add_waiter` fails: the call returns `FALSE` and its thread stays counted. -/
theorem failed_await_stays_counted :
    ∃ s : State Unit Unit, Reachable (State.step (one true)) Always Initial s ∧
      s.pc () = .awaited () false ∧ s.touched () = true ∧ s.cond.waiters = 1 := by
  exact exists_reachable init_initial [.mutex () () ⟨some (), 1⟩, .call () () false,
    .go () ⟨-1, true, none⟩, .go () ⟨-1, true, none⟩] (by decide +kernel)

end Ngpt.Sync.SharedCond
