import Ngpt.Sync.Shared

/-!
# ngpt — the descriptors of a shared mutex (`pth_shared_mutex_acquire`, `pth_sync.c`)

While the futex of a shared mutex is taken, `futex_acquire` returns a descriptor to wait on,
and `pth_shared_mutex_acquire` is to close it. One call is followed here, with everything
that it asks for left open: what `futex_acquire` and `kill` return, what ends a wait, and
what other threads and processes do to the mutex whenever the call does not hold `mx_lock`.

The call closes a descriptor after the wait on it. It has one without a wait when it was the
first test of the mutex that asked for the futex, and it leaves a wait early when another
event than that of the futex has ended it.

Result: `descriptors_closed_iff`.
-/

namespace Ngpt.Sync.FutexFd

open Function Transition
open Shared (SharedMutex Threads)

/-- The arguments of a call, and whether its thread is on a bounded native. -/
structure Call where
  tryonly : Bool
  extra   : Bool
  bounded : Bool

/-- Where the call is: before its first section, in `futex_acquire` on the path without
contention or in the loop, in `pth_wait` or `select`, or over. -/
inductive Pc where
  | start
  | first
  | futex
  | wait
  | returned (rc : Errno)
  deriving DecidableEq, Repr

/-- The mutex, `futx_fd`, and two lists that are not in the code: the descriptors that
`futex_acquire` has returned and those that have been closed, in order. -/
structure State (P : Type) where
  mutex  : SharedMutex P
  pc     : Pc
  fd     : Int
  opened : List Int
  closed : List Int

/-- What the environment answers: the result of `futex_acquire`, whether `kill` fails, and
whether a wait was ended by the event of the futex. -/
structure Outcome where
  result    : Int
  killFails : Bool
  occurred  : Bool
  deriving DecidableEq, Repr

inductive Action (P : Type) where
  | go (o : Outcome)
  /-- somebody else changes the mutex -/
  | others (mutex : SharedMutex P)

variable {T P : Type}

namespace State

def ret (s : State P) (rc : Errno) (mutex : SharedMutex P) : State P :=
  { s with pc := .returned rc, mutex := mutex }

/-- `futex_acquire` has returned. -/
def got (s : State P) (fd : Int) : State P :=
  { s with fd := fd, opened := if fd > 0 then s.opened ++ [fd] else s.opened }

/-- `if (futx_fd > 0) close(futx_fd)`. -/
def close (s : State P) : State P :=
  { s with closed := if s.fd > 0 then s.closed ++ [s.fd] else s.closed }

/-- Up to `pth_wait` or `select`. -/
def await (c : Call) (s : State P) : State P :=
  { s with
    pc := .wait
    mutex := if c.bounded then
      { s.mutex with waitcount := Unsigned.incr s.mutex.waitcount } else s.mutex }

variable [DecidableEq P]

/-- From the label `wait` to the loop. -/
def contend (w : Threads T P) (t : T) (c : Call) (s : State P) (killFails needFutex : Bool) :
    State P :=
  let mx := s.mutex
  if mx.owner = some (w.ptr t) ∧ mx.count ≥ 1 ∧ mx.ownerPid = w.pid t then
    if mx.type = .recursiveNp then s.ret .ok { mx with count := Unsigned.incr mx.count }
    else s.ret (if c.tryonly then .ebusy else .edeadlk) mx
  else if c.tryonly then s.ret .ebusy mx
  else if mx.robust ∧ killFails then
    s.ret .eownerdead ({ mx with notConsistent := true }.lockBy w t)
  else if needFutex then { s with pc := .futex }
  else s.await c

/-- The rest of a round of the loop, with `mx_lock`. -/
def resume (s : State P) (mutex : SharedMutex P) : State P :=
  if mutex.notConsistent then s.ret .enotrecoverable mutex
  else { s with pc := .futex, mutex := mutex }

/-- The next section of the call. -/
def go (w : Threads T P) (t : T) (c : Call) (s : State P) (o : Outcome) : Option (State P) :=
  let mx := s.mutex
  match s.pc with
  | .start =>
    if mx.locked = false ∧ mx.waitcount = 0 then some { s with pc := .first }
    else some (s.contend w t c o.killFails true)
  | .first =>
    let s := s.got o.result
    if o.result > 0 then some (s.contend w t c o.killFails false)
    else if o.result = -1 then some (s.ret .einval mx)
    else some (s.ret .ok (mx.lockBy w t))
  | .futex =>
    let s := s.got o.result
    if o.result = 0 then some (s.ret .ok (mx.lockBy w t))
    else if o.result = -1 then some (s.ret .einval mx)
    else some (s.await c)
  | .wait =>
    if c.bounded then
      some (s.close.resume { mx with waitcount := Unsigned.decr mx.waitcount })
    else if c.extra && !o.occurred then some (s.ret .eintr mx)
    else some (s.close.resume mx)
  | .returned _ => none

def step (w : Threads T P) (t : T) (c : Call) (s : State P) : Action P → Option (State P)
  | .go o => s.go w t c o
  | .others mutex => some { s with mutex := mutex }

end State

/-- A call that has not started, on a mutex in any state. -/
structure Initial (s : State P) : Prop where
  pc     : s.pc = .start
  opened : s.opened = []
  closed : s.closed = []

/-! ## The descriptors -/

variable {w : Threads T P} {t : T} {c : Call} {s s' : State P} {o : Outcome}

/-- The caller has the mutex already. -/
def Owns (w : Threads T P) (t : T) (mx : SharedMutex P) : Prop :=
  mx.owner = some (w.ptr t) ∧ mx.count ≥ 1 ∧ mx.ownerPid = w.pid t

/-- The condition: with a descriptor from the first `futex_acquire` the call goes on to wait,
and a wait on a descriptor is not ended by another event. -/
def Tidy (w : Threads T P) (t : T) (c : Call) (s : State P) (o : Outcome) : Prop :=
  match s.pc with
  | .first => o.result > 0 → ¬ Owns w t s.mutex ∧ c.tryonly = false ∧
      ¬ (s.mutex.robust = true ∧ o.killFails = true)
  | .wait => c.bounded = false → c.extra = true → s.fd > 0 → o.occurred = true
  | _ => True

/-- The descriptor in `futx_fd`. -/
def live (fd : Int) : List Int := if fd > 0 then [fd] else []

/-- What is open at each place. -/
structure Ledger (s : State P) : Prop where
  outside : s.pc = .start ∨ s.pc = .first ∨ s.pc = .futex → s.opened = s.closed
  waiting : s.pc = .wait → s.opened = s.closed ++ live s.fd

theorem got_opened (s : State P) (fd : Int) : (s.got fd).opened = s.opened ++ live fd := by
  unfold State.got live
  split <;> simp

theorem close_closed (s : State P) : s.close.closed = s.closed ++ live s.fd := by
  unfold State.close live
  split <;> simp

theorem append_live_ne {fd : Int} (hfd : fd > 0) (fds : List Int) : fds ≠ fds ++ live fd := by
  simp [live, hfd]

theorem got_closed (heq : s.opened = s.closed) (fd : Int) :
    (s.got fd).opened = s.closed ++ live fd ∧
      (¬ fd > 0 → (s.got fd).closed = (s.got fd).opened) := by
  have hopen : (s.got fd).opened = s.closed ++ live fd := by rw [got_opened, heq]
  refine ⟨hopen, fun hfd => ?_⟩
  rw [hopen]
  simp [live, hfd, State.got]

theorem Ledger.of_eq (h : s.opened = s.closed) (hpc : s.pc ≠ .wait) : Ledger s :=
  ⟨fun _ => h, fun hw => absurd hw hpc⟩

theorem Ledger.of_returned {rc : Errno} (hpc : s.pc = .returned rc) : Ledger s := by
  refine ⟨fun h => ?_, fun h => ?_⟩
  · rw [hpc] at h
    simp at h
  · rw [hpc] at h
    cases h

theorem Ledger.await (h : s.opened = s.closed ++ live s.fd) : Ledger (s.await c) :=
  ⟨fun hpc => by simp [State.await] at hpc, fun _ => h⟩

theorem Ledger.resume {mutex : SharedMutex P} (h : s.opened = s.closed) :
    Ledger (s.resume mutex) ∧ (s.resume mutex).closed = (s.resume mutex).opened := by
  unfold State.resume
  split
  · exact ⟨.of_returned rfl, h.symm⟩
  · exact ⟨.of_eq h nofun, h.symm⟩

/-- The call leaves at the label `wait`. -/
def Leaves (w : Threads T P) (t : T) (c : Call) (mx : SharedMutex P) (killFails : Bool) : Prop :=
  Owns w t mx ∨ c.tryonly = true ∨ (mx.robust = true ∧ killFails = true)

/-- What a section owes: the ledger, and if it is a return, all descriptors closed exactly if
it is tidy. -/
structure Accounts (w : Threads T P) (t : T) (c : Call) (s : State P) (o : Outcome)
    (s' : State P) : Prop where
  ledger : Ledger s'
  closed : ∀ rc, s'.pc = .returned rc → (s'.closed = s'.opened ↔ Tidy w t c s o)

theorem Accounts.stays (hledger : Ledger s') (hpc : ∀ rc, s'.pc ≠ .returned rc) :
    Accounts w t c s o s' :=
  ⟨hledger, fun rc hrc => absurd hrc (hpc rc)⟩

theorem Accounts.good (hledger : Ledger s') (hall : s'.closed = s'.opened)
    (htidy : Tidy w t c s o) : Accounts w t c s o s' :=
  ⟨hledger, fun _ _ => iff_of_true hall htidy⟩

theorem Accounts.bad (hledger : Ledger s') (hopen : s'.closed ≠ s'.opened)
    (htidy : ¬ Tidy w t c s o) : Accounts w t c s o s' :=
  ⟨hledger, fun _ _ => iff_of_false hopen htidy⟩

theorem Initial.ledger (h : Initial s) : Ledger s := by
  refine .of_eq (h.opened.trans h.closed.symm) ?_
  rw [h.pc]
  nofun

section

variable [DecidableEq P]

theorem contend_cases (w : Threads T P) (t : T) (c : Call) (s : State P)
    (killFails needFutex : Bool) :
    (Leaves w t c s.mutex killFails ∧
      ∃ rc mutex, s.contend w t c killFails needFutex = s.ret rc mutex) ∨
    (¬ Leaves w t c s.mutex killFails ∧ s.contend w t c killFails needFutex =
      if needFutex then { s with pc := .futex } else s.await c) := by
  unfold Leaves Owns State.contend
  simp only
  split
  case isTrue howns =>
    refine Or.inl ⟨Or.inl howns, ?_⟩
    split <;> exact ⟨_, _, rfl⟩
  split
  case isTrue htry => exact Or.inl ⟨Or.inr (Or.inl htry), _, _, rfl⟩
  split
  case isTrue hdead => exact Or.inl ⟨Or.inr (Or.inr hdead), _, _, rfl⟩
  rename_i howns htry hdead
  exact Or.inr ⟨not_or.mpr ⟨howns, not_or.mpr ⟨htry, hdead⟩⟩, rfl⟩

theorem Ledger.start (h : Ledger s) (hpc : s.pc = .start) (hgo : s.go w t c o = some s') :
    Accounts w t c s o s' := by
  have heq := h.outside (Or.inl hpc)
  have htidy : Tidy w t c s o := by simp [Tidy, hpc]
  simp only [State.go, hpc] at hgo
  split at hgo
  · cases hgo
    exact .stays (.of_eq heq nofun) nofun
  · cases hgo
    rcases contend_cases w t c s o.killFails true with ⟨-, rc, mutex, hc⟩ | ⟨-, hc⟩
    · rw [hc]
      exact .good (.of_returned rfl) heq.symm htidy
    · rw [hc]
      exact .stays (.of_eq heq nofun) nofun

theorem Ledger.first (h : Ledger s) (hpc : s.pc = .first) (hgo : s.go w t c o = some s') :
    Accounts w t c s o s' := by
  obtain ⟨hopen, hnone⟩ := got_closed (h.outside (Or.inr (Or.inl hpc))) o.result
  simp only [State.go, hpc] at hgo
  split at hgo
  next hfd =>
    cases hgo
    rcases contend_cases w t c (s.got o.result) o.killFails false with
      ⟨hl, rc, mutex, hc⟩ | ⟨-, hc⟩
    · rw [hc]
      refine .bad (.of_returned rfl) ?_ ?_
      · -- the descriptor is open and the call is over
        show s.closed ≠ (s.got o.result).opened
        rw [hopen]
        exact append_live_ne hfd _
      · intro htidy
        have hstays : ¬ Leaves w t c s.mutex o.killFails := by
          simpa [Tidy, hpc, hfd, Leaves, not_or] using htidy
        exact hstays hl
    · rw [hc]
      exact .stays (.await hopen) nofun
  next hfd =>
    have htidy : Tidy w t c s o := by simp [Tidy, hpc, hfd]
    split at hgo
    · cases hgo
      exact .good (.of_returned rfl) (hnone hfd) htidy
    · cases hgo
      exact .good (.of_returned rfl) (hnone hfd) htidy

theorem Ledger.futex (h : Ledger s) (hpc : s.pc = .futex) (hgo : s.go w t c o = some s') :
    Accounts w t c s o s' := by
  obtain ⟨hopen, hnone⟩ := got_closed (h.outside (Or.inr (Or.inr hpc))) o.result
  have htidy : Tidy w t c s o := by simp [Tidy, hpc]
  simp only [State.go, hpc] at hgo
  split at hgo
  next h0 =>
    cases hgo
    exact .good (.of_returned rfl) (hnone (by omega)) htidy
  · split at hgo
    next herror =>
      cases hgo
      exact .good (.of_returned rfl) (hnone (by omega)) htidy
    · cases hgo
      exact .stays (.await hopen) nofun

theorem Ledger.wait (h : Ledger s) (hpc : s.pc = .wait) (hgo : s.go w t c o = some s') :
    Accounts w t c s o s' := by
  have hclose : s.close.opened = s.close.closed := by
    rw [close_closed]
    exact h.waiting hpc
  simp only [State.go, hpc] at hgo
  split at hgo
  next hb =>
    cases hgo
    obtain ⟨hledger, hall⟩ := Ledger.resume hclose
    exact .good hledger hall (by simp [Tidy, hpc, hb])
  next hb =>
    split at hgo
    · rename_i hother
      cases hgo
      obtain ⟨hextra, hoccurred⟩ : c.extra = true ∧ o.occurred = false := by simpa using hother
      have hopened := h.waiting hpc
      by_cases hfd : s.fd > 0
      · refine .bad (.of_returned rfl) ?_ (by simp [Tidy, hpc, hb, hextra, hfd, hoccurred])
        show s.closed ≠ s.opened
        rw [hopened]
        exact append_live_ne hfd _
      · refine .good (.of_returned rfl) ?_ (by simp [Tidy, hpc, hfd])
        show s.closed = s.opened
        rw [hopened]
        simp [live, hfd]
    · rename_i hother
      cases hgo
      obtain ⟨hledger, hall⟩ := Ledger.resume hclose
      refine .good hledger hall ?_
      simp only [Tidy, hpc]
      intro _ hextra _
      simpa [hextra] using hother

theorem Ledger.go (h : Ledger s) (hgo : s.go w t c o = some s') : Accounts w t c s o s' := by
  cases hpc : s.pc with
  | start => exact h.start hpc hgo
  | first => exact h.first hpc hgo
  | futex => exact h.futex hpc hgo
  | wait => exact h.wait hpc hgo
  | returned rc => simp [State.go, hpc] at hgo

theorem Ledger.step {a : Action P} (h : Ledger s) (hs : s.step w t c a = some s') : Ledger s' := by
  cases a with
  | go o => exact (h.go hs).ledger
  | others mutex =>
    cases hs
    exact ⟨h.outside, h.waiting⟩

/-- **No leaked descriptors.** When a call returns, the descriptors that it was given have been
closed, each once, exactly if it does not return right after a first `futex_acquire` that gave
one, or from a wait on one that another event has ended. -/
theorem descriptors_closed_iff (w : Threads T P) (t : T) (c : Call) (s : State P)
    (hs : Reachable (State.step w t c) Always Initial s) (o : Outcome) (s' : State P)
    (hgo : s.go w t c o = some s') (rc : Errno) (hret : s'.pc = .returned rc) :
    s'.closed = s'.opened ↔ Tidy w t c s o := by
  have hledger : Ledger s :=
    hs.invariant (fun _ h => h.ledger) (fun _ _ _ h _ hstep => h.step hstep)
  exact (hledger.go hgo).closed rc hret

end

/-- One thread of process 1. -/
def alone : Threads Unit Unit where
  ptr := id
  pid := fun _ => 1
  pid_ne := by decide
  distinct := fun _ _ _ _ => rfl

/-- A call on a mutex that is not locked. -/
def unlocked : State Unit where
  mutex  := Shared.pthMutexInit .timedNp false
  pc     := .start
  fd     := 0
  opened := []
  closed := []

theorem unlocked_initial : Initial unlocked := ⟨rfl, rfl, rfl⟩

/-- The call asks for the futex, waits on descriptor 5, and asks again. -/
theorem descriptors_closed_iff_waits :
    ∃ s s' : State Unit, Reachable (State.step alone () ⟨false, false, false⟩) Always Initial s ∧
      s.go alone () ⟨false, false, false⟩ ⟨0, false, true⟩ = some s' ∧ s'.pc = .returned .ok ∧
      s'.opened = [5] ∧
      (s'.closed = s'.opened ↔ Tidy alone () ⟨false, false, false⟩ s ⟨0, false, true⟩) := by
  have hrun : run (State.step alone () ⟨false, false, false⟩) unlocked
      [.go ⟨0, false, true⟩, .go ⟨5, false, true⟩, .go ⟨0, false, true⟩] =
      some { unlocked with pc := .futex, fd := 5, opened := [5], closed := [5] } := rfl
  have hs := reachable_of_run (.init unlocked_initial) hrun
  refine ⟨_, _, hs, rfl, rfl, rfl, ?_⟩
  exact descriptors_closed_iff _ _ _ _ hs ⟨0, false, true⟩ _ rfl .ok rfl

/-- `pthread_mutex_trylock` on a mutex that is not locked while its futex is still taken: the
call returns `EBUSY` with a descriptor that it does not close. -/
theorem trylock_leaks_descriptor :
    ∃ s : State Unit, Reachable (State.step alone () ⟨true, false, false⟩) Always Initial s ∧
      s.pc = .returned .ebusy ∧ s.opened = [5] ∧ s.closed = [] := by
  have hrun : run (State.step alone () ⟨true, false, false⟩) unlocked
      [.go ⟨0, false, true⟩, .go ⟨5, false, true⟩] =
      some { unlocked with pc := .returned .ebusy, fd := 5, opened := [5] } := rfl
  exact ⟨_, reachable_of_run (.init unlocked_initial) hrun, rfl, rfl, rfl⟩

/-! ## The sections of the shared mutex -/

/-- A call, a place of the shared mutex and a place here. -/
inductive Fits : Call → Shared.Pc → Pc → Prop where
  | start (c : Call) : Fits c (.start c.tryonly c.extra c.bounded) .start
  | first (c : Call) : Fits c (.first c.tryonly c.extra c.bounded) .first
  | futex (extra bounded : Bool) : Fits ⟨false, extra, bounded⟩ (.futex extra bounded) .futex
  | event (extra : Bool) : Fits ⟨false, extra, false⟩ (.event extra) .wait
  | select (extra : Bool) : Fits ⟨false, extra, true⟩ (.select extra) .wait
  | acquired (c : Call) (rc : Errno) : Fits c (.acquired rc) (.returned rc)

/-- `x` is the call that `t` is in. -/
structure Simulates (c : Call) (t : T) (σ : Shared.State T P) (x : State P) : Prop where
  mutex : x.mutex = σ.mutex
  pc    : Fits c (σ.pc t) x.pc

/-- What the environment answers `t` with. -/
def outcome (σ : Shared.State T P) (t : T) (occurred : Bool) : Outcome where
  result    := match σ.futex.pc t with
    | .returned _ fd => fd
    | _ => 0
  killFails := σ.killFails σ.mutex.ownerPid
  occurred  := occurred

variable {σ σ' : Shared.State T P} {x : State P} {occurred extra bounded : Bool} {p : Shared.Pc}

theorem follows {τ : Shared.State T P} {y : State P} (h : Simulates c t τ y)
    (hτ : some τ = some σ') : ∃ x', some y = some x' ∧ Simulates c t σ' x' := by
  cases hτ
  exact ⟨y, rfl, h⟩

variable [DecidableEq T]

theorem Simulates.goto (hs : σ'.pc = update σ.pc t p) (hm : x.mutex = σ'.mutex)
    (hfits : Fits c p x.pc) : Simulates c t σ' x := by
  refine ⟨hm, ?_⟩
  rw [hs, update_self]
  exact hfits

theorem simulates_await (hm : x.mutex = σ.mutex) :
    Simulates ⟨false, extra, bounded⟩ t (σ.wait t extra bounded)
      (x.await ⟨false, extra, bounded⟩) := by
  unfold Shared.State.wait State.await
  rw [hm]
  cases bounded with
  | false => exact .goto rfl rfl (.event extra)
  | true => exact .goto rfl rfl (.select extra)

theorem simulates_resume (mutex : SharedMutex P) :
    Simulates ⟨false, extra, bounded⟩ t (σ.resume t extra bounded mutex) (x.resume mutex) := by
  unfold Shared.State.resume State.resume
  split
  · exact .goto rfl rfl (.acquired _ _)
  · exact .goto rfl rfl (.futex extra bounded)

variable [DecidableEq P]

theorem simulates_contend (hm : x.mutex = σ.mutex) (needFutex : Bool) :
    Simulates c t (σ.contend w t c.tryonly c.extra c.bounded needFutex)
      (x.contend w t c (σ.killFails σ.mutex.ownerPid) needFutex) := by
  obtain ⟨tryonly, extra, bounded⟩ := c
  unfold Shared.State.contend State.contend
  rw [hm]
  simp only
  split
  · split <;> exact .goto rfl rfl (.acquired _ _)
  cases tryonly with
  | true => exact .goto rfl rfl (.acquired _ _)
  | false =>
    simp only [Bool.false_eq_true, if_false]
    split
    · exact .goto rfl rfl (.acquired _ _)
    split
    · exact .goto rfl rfl (.futex extra bounded)
    · exact simulates_await hm

/-- **A section of `t` in `Ngpt.Sync.Shared` is one of the call here.** -/
theorem go_projects (h : Simulates c t σ x) : σ.go w t occurred = some σ' →
    ∃ x', x.go w t c (outcome σ t occurred) = some x' ∧ Simulates c t σ' x' := by
  obtain ⟨hm, hfits⟩ := h
  generalize hp : σ.pc t = p at hfits
  generalize hq : x.pc = q at hfits
  cases hfits <;> simp only [Shared.State.go, State.go, hp, hq, hm]
  case start =>
    split_ifs
    · exact follows (.goto rfl rfl (.first c))
    · exact follows (simulates_contend hm true)
  case first =>
    split
    case h_2 => exact fun h => by cases h
    case h_1 fd hfd =>
      simp only [outcome, hfd]
      split_ifs
      · exact follows (simulates_contend (x := x.got fd) hm false)
      · exact follows (.goto rfl rfl (.acquired _ _))
      · exact follows (.goto rfl rfl (.acquired _ _))
  case futex extra bounded =>
    split
    case h_2 => exact fun h => by cases h
    case h_1 fd hfd =>
      simp only [outcome, hfd]
      split_ifs
      · exact follows (.goto rfl rfl (.acquired _ _))
      · exact follows (.goto rfl rfl (.acquired _ _))
      · exact follows (simulates_await hm)
  case event extra =>
    cases extra <;> cases occurred
    case true.false => exact follows (.goto rfl rfl (.acquired _ _))
    all_goals exact follows (simulates_resume _)
  case select extra => exact follows (simulates_resume _)
  case acquired rc => exact fun h => by cases h

end Ngpt.Sync.FutexFd
