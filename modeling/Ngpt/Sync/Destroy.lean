import Ngpt.Sync.Contract

/-!
# ngpt — the end of a private mutex (`pthread_mutex_destroy`, `pthread.c`)

`pthread_mutex_destroy` looks at the mutex under `mx_lock`. One that is locked by the caller
it unlocks, once, and one that somebody else has locked it refuses; then, without a lock and
without another look, it frees the memory. The threads that lock and unlock are those of
`Ngpt.Sync.Mutex`, and a destroy may come between any two of their pieces.

A recursive mutex that its owner has locked twice is still locked after the unlock, and so
is one that another thread takes before the memory is freed.

Left out are what only shared mutexes have (`PTH_MUTEX_NOT_CONSISTENT`, `pth_mutex_destroy`).
A thread that goes on in the code of a mutex that has been freed runs in memory that is not
its own, and no step is given for that.

Results: `destroyed_unowned`, `destroy_leaves_owner`.
-/

namespace Ngpt.Sync.Destroy

open LinkedRing Transition

/-- Where a thread is in `pthread_mutex_destroy`: before the test, or after it; then it may
have to unlock the mutex before it goes on. -/
inductive Pc (Mid : Type) where
  | outside
  | test (m : Mid)
  | finish (m : Mid)
  deriving DecidableEq, Repr

/-- `freed m`: the memory of `m` has been freed, and `mx_init` is `FALSE`. -/
structure State (Mid Tid D : Type) where
  sys   : Sys Mid Tid D
  pc    : Tid → Pc Mid
  freed : Mid → Bool
  rc    : Tid → Option Errno

inductive Action (Mid Tid D : Type) where
  | mutex (a : Sync.Action Mid Tid D)
  | destroy (t : Tid) (m : Mid)
  | go (t : Tid)
  deriving DecidableEq, Repr

variable {Mid Tid D : Type} {s s' : State Mid Tid D} {ms : Sys Mid Tid D} {t u : Tid} {m : Mid}
  {inTable : Mid → Bool} {occurred : Bool}

/-- The mutex whose code a thread is in. -/
def inCodeOf : Sync.Pc Mid → Option Mid
  | .acquire m _ _ _ | .waitEvent m _ | .waitSelect m => some m
  | .releaseState m | .releaseOwner m | .releaseLock m => some m
  | .idle | .returned _ => none

theorem inCodeOf_of_wants {pc : Sync.Pc Mid} {extra : Bool} (h : pc.wants = some (m, extra)) :
    inCodeOf pc = some m := by
  cases pc <;> simp_all [Sync.Pc.wants, inCodeOf]

/-! ## The invariant -/

/-- Nobody is in `pthread_mutex_destroy`, and nothing has been freed. -/
structure Initial (s : State Mid Tid D) : Prop where
  sys   : Sync.Initial s.sys
  pc    : ∀ t, s.pc t = .outside
  freed : ∀ m, s.freed m = false

/-- A thread that is past the test is about to unlock the mutex for the last time, or nobody
owns it. -/
def Finishing (s : State Mid Tid D) (t : Tid) (m : Mid) : Prop :=
  ((s.sys.pc t).releases = some m ∧ (s.sys.mem.mutex m).OwnedOnce t) ∨
    ((s.sys.pc t).outside = true ∧ (s.sys.mem.mutex m).owner = none)

structure Inv (s : State Mid Tid D) : Prop where
  sys    : Sync.Inv s.sys
  finish : ∀ t m, s.pc t = .finish m → Finishing s t m
  test   : ∀ t m, s.pc t = .test m → (s.sys.pc t).outside = true
  freed  : ∀ m, s.freed m = true → (s.sys.mem.mutex m).owner = none

theorem Initial.inv (h : Initial s) : Inv s where
  sys    := h.sys.inv
  finish := fun t m ht => by
    rw [h.pc t] at ht
    cases ht
  test   := fun t m ht => by
    rw [h.pc t] at ht
    cases ht
  freed  := fun m hm => by
    rw [h.freed m] at hm
    cases hm

/-- Recursive mutexes, and nothing has happened yet. -/
def init : State Mid Tid D where
  sys   := initSys .recursiveNp
  pc    := fun _ => .outside
  freed := fun _ => false
  rc    := fun _ => none

theorem init_initial : Initial (init : State Mid Tid D) :=
  ⟨initSys_initial .recursiveNp, fun _ => rfl, fun _ => rfl⟩

variable [DecidableEq Tid]

def State.goto (s : State Mid Tid D) (t : Tid) (pc : Pc Mid) : State Mid Tid D :=
  { s with pc := Function.update s.pc t pc }

/-- `pthread_mutex_destroy` returns. -/
def State.ret (s : State Mid Tid D) (t : Tid) (rc : Errno) : State Mid Tid D :=
  { s.goto t .outside with rc := Function.update s.rc t (some rc) }

theorem Inv.goto {pc : Pc Mid} (hI : Inv s) (hfin : ∀ m, pc = .finish m → Finishing s t m)
    (htest : ∀ m, pc = .test m → (s.sys.pc t).outside = true) : Inv (s.goto t pc) where
  sys    := hI.sys
  finish := fun u m hu => by
    by_cases hut : u = t
    · subst hut
      exact hfin m (by simpa [State.goto] using hu)
    · exact hI.finish u m (by simpa [State.goto, hut] using hu)
  test   := fun u m hu => by
    by_cases hut : u = t
    · subst hut
      exact htest m (by simpa [State.goto] using hu)
    · exact hI.test u m (by simpa [State.goto, hut] using hu)
  freed  := hI.freed

theorem Inv.ret (hI : Inv s) (rc : Errno) : Inv (s.ret t rc) := by
  have h : Inv (s.goto t .outside) := hI.goto (fun _ h => nomatch h) (fun _ h => nomatch h)
  exact ⟨h.sys, h.finish, h.test, h.freed⟩

theorem Inv.unlock (hI : Inv s) (hown : (s.sys.mem.mutex m).OwnedOnce t) :
    Inv { s.goto t (.finish m) with sys := s.sys.goto t (.releaseState m) } where
  sys    := hI.sys.goto (Same.refl _) (fun _ h => nomatch h)
  finish := fun u k hu => by
    by_cases hut : u = t
    · subst hut
      obtain rfl : m = k := by simpa [State.goto] using hu
      exact Or.inl ⟨by simp [Sys.goto, Sync.Pc.releases], hown⟩
    · have h := hI.finish u k (by simpa [State.goto, hut] using hu)
      simpa [Finishing, Sys.goto, hut] using h
  test   := fun u k hu => by
    by_cases hut : u = t
    · subst hut
      simp [State.goto] at hu
    · have h := hI.test u k (by simpa [State.goto, hut] using hu)
      simpa [Sys.goto, hut] using h
  freed  := hI.freed

/-! ## The code -/

variable [DecidableEq Mid]

/-- The test. The lock is itself the mutex if it has `PTH_MUTEX_INTERNAL_LOCKED`. -/
def State.test (s : State Mid Tid D) (t : Tid) (m : Mid) : Option (State Mid Tid D) :=
  let mx := s.sys.mem.mutex m
  if mx.internalLocked ∧ mx.qlock ≠ none then none
  else if mx.locked then
    if mx.owner = some t then
      some { s.goto t (.finish m) with sys := s.sys.goto t (.releaseState m) }
    else some (s.ret t .ebusy)
  else some (s.goto t (.finish m))

/-- The tests after which a step gives `m` to its thread. -/
def takes (s : Sys Mid Tid D) (a : Sync.Action Mid Tid D) (m : Mid) : Bool :=
  let mx := s.mem.mutex m
  match a with
  | .go t occurred =>
    match s.pc t with
    | .acquire k _ _ _ => k = m && !mx.internalLocked && !mx.locked && mx.waitcount = 0
    | .waitEvent k extra => k = m && !(extra && !occurred) && !mx.locked
    | .waitSelect k => k = m && !mx.locked
    | _ => false
  | _ => false

/-- The condition on a step: an owner that destroys its mutex has locked it once, and no
thread takes a mutex while another one is about to free it. -/
def Undisturbed (s : State Mid Tid D) : Action Mid Tid D → Prop
  | .mutex a => ∀ t m, s.pc t = .finish m → takes s.sys a m = false
  | .destroy _ _ => True
  | .go t => ∀ m, s.pc t = .test m → (s.sys.mem.mutex m).owner = some t →
      (s.sys.mem.mutex m).count = 1

theorem Inv.tested (hI : Inv s) (hok : Undisturbed s (.go t)) (hpc : s.pc t = .test m)
    (h : s.test t m = some s') : Inv s' := by
  have hout := hI.test t m hpc
  unfold State.test at h
  simp only at h
  split_ifs at h with hlock hl hown
  · cases h
    exact hI.unlock ⟨hown, hok m hpc hown⟩
  · cases h
    exact hI.ret .ebusy
  · cases h
    refine hI.goto (fun k hk => ?_) (fun _ h => nomatch h)
    obtain rfl := Pc.finish.inj hk
    exact Or.inr ⟨hout, hI.sys.owner_none (by simpa using hl)⟩

theorem acquired_mem (sys : Sys Mid Tid D) (q : Sync.Pc Mid) (r : Option Errno × Mem Mid Tid D) :
    (sys.acquired t m q r).mem = r.2 := by
  obtain ⟨_ | rc, mem⟩ := r
  · rfl
  · simp only [Sys.acquired]
    split <;> rfl

theorem acquireEnter_owner {mem : Mem Mid Tid D} {tryonly bounded : Bool}
    (h : ¬ ((mem.mutex m).locked = false ∧ (mem.mutex m).waitcount = 0)) :
    ((mem.acquireEnter t m tryonly bounded).2.mutex m).owner = (mem.mutex m).owner := by
  simp only [Mem.acquireEnter, if_neg h]
  repeat' split
  all_goals simp [Mem.addWaiter, Mem.setMutex]

theorem acquireResume_owner {mem : Mem Mid Tid D} (bounded : Bool)
    (h : (mem.mutex m).locked = true) :
    ((mem.acquireResume t m bounded).2.mutex m).owner = (mem.mutex m).owner := by
  cases bounded <;> simp [Mem.acquireResume, Mem.removeWaiter, Mem.addWaiter, Mem.setMutex, h]

variable [DecidableEq D]

namespace State

/-- A step of the mutex code does not meet a mutex that has been freed, and a call comes
from a thread that is not in `pthread_mutex_destroy`. -/
def mayDo (s : State Mid Tid D) : Sync.Action Mid Tid D → Bool
  | .acquire t m _ _ _ | .release t m => s.pc t = .outside ∧ s.freed m = false
  | .go t _ => (inCodeOf (s.sys.pc t)).all fun m => !s.freed m
  | .natives _ | .bind _ _ | .park _ _ => true

/-- One step; `inTable m` says that the mutex is one of `init_mutex`, which are not freed. -/
def step (inTable : Mid → Bool) (s : State Mid Tid D) : Action Mid Tid D → Option (State Mid Tid D)
  | .mutex a =>
    if s.mayDo a then (s.sys.step a).map fun sys => { s with sys := sys } else none
  | .destroy t m =>
    if s.pc t = .outside ∧ (s.sys.pc t).outside then
      if s.freed m then some (s.ret t .einval) else some (s.goto t (.test m))
    else none
  | .go t =>
    match s.pc t with
    | .outside => none
    | .test m => if s.freed m then none else s.test t m
    | .finish m =>
      if s.freed m ∨ (s.sys.pc t).outside = false then none
      else if inTable m then some (s.ret t .ok)
      else some { s.ret t .ok with freed := Function.update s.freed m true }

end State

/-! ## Runs -/

/-- A mutex without an owner still has none after a step that does not take it. -/
theorem owner_of_not_takes {sys : Sys Mid Tid D} (htakes : takes sys (.go t occurred) m = false)
    (hgo : sys.go t occurred = some ms) (hnone : (sys.mem.mutex m).owner = none) :
    (ms.mem.mutex m).owner = none := by
  cases howner : (ms.mem.mutex m).owner with
  | none => rfl
  | some v =>
    rcases (piece_of_go hgo).owner_of_owner howner with h | ⟨rfl, extra, hw⟩
    · rw [hnone] at h
      cases h
    · -- the thread wants the mutex, and one of the tests has failed
      rw [← hnone, ← howner]
      cases hq : sys.pc t <;> rw [hq] at hw <;> cases hw <;>
        simp only [takes, hq, decide_true, Bool.true_and] at htakes <;>
        simp only [Sys.go, hq] at hgo
      case some.inr.acquire.refl =>
        split at hgo
        · obtain ⟨-, ⟨⟩⟩ := Option.ite_none_right_eq_some.mp hgo
          simp [Mem.setMutex]
        next hintern =>
          cases hgo
          rw [acquired_mem, acquireEnter_owner fun hfree => ?_]
          simp [hintern, hfree] at htakes
      case some.inr.waitEvent.refl =>
        split at hgo <;> cases hgo
        · rfl
        next hback =>
          rw [acquired_mem, acquireResume_owner]
          simpa [hback] using htakes
      case some.inr.waitSelect.refl =>
        cases hgo
        rw [acquired_mem, acquireResume_owner]
        simpa using htakes

theorem step_frame {a : Sync.Action Mid Tid D} (hmay : s.mayDo a = true)
    (hstep : s.sys.step a = some ms) :
    (∃ t occurred, a = .go t occurred) ∨
      (ms.mem.mutex = s.sys.mem.mutex ∧ ∀ u, s.pc u ≠ .outside → ms.pc u = s.sys.pc u) := by
  -- a call is made by a thread that destroys none
  have hcall : ∀ t pc, s.pc t = .outside → ∀ u, s.pc u ≠ .outside →
      (s.sys.goto t pc).pc u = s.sys.pc u := by
    intro t pc hout u hu
    refine Function.update_of_ne ?_ ..
    rintro rfl
    exact hu hout
  cases a with
  | go t occurred => exact Or.inl ⟨t, occurred, rfl⟩
  | acquire t m | release t m =>
    simp only [Sys.step, Option.ite_none_right_eq_some, Option.some.injEq] at hstep
    obtain ⟨-, rfl⟩ := hstep
    obtain ⟨hout, -⟩ : s.pc t = .outside ∧ s.freed m = false := by
      simpa [State.mayDo] using hmay
    exact Or.inr ⟨rfl, hcall t _ hout⟩
  | natives | bind | park =>
    cases hstep
    exact Or.inr ⟨rfl, fun _ _ => rfl⟩

theorem owner_of_freed (hmay : s.mayDo (.go t occurred) = true)
    (hgo : s.sys.go t occurred = some ms) (hfreed : s.freed m = true)
    (hnone : (s.sys.mem.mutex m).owner = none) : (ms.mem.mutex m).owner = none := by
  cases howner : (ms.mem.mutex m).owner with
  | none => rfl
  | some v =>
    rcases (piece_of_go hgo).owner_of_owner howner with h | ⟨rfl, extra, hw⟩
    · rw [hnone] at h
      cases h
    · simp [State.mayDo, inCodeOf_of_wants hw, hfreed] at hmay

theorem go_of_outside {s : Sys Mid Tid D} (h : (s.pc t).outside = true) :
    s.go t occurred = none := by
  cases hq : s.pc t <;> simp_all [Sys.go, Sync.Pc.outside]

theorem Finishing.go (hI : Sync.Inv s.sys) (hgo : s.sys.go t occurred = some ms)
    (htakes : takes s.sys (.go t occurred) m = false) (h : Finishing s u m) :
    Finishing { s with sys := ms } u m := by
  have hp := piece_of_go hgo
  by_cases hut : u = t
  · subst hut
    rcases h with ⟨hrel, hown⟩ | ⟨hout, -⟩
    · rcases go_releasing hI hrel hown hgo with hstill | ⟨hret, hnone⟩
      · exact Or.inl hstill
      · refine Or.inr ⟨?_, hnone⟩
        rw [hret]
        rfl
    · rw [go_of_outside hout] at hgo
      cases hgo
  · have hpc : ms.pc u = s.sys.pc u := hp.pc_of_ne hut
    unfold Finishing
    rw [hpc]
    rcases h with ⟨hrel, hown⟩ | ⟨hout, hnone⟩
    · exact Or.inl ⟨hrel, hp.ownedOnce hI (Ne.symm hut) hown⟩
    · exact Or.inr ⟨hout, owner_of_not_takes htakes hgo hnone⟩

theorem Inv.mutex {a : Sync.Action Mid Tid D} (hI : Inv s) (hok : Undisturbed s (.mutex a))
    (hmay : s.mayDo a = true) (hstep : s.sys.step a = some ms) : Inv { s with sys := ms } := by
  have hsys := step_inv hI.sys hstep
  rcases step_frame hmay hstep with ⟨t, occurred, rfl⟩ | ⟨hmx, hpc⟩
  · refine ⟨hsys, fun u m hu => ?_, fun u m hu => ?_, fun m hm => ?_⟩
    · exact (hI.finish u m hu).go hI.sys hstep (hok u m hu)
    · have hout := hI.test u m hu
      have hut : u ≠ t := by
        rintro rfl
        have hnone : s.sys.go u occurred = none := go_of_outside hout
        rw [show s.sys.go u occurred = some ms from hstep] at hnone
        cases hnone
      show (ms.pc u).outside = true
      rw [(piece_of_go hstep).pc_of_ne hut]
      exact hout
    · exact owner_of_freed hmay hstep hm (hI.freed m hm)
  · refine ⟨hsys, fun u m hu => ?_, fun u m hu => ?_, fun m hm => ?_⟩
    · have h := hI.finish u m hu
      unfold Finishing at h ⊢
      rwa [show ms.pc u = s.sys.pc u from hpc u (by rw [hu]; exact nofun), hmx]
    · show (ms.pc u).outside = true
      rw [hpc u (by rw [hu]; exact nofun)]
      exact hI.test u m hu
    · show (ms.mem.mutex m).owner = none
      rw [hmx]
      exact hI.freed m hm

theorem Inv.step {a : Action Mid Tid D} (hI : Inv s) (hok : Undisturbed s a)
    (h : s.step inTable a = some s') : Inv s' := by
  cases a with
  | mutex a =>
    simp only [State.step, Option.ite_none_right_eq_some] at h
    obtain ⟨hmay, h⟩ := h
    obtain ⟨ms, hstep, rfl⟩ := Option.map_eq_some_iff.mp h
    exact hI.mutex hok hmay hstep
  | destroy t m =>
    simp only [State.step, Option.ite_none_right_eq_some] at h
    obtain ⟨⟨-, hout⟩, h⟩ := h
    split at h
    · cases h
      exact hI.ret .einval
    · cases h
      exact hI.goto (fun _ h => nomatch h) fun _ _ => hout
  | go t =>
    simp only [State.step] at h
    cases hpc : s.pc t with
    | outside => simp [hpc] at h
    | test m =>
      simp only [hpc, Option.ite_none_left_eq_some] at h
      exact hI.tested hok hpc h.2
    | finish m =>
      simp only [hpc, Option.ite_none_left_eq_some, not_or, Bool.not_eq_false] at h
      obtain ⟨⟨-, hout⟩, h⟩ := h
      split at h
      · cases h
        exact hI.ret .ok
      · cases h
        -- the mutex has been unlocked, if it had to be
        have hnone : (s.sys.mem.mutex m).owner = none := by
          rcases hI.finish t m hpc with ⟨hrel, -⟩ | ⟨-, hnone⟩
          · cases hq : s.sys.pc t <;> simp [hq, Sync.Pc.releases, Sync.Pc.outside] at hrel hout
          · exact hnone
        have hret := hI.ret (t := t) .ok
        refine ⟨hret.sys, hret.finish, hret.test, fun k hk => ?_⟩
        by_cases hkm : k = m
        · rw [hkm]
          exact hnone
        · exact hI.freed k (by simpa [hkm] using hk)

/-- `t` has `m` neither as its `mutex_owned` nor in its `mutexring`. -/
def Unreferenced (mem : Mem Mid Tid D) (t : Tid) (m : Mid) : Prop :=
  (mem.thread t).mutexOwned ≠ some m ∧
    ∃ xs, RingOf mem.rn (mem.thread t).mutexring xs ∧ m ∉ xs

/-- **Destroyed mutexes are owned by nobody**, in runs in which an owner that destroys its
mutex has locked it once, and no thread takes a mutex between the test of a destroy and its
end. -/
theorem destroyed_unowned (inTable : Mid → Bool) (s : State Mid Tid D)
    (hs : Reachable (State.step inTable) Undisturbed Initial s) (m : Mid)
    (hfreed : s.freed m = true) (t : Tid) : Unreferenced s.sys.mem t m := by
  have hI : Inv s := hs.invariant (fun _ h => h.inv) fun _ _ _ hI hok h => hI.step hok h
  obtain ⟨xs, hb⟩ := hI.sys.sound.books t
  obtain ⟨hne, hm⟩ := hb.notMem_of_free (hI.freed m hfreed)
  exact ⟨hne, xs, hb.ring, hm⟩

/-- A thread locks a mutex `n` times and destroys it. -/
def lockAndDestroy (t : Tid) (m : Mid) (n : Nat) : List (Action Mid Tid D) :=
  (List.replicate n [.mutex (.acquire t m false false false), .mutex (.go t true)]).flatten ++
    ([.destroy t m, .go t, .mutex (.go t true), .mutex (.go t true), .mutex (.go t true),
      .go t] : List (Action Mid Tid D))

instance (s : State Bool Bool Unit) : DecidablePred (Undisturbed s) := by
  intro a
  rcases a <;> dsimp only [Undisturbed] <;> infer_instance

theorem destroyed_unowned_once :
    ∃ s : State Bool Bool Unit, Reachable (State.step fun _ => false) Undisturbed Initial s ∧
      s.freed true = true ∧ s.rc false = some .ok ∧ Unreferenced s.sys.mem false true := by
  refine exists_and_of_any₂ (o := runOk _ _ init (lockAndDestroy false true 1))
    (fun _ => reachable_of_runOk (.init init_initial)) (by decide +kernel) fun s hs hfreed _ => ?_
  exact destroyed_unowned _ s hs true hfreed false

/-- A thread locks a recursive mutex twice and destroys it. The call returns 0 and frees the
mutex, which is still the thread's `mutex_owned`. -/
theorem destroy_leaves_owner :
    ∃ s : State Bool Bool Unit, Reachable (State.step fun _ => false) Always Initial s ∧
      s.freed true = true ∧ s.rc false = some .ok ∧
      (s.sys.mem.thread false).mutexOwned = some true := by
  exact exists_reachable init_initial (lockAndDestroy false true 2) (by decide +kernel)

end Ngpt.Sync.Destroy
