import Ngpt.Sync.SharedExcl

/-!
# ngpt — who may release a shared mutex

`pth_shared_mutex_acquire` recognises its own mutex by `mx_owner` and `mx_owner_pid`;
`pth_mutex_release` compares `mx_owner` only. A thread of another process whose control
block has the same address passes that test.

A watched run remembers of each release whether its caller was the pair on record when
it called, and whether the call has changed the mutex or the futex word.

Result: `shared_release_by_owner`.
-/

namespace Ngpt.Sync.Shared

open Function Transition

variable {T P : Type}

section

variable [DecidableEq T] [DecidableEq P]

/-- `t` and its process are `mx_owner` and `mx_owner_pid`. -/
def State.onRecord (w : Threads T P) (s : State T P) (t : T) : Bool :=
  s.mutex.owner = some (w.ptr t) && s.mutex.ownerPid = w.pid t

/-- The mutex or the futex word differ. -/
def State.differs (s s' : State T P) : Bool :=
  s'.mutex ≠ s.mutex || s'.futex.count ≠ s.futex.count

/-- A run with what has been seen of the last release of each thread. -/
structure Watched (T P : Type) where
  now     : State T P
  asked   : T → Bool
  touched : T → Bool

def Watched.step (w : Threads T P) (s : Watched T P) (a : Action T) : Option (Watched T P) :=
  (s.now.step w a).map fun now =>
    match a with
    | .release t =>
      ⟨now, update s.asked t (s.now.onRecord w t), update s.touched t false⟩
    | .go t _ | .futex t _ =>
      ⟨now, s.asked, update s.touched t (s.touched t || s.now.differs now)⟩
    | _ => ⟨now, s.asked, s.touched⟩

/-- What `pth_mutex_release` promises: 0 for the pair on record only, and `EPERM` with
nothing changed for everybody else. The count is decremented for the pair on record. -/
structure ByOwner (w : Threads T P) (s : Watched T P) : Prop where
  success   : ∀ t, s.now.pc t = .released .ok → s.asked t = true
  refusal   : ∀ t rc, s.now.pc t = .released rc → s.asked t = false →
    rc = .eperm ∧ s.touched t = false
  decrement : ∀ t, s.now.pc t = .releaseLock → s.now.onRecord w t = true

/-- The conditions on a step: those of `Careful` on the futex, and a release that passes
the test of `mx_owner` is made in the process on record. -/
def Matched (w : Threads T P) (s : State T P) : Action T → Prop
  | .futex t result => Futex.futexPassed < s.futex.count ∧
      (s.futex.pc t = .await → result ≠ 0 ∧ ((s.pc t).uncontended = true → -1 ≤ result))
  | .go t _ => s.pc t = .releaseOwner → s.mutex.owner = some (w.ptr t) →
      s.mutex.ownerPid = w.pid t
  | _ => True

instance (w : Threads T P) (s : State T P) (a : Action T) : Decidable (Matched w s a) := by
  rcases a <;> dsimp only [Matched] <;> infer_instance

end

/-! ## The invariant -/

/-- A place of `pth_mutex_release`, or its end. -/
def Pc.inRelease : Pc → Bool
  | .releaseState | .releaseOwner | .releaseLock | .releaseFutex | .released _ => true
  | _ => false

/-- What is known of one thread: a release that has not been decided yet is watched
with what `mx_owner` and `mx_owner_pid` are now. -/
structure Trace (w : Threads T P) (s : Watched T P) (t : T) : Prop where
  testing : s.now.pc t = .releaseState ∨ s.now.pc t = .releaseOwner →
    s.asked t = s.now.owns t ∧ s.touched t = false
  granted : s.now.pc t = .releaseLock ∨ s.now.pc t = .releaseFutex → s.asked t = true
  ended   : ∀ rc, s.now.pc t = .released rc →
    (rc = .ok ∧ s.asked t = true) ∨ (rc = .eperm ∧ s.asked t = false ∧ s.touched t = false)

/-- The invariant: a release in progress is that of the pair on record. -/
structure Traced (w : Threads T P) (s : Watched T P) : Prop where
  held  : Held w s.now
  trace : ∀ t, Trace w s t

variable {w : Threads T P} {s s' : State T P} {x x' : Watched T P} {t u : T} {a : Action T}

theorem trace_of_elsewhere (hpc : (x.now.pc t).inRelease = false) : Trace w x t := by
  refine ⟨?_, ?_, fun rc hrc => ?_⟩
  · rintro (h | h) <;> simp [h, Pc.inRelease] at hpc
  · rintro (h | h) <;> simp [h, Pc.inRelease] at hpc
  · simp [hrc, Pc.inRelease] at hpc

theorem Trace.congr (h : Trace w x u) (hfits : Fits w x.now u) (hpc : x'.now.pc u = x.now.pc u)
    (hasked : x'.asked u = x.asked u) (htouched : x'.touched u = x.touched u)
    (howns : x'.now.owns u = x.now.owns u ∨ x.now.dead (w.pid u) = true) : Trace w x' u := by
  refine ⟨fun hp => ?_, fun hp => ?_, fun rc hp => ?_⟩
  · rw [hpc] at hp
    rcases howns with howns | hdead
    · rw [hasked, htouched, howns]
      exact h.testing hp
    · -- the dead are in no call
      rw [(hfits.dead hdead).1] at hp
      rcases hp with hp | hp <;> cases hp
  · rw [hpc] at hp
    rw [hasked]
    exact h.granted hp
  · rw [hpc] at hp
    rw [hasked, htouched]
    exact h.ended rc hp

theorem Initial.traced {robust : Bool} (h : Initial robust x.now) : Traced w x :=
  ⟨h.held, fun t => trace_of_elsewhere (by rw [h.pc t]; rfl)⟩

/-! ## The pair on record -/

section

variable [DecidableEq P]

theorem onRecord_iff : s.onRecord w t = true ↔
    s.mutex.owner = some (w.ptr t) ∧ s.mutex.ownerPid = w.pid t := by
  simp [State.onRecord]

theorem Held.onRecord_eq (h : Held w s) (t : T) : s.onRecord w t = s.owns t := by
  rw [Bool.eq_iff_iff, onRecord_iff]
  constructor
  · rintro ⟨howner, hpid⟩
    obtain ⟨u, hu⟩ := h.owner (by rw [hpid]; exact w.pid_ne t)
    obtain ⟨-, -, howner', hpid'⟩ := h.owns u hu
    have hptr : w.ptr u = w.ptr t := Option.some.inj (howner'.symm.trans howner)
    rw [← w.distinct u t hptr (hpid'.symm.trans hpid)]
    exact hu
  · intro ht
    exact (h.owns t ht).2.2

theorem Matched.careful (hok : Matched w s a) (h : Held w s) : Careful w s a := by
  cases a with
  | go t occurred =>
    intro hpc howner
    rw [← h.onRecord_eq, onRecord_iff]
    exact ⟨howner, hok hpc howner⟩
  | futex => exact hok
  | _ => trivial

theorem Traced.byOwner (h : Traced w x) : ByOwner w x := by
  refine ⟨fun t hpc => ?_, fun t rc hpc hasked => ?_, fun t hpc => ?_⟩
  · rcases (h.trace t).ended .ok hpc with ⟨-, hasked⟩ | ⟨hrc, -⟩
    · exact hasked
    · cases hrc
  · rcases (h.trace t).ended rc hpc with ⟨-, hasked'⟩ | ⟨hrc, -, htouched⟩
    · cases hasked.symm.trans hasked'
    · exact ⟨hrc, htouched⟩
  · rw [h.held.onRecord_eq]
    exact (h.held.fits t).releasing hpc

end

/-! ## The sections of an acquire -/

/-- A section of `t` that neither starts nor goes on with a release. -/
structure Elsewhere (w : Threads T P) (s : State T P) (t : T) (s' : State T P) : Prop where
  pc     : (s'.pc t).inRelease = false
  others : ∀ u, u ≠ t → s'.pc u = s.pc u
  owns   : ∀ u, u ≠ t → s'.owns u = s.owns u ∨ s.dead (w.pid u) = true

variable [DecidableEq T]

theorem elsewhere_goto {q : Pc} (hq : q.inRelease = false) (hs : s'.pc = update s.pc t q)
    (howns : ∀ u, u ≠ t → s'.owns u = s.owns u ∨ s.dead (w.pid u) = true) :
    Elsewhere w s t s' := by
  refine ⟨?_, fun u hu => ?_, howns⟩
  · rw [hs, update_self]
    exact hq
  · rw [hs, update_of_ne hu]

theorem elsewhere_ret (rc : Errno) (tryonly extra took : Bool) (mutex : SharedMutex P) :
    Elsewhere w s t (s.ret t rc tryonly extra took mutex) :=
  elsewhere_goto rfl rfl fun _ hu => Or.inl (update_of_ne hu _ _)

theorem elsewhere_takeOver (extra : Bool) : Elsewhere w s t (s.takeOver w t extra) := by
  refine elsewhere_goto rfl rfl fun u hu => ?_
  by_cases hdead : s.dead (w.pid u) = true
  · exact Or.inr hdead
  · exact Or.inl (by simp [State.takeOver, State.ret, hu, hdead])

theorem elsewhere_wait (extra bounded : Bool) : Elsewhere w s t (s.wait t extra bounded) := by
  unfold State.wait
  split <;> exact elsewhere_goto rfl rfl fun _ _ => Or.inl rfl

theorem elsewhere_resume (extra bounded : Bool) (mutex : SharedMutex P) :
    Elsewhere w s t (s.resume t extra bounded mutex) := by
  unfold State.resume
  split
  · exact elsewhere_ret ..
  · exact elsewhere_goto rfl rfl fun _ _ => Or.inl rfl

theorem Traced.others (h : Traced w x) (hut : u ≠ t) (hpc : x'.now.pc u = x.now.pc u)
    (hasked : x'.asked u = x.asked u)
    (htouched : ∃ b, x'.touched = update x.touched t b)
    (howns : x'.now.owns u = x.now.owns u ∨ x.now.dead (w.pid u) = true) : Trace w x' u := by
  obtain ⟨b, hb⟩ := htouched
  refine (h.trace u).congr (h.held.fits u) hpc hasked ?_ howns
  rw [hb, update_of_ne hut]

variable [DecidableEq P]

theorem elsewhere_contend (tryonly extra bounded needFutex : Bool) :
    Elsewhere w s t (s.contend w t tryonly extra bounded needFutex) := by
  simp only [State.contend]
  split
  · split <;> exact elsewhere_ret ..
  split
  · exact elsewhere_ret ..
  split
  · exact elsewhere_takeOver extra
  split
  · exact elsewhere_goto rfl rfl fun _ _ => Or.inl rfl
  · exact elsewhere_wait extra bounded

theorem elsewhere_go {occurred : Bool} (hout : (s.pc t).inRelease = false)
    (hs : s.go w t occurred = some s') : Elsewhere w s t s' := by
  cases State.go_turn hs with
  | ask hpc => exact elsewhere_goto rfl rfl fun _ _ => Or.inl rfl
  | contend hpc | firstFd hpc => exact elsewhere_contend ..
  | firstError hpc | firstTake hpc | futexTake hpc | futexError hpc | interrupted hpc =>
    exact elsewhere_ret ..
  | futexWait hpc => exact elsewhere_wait ..
  | woken hpc | timed hpc => exact elsewhere_resume ..
  | notLocked hpc | locked hpc | notOwner hpc | owner hpc | unlock hpc | countDown hpc
  | gaveBack hpc =>
    rw [hpc] at hout
    cases hout

/-! ## The steps -/

theorem not_differs_goto (s : State T P) (pc : Pc) : s.differs (s.goto t pc) = false := by
  simp [State.differs, State.goto]

theorem Traced.goTesting {occurred : Bool} (h : Traced w x)
    (hpc : x.now.pc t = .releaseState ∨ x.now.pc t = .releaseOwner)
    (hok : Matched w x.now (.go t occurred)) (hs : x.now.go w t occurred = some s') :
    (∃ pc, s' = x.now.goto t pc) ∧
      (s'.pc t = .releaseOwner ∨ (s'.pc t = .releaseLock ∧ x.now.owns t = true) ∨
        (s'.pc t = .released .eperm ∧ x.now.owns t = false)) := by
  have hrecord := h.held.onRecord_eq t
  cases State.go_turn hs with
  | notLocked hq hfree =>
    refine ⟨⟨_, rfl⟩, Or.inr (Or.inr ⟨update_self .., ?_⟩)⟩
    -- a free mutex belongs to nobody
    by_contra howns
    rw [(h.held.owns t (by simpa using howns)).2.1] at hfree
    cases hfree
  | locked hq => exact ⟨⟨_, rfl⟩, Or.inl (update_self ..)⟩
  | notOwner hq hother =>
    refine ⟨⟨_, rfl⟩, Or.inr (Or.inr ⟨update_self .., ?_⟩)⟩
    rw [← hrecord]
    simp [State.onRecord, hother]
  | owner hq howner =>
    refine ⟨⟨_, rfl⟩, Or.inr (Or.inl ⟨update_self .., ?_⟩)⟩
    rw [← hrecord, onRecord_iff]
    exact ⟨howner, hok hq howner⟩
  | _ hq => simp [hq] at hpc

theorem go_granted {occurred : Bool} (hpc : s.pc t = .releaseLock ∨ s.pc t = .releaseFutex)
    (hs : s.go w t occurred = some s') :
    (s'.pc t = .releaseFutex ∨ s'.pc t = .released .ok) ∧
      ∀ u, u ≠ t → s'.pc u = s.pc u ∧ s'.owns u = s.owns u := by
  cases State.go_turn hs with
  | unlock hq =>
    exact ⟨Or.inl (update_self ..),
      fun u hu => ⟨update_of_ne hu _ _, update_of_ne hu _ _⟩⟩
  | countDown hq | gaveBack hq =>
    exact ⟨Or.inr (update_self ..), fun u hu => ⟨update_of_ne hu _ _, rfl⟩⟩
  | _ hq => simp [hq] at hpc

theorem Traced.go {occurred : Bool} (h : Traced w x) (hok : Matched w x.now (.go t occurred))
    (hs : x.now.go w t occurred = some s') (hheld : Held w s') :
    Traced w ⟨s', x.asked,
      update x.touched t (x.touched t || x.now.differs s')⟩ := by
  refine ⟨hheld, fun u => ?_⟩
  have htrace := h.trace t
  by_cases hin : (x.now.pc t).inRelease = false
  · have he := elsewhere_go hin hs
    by_cases hut : u = t
    · subst hut
      exact trace_of_elsewhere he.pc
    · exact h.others hut (he.others u hut) rfl ⟨_, rfl⟩ (he.owns u hut)
  · have hplace : (x.now.pc t = .releaseState ∨ x.now.pc t = .releaseOwner) ∨
        (x.now.pc t = .releaseLock ∨ x.now.pc t = .releaseFutex) := by
      cases hq : x.now.pc t <;> simp_all [Pc.inRelease, State.go]
    rcases hplace with hplace | hplace
    · obtain ⟨⟨pc, rfl⟩, hnext⟩ := h.goTesting hplace hok hs
      by_cases hut : u = t
      · subst hut
        obtain ⟨hasked, htouched⟩ := htrace.testing hplace
        have hsame : update x.touched u
            (x.touched u || x.now.differs (x.now.goto u pc)) u = false := by
          rw [update_self, not_differs_goto, htouched]
          rfl
        refine ⟨fun _ => ⟨hasked, hsame⟩, fun hp => ?_, fun rc hp => ?_⟩
        · rcases hnext with hq | ⟨-, howns⟩ | ⟨hq, -⟩
          · simp [hq] at hp
          · exact hasked.trans howns
          · simp [hq] at hp
        · rcases hnext with hq | ⟨hq, -⟩ | ⟨hq, howns⟩ <;> cases hq.symm.trans hp
          exact Or.inr ⟨rfl, hasked.trans howns, hsame⟩
      · exact h.others hut (update_of_ne hut _ _) rfl ⟨_, rfl⟩ (Or.inl rfl)
    · obtain ⟨hnext, hothers⟩ := go_granted hplace hs
      by_cases hut : u = t
      · subst hut
        have hasked := htrace.granted hplace
        refine ⟨fun hp => ?_, fun _ => hasked, fun rc hp => ?_⟩
        · rcases hnext with hq | hq <;> simp [hq] at hp
        · rcases hnext with hq | hq <;> cases hq.symm.trans hp
          exact Or.inl ⟨rfl, hasked⟩
      · exact h.others hut (hothers u hut).1 rfl ⟨_, rfl⟩ (Or.inl (hothers u hut).2)

theorem Traced.futex {f : Futex.State T} (h : Traced w x) (hin : (x.now.pc t).inFutex = true)
    (hheld : Held w { x.now with futex := f }) :
    Traced w ⟨{ x.now with futex := f }, x.asked,
      update x.touched t (x.touched t || x.now.differs { x.now with futex := f })⟩ := by
  refine ⟨hheld, fun u => ?_⟩
  by_cases hut : u = t
  · subst hut
    by_cases hpc : x.now.pc u = .releaseFutex
    · have hasked := (h.trace u).granted (Or.inr hpc)
      refine ⟨fun hp => ?_, fun _ => hasked, fun rc hp => ?_⟩
      · simp [hpc] at hp
      · simp [hpc] at hp
    · refine trace_of_elsewhere ?_
      show (x.now.pc u).inRelease = false
      cases hq : x.now.pc u <;> simp_all [Pc.inFutex, Pc.inRelease]
  · exact h.others hut rfl rfl ⟨_, rfl⟩ (Or.inl rfl)

theorem Traced.step (h : Traced w x) (hok : Matched w x.now a) (hs : x.step w a = some x') :
    Traced w x' := by
  obtain ⟨now, hnow, rfl⟩ := Option.map_eq_some_iff.mp hs
  have hheld := h.held.step (hok.careful h.held) hnow
  cases a with
  | acquire t tryonly extra bounded =>
    simp only [State.step] at hnow
    split at hnow <;> cases hnow
    refine ⟨hheld, fun u => ?_⟩
    by_cases hut : u = t
    · subst hut
      exact trace_of_elsewhere (by simp [State.goto, Pc.inRelease])
    · exact (h.trace u).congr (h.held.fits u) (update_of_ne hut _ _) rfl rfl (Or.inl rfl)
  | release t =>
    simp only [State.step] at hnow
    split at hnow <;> cases hnow
    refine ⟨hheld, fun u => ?_⟩
    by_cases hut : u = t
    · subst hut
      have hpc : (x.now.goto u .releaseState).pc u = .releaseState := update_self ..
      refine ⟨fun _ => ?_, fun hp => ?_, fun rc hp => ?_⟩
      · show update x.asked u _ u = x.now.owns u ∧ update x.touched u _ u = false
        rw [update_self, update_self, h.held.onRecord_eq]
        exact ⟨rfl, rfl⟩
      · simp [hpc] at hp
      · cases hpc.symm.trans hp
    · exact (h.trace u).congr (h.held.fits u) (update_of_ne hut _ _)
        (update_of_ne hut _ _) (update_of_ne hut _ _) (Or.inl rfl)
  | go t occurred =>
    exact h.go hok hnow hheld
  | futex t result =>
    simp only [State.step] at hnow
    split at hnow
    case isTrue hin =>
      obtain ⟨f, -, rfl⟩ := Option.map_eq_some_iff.mp hnow
      exact h.futex hin hheld
    case isFalse => cases hnow
  | die p =>
    cases hnow
    refine ⟨hheld, fun u => ?_⟩
    by_cases hu : w.pid u = p
    · exact trace_of_elsewhere (by simp [State.die, hu, Pc.inRelease])
    · exact (h.trace u).congr (h.held.fits u) (by simp [State.die, hu]) rfl rfl (Or.inl rfl)
  | consistent =>
    cases hnow
    exact ⟨hheld, fun u => (h.trace u).congr (h.held.fits u) rfl rfl rfl (Or.inl rfl)⟩

/-! ## The contract -/

/-- **Only the owner releases a shared mutex**, in runs that meet the conditions of
`Matched`. -/
theorem shared_release_by_owner (w : Threads T P) (robust : Bool) (x : Watched T P)
    (hx : Reachable (Watched.step w) (fun x a => Matched w x.now a)
      (fun x => Initial robust x.now) x) : ByOwner w x := by
  have hI : Traced w x := hx.invariant (fun _ h => h.traced) fun _ _ _ hI hok h => hI.step hok h
  exact hI.byOwner

/-- Nothing has been seen yet. -/
def watchFrom (s : State Nat Nat) : Watched Nat Nat := ⟨s, fun _ => false, fun _ => false⟩

/-- Thread `t` calls `pth_mutex_release` and passes both tests. -/
def passesTests (t : Nat) : List (Action Nat) := [.release t, .go t true, .go t true]

theorem shared_release_by_owner_refused :
    ∃ x : Watched Nat Nat, runOk (Watched.step separate) (fun x a => Matched separate x.now a)
        (watchFrom (initState false))
        (getsFutex 0 ++ [.go 0 true] ++ passesTests 1 ++ passesTests 0 ++
          [.go 0 true, .futex 0 0, .go 0 true]) = some x ∧
      x.now.pc 0 = .released .ok ∧ x.now.pc 1 = .released .eperm ∧ ByOwner separate x := by
  refine exists_and_of_any₂ (fun _ => id) (by decide +kernel) fun x hx _ _ => ?_
  exact shared_release_by_owner separate false x
    (reachable_of_runOk (.init (initState_initial false)) hx)

/-- Every process has a thread whose control block is at address 0. -/
def aliased : Threads Nat Nat where
  ptr _ := 0
  pid t := t + 1
  pid_ne t := Nat.succ_ne_zero t
  distinct _ _ _ h := Nat.succ.inj h

/-- Thread 0 has the mutex. Thread 1 is of another process, its control block has the same
address, and it releases the mutex. -/
theorem alias_releases_mutex :
    ∃ x : Watched Nat Nat, Reachable (Watched.step aliased) Always
        (fun x => Initial false x.now) x ∧
      x.now.pc 0 = .acquired .ok ∧ x.now.pc 1 = .released .ok ∧ x.now.mutex.locked = false ∧
      x.now.futex.count = 1 ∧ ¬ ByOwner aliased x := by
  obtain ⟨x, hx, hpc0, hpc1, hlocked, hcount, hasked⟩ : ∃ x, run (Watched.step aliased)
      (watchFrom (initState false)) (getsFutex 0 ++ ([.go 0 true] : List (Action Nat)) ++
      passesTests 1 ++ ([.go 1 true, .futex 1 0, .go 1 true] : List (Action Nat))) = some x ∧
      x.now.pc 0 = .acquired .ok ∧ x.now.pc 1 = .released .ok ∧ x.now.mutex.locked = false ∧
      x.now.futex.count = 1 ∧ x.asked 1 = false := exists_of_any (by decide +kernel)
  refine ⟨x, reachable_of_run (.init (initState_initial false)) hx, hpc0, hpc1, hlocked, hcount,
    fun h => ?_⟩
  have := h.success 1 hpc1
  rw [hasked] at this
  cases this

end Ngpt.Sync.Shared
