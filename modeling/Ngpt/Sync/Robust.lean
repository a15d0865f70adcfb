import Ngpt.Sync.SharedExcl

/-!
# ngpt — robust shared mutexes

A thread that finds the owner of a robust mutex dead takes the mutex over, marks it
`PTH_MUTEX_NOT_CONSISTENT` and returns `EOWNERDEAD`. If it releases the mutex without
`pthread_mutex_consistent_np`, the mutex is abandoned. The mark is tested only after a
wait, so an acquire that gets the futex without one returns 0.

Result: `robust_kept`.
-/

namespace Ngpt.Sync.Futex

/-! ## Who gets the futex -/

/-- A client before the locked decrement of `__futex_down`. -/
def Pc.atDec : Pc → Bool
  | .dec _ => true
  | _ => false

variable {C : Type} [DecidableEq C] {f f' : State C} {c d : C} {result : Int}

theorem Excl.go_holds (h : Excl f) (hlow : futexPassed < f.count) (hf : f.go c result = some f')
    (hd : f'.holds d = true) :
    f.holds d = true ∨ ((f.pc c).atDec = true ∧ f.count = 1) := by
  by_cases hdc : d = c
  · subst hdc
    unfold State.go at hf
    cases hpc : f.pc d <;> simp only [hpc, reduceCtorEq, Option.some.injEq] at hf
    case dec k =>
      split at hf
      next hv =>
        have hle := h.le
        rw [futexPassed] at hlow
        rw [Semaphore.wrapInt_of_small (by omega) (by omega)] at hv
        exact Or.inr ⟨rfl, by omega⟩
      · cases hf
        exact Or.inl hd
    case passed op => exact absurd hpc (h.fresh d op)
    case inc =>
      split at hf <;> cases hf
      · simp at hd
      · exact Or.inl hd
    case store =>
      subst hf
      simp at hd
    all_goals
      subst hf
      exact Or.inl hd
  · rw [(go_frame hf hdc).2] at hd
    exact Or.inl hd

theorem go_up_gives (hpc : (f.pc c).inUp = true) (hf : f.go c result = some f')
    (hgave : (f.pc c).needs = false → f.holds c = false) (hneeds : (f'.pc c).needs = false) :
    f'.holds c = false := by
  unfold State.go at hf
  cases hq : f.pc c <;> simp only [hq, reduceCtorEq, Option.some.injEq] at hf <;>
    rw [hq] at hpc hgave <;> cases hpc
  case inc =>
    split at hf <;> cases hf
    · simp
    · simp [Pc.needs] at hneeds
  case store =>
    subst hf
    simp
  case wake =>
    subst hf
    exact hgave rfl

end Ngpt.Sync.Futex

namespace Ngpt.Sync.Shared

open Function Transition

variable {T P : Type} {w : Threads T P} {s s' : State T P} {t u : T} {a : Action T} {pc : Pc}

/-- The conditions on a step: those of `Careful`; `FUTEX_FD` succeeds; and no decrement
gets the futex of an abandoned mutex. -/
def Recovers (w : Threads T P) (s : State T P) : Action T → Prop
  | .futex t result => Careful w s (.futex t result) ∧ (s.futex.pc t = .await → 0 < result) ∧
      ((s.futex.pc t).atDec = true → s.futex.count = 1 → s.abandoned = false)
  | a => Careful w s a

instance [DecidableEq P] (w : Threads T P) (s : State T P) (a : Action T) :
    Decidable (Recovers w s a) := by
  rcases a <;> dsimp only [Recovers] <;> infer_instance

theorem Recovers.careful (h : Recovers w s a) : Careful w s a := by
  cases a with
  | futex t result => exact h.1
  | _ => exact h

/-! ## The invariant -/

/-- What an acquire may return: `EOWNERDEAD` to the one that takes the mutex over, and not
0 while the mutex is abandoned; an acquire with neither `tryonly` nor an extra event
returns `ENOTRECOVERABLE` then. -/
structure Return.Ok (r : Return T) : Prop where
  dead      : r.took = true → r.orphaned = true → r.rc = .eownerdead
  abandoned : r.abandoned = true → r.rc ≠ .ok
  instead   : r.abandoned = true → r.tryonly = false → r.extra = false → r.rc = .enotrecoverable

/-- A thread in `futex_acquire`. -/
def Pc.acquiring : Pc → Bool
  | .first _ _ _ | .futex _ _ => true
  | _ => false

/-- The invariant: nobody has the futex of an abandoned mutex but the thread that gives it back. -/
structure Kept (w : Threads T P) (s : State T P) : Prop where
  held    : Held w s
  result  : ∀ t fd, (s.pc t).acquiring = true → s.futex.pc t = .returned (.acquire false) fd →
    0 ≤ fd
  given   : ∀ t, s.pc t = .releaseFutex → (s.futex.pc t).needs = false → s.futex.holds t = false
  left    : s.abandoned = true → ∀ t, s.futex.holds t = true →
    s.pc t = .releaseFutex ∨ s.pc t = .dead
  returns : ∀ r ∈ s.returns, r.Ok

theorem Held.not_abandoned (h : Held w s) (hpid : s.mutex.ownerPid ≠ 0) :
    s.abandoned = false := by
  obtain ⟨d, hd⟩ := h.owner hpid
  obtain ⟨-, hlocked, -, -⟩ := h.owns d hd
  simp [State.abandoned, hlocked]

theorem Held.not_orphaned (h : Held w s) (halive : s.pc t ≠ .dead)
    (hholds : s.futex.holds t = true) : s.orphaned = false := by
  by_contra horphaned
  simp only [State.orphaned, State.killFails, Bool.not_eq_false, Bool.and_eq_true,
    decide_eq_true_eq] at horphaned
  obtain ⟨-, hpid, hdead⟩ := horphaned
  obtain ⟨d, hd⟩ := h.owner hpid
  obtain ⟨hd', -, -, hown⟩ := h.owns d hd
  obtain rfl := h.excl.one t d hholds hd'
  rw [hown, (h.fits t).alive halive] at hdead
  cases hdead

theorem Kept.acquired {fd : Int} (h : Kept w s) (hacq : (s.pc t).acquiring = true)
    (hq : s.futex.pc t = .returned (.acquire false) fd) :
    (fd = 0 ∧ s.futex.holds t = true) ∨ 0 < fd := by
  have hfd := h.result t fd hacq hq
  by_cases h0 : fd = 0
  · exact Or.inl ⟨h0, h.held.excl.needs t (by simp [hq, h0, Futex.Pc.needs])⟩
  · exact Or.inr (by omega)

theorem Kept.die {p : Nat} (h : Kept w s) : Kept w (s.die w p) := by
  unfold State.die
  refine ⟨h.held.die, fun u fd hu hq => ?_, fun u hu hq => ?_, fun ha u hu => ?_, h.returns⟩
  · by_cases hup : w.pid u = p
    · simp [hup, Pc.acquiring] at hu
    · exact h.result u fd (by simpa [hup] using hu) (by simpa [hup] using hq)
  · by_cases hup : w.pid u = p
    · simp [hup] at hu
    · exact h.given u (by simpa [hup] using hu) (by simpa [hup] using hq)
  · by_cases hup : w.pid u = p
    · exact Or.inr (by simp [hup])
    · simpa [hup] using h.left ha u hu

theorem Initial.kept {robust : Bool} (h : Initial robust s) : Kept w s := by
  obtain ⟨type, hmx⟩ := h.mutex
  refine ⟨h.held, fun t fd ht => ?_, fun t ht => ?_, fun ha => ?_, fun r hr => ?_⟩
  · simp [h.pc t, Pc.acquiring] at ht
  · simp [h.pc t] at ht
  · simp [State.abandoned, hmx, pthMutexInit] at ha
  · rw [h.returns] at hr
    cases hr

variable [DecidableEq T]

section

variable (h : Kept w s)
include h

variable {extra tryonly bounded : Bool}

theorem Kept.takeOver (hheld : Held w (s.takeOver w t extra))
    (hkill : s.killFails s.mutex.ownerPid = true) : Kept w (s.takeOver w t extra) := by
  have hpid : s.mutex.ownerPid ≠ 0 := by
    simp only [State.killFails, Bool.and_eq_true, decide_eq_true_eq] at hkill
    exact hkill.1
  have hat : (s.takeOver w t extra).pc t = .acquired .eownerdead := update_self ..
  have hother : ∀ u, u ≠ t → (s.takeOver w t extra).pc u = s.pc u :=
    fun u hu => update_of_ne hu _ _
  refine ⟨hheld, fun u fd hu hq => ?_, fun u hu hq => ?_, fun ha => ?_, fun r hr => ?_⟩
  · by_cases hut : u = t
    · rw [hut, hat] at hu
      cases hu
    · rw [hother u hut] at hu
      exact h.result u fd hu hq
  · by_cases hut : u = t
    · rw [hut, hat] at hu
      cases hu
    · rw [hother u hut] at hu
      have := h.given u hu hq
      simp [State.takeOver, State.ret, State.goto, hut, this]
  · simp [State.takeOver, State.ret, State.abandoned, SharedMutex.lockBy] at ha
  · rcases List.mem_cons.mp hr with rfl | hr
    · refine ⟨fun _ _ => rfl, fun _ => by simp, fun (ha : s.abandoned = true) => ?_⟩
      rw [h.held.not_abandoned hpid] at ha
      cases ha
    · exact h.returns r hr

section

variable (hpc : s.pc t ≠ .releaseFutex ∧ s.pc t ≠ .dead)
include hpc

theorem Kept.move (hheld : Held w s') (hpc' : s'.pc t ≠ .releaseFutex)
    (hresult : (s'.pc t).acquiring = true → (s'.futex.pc t).outside = false)
    (hholds : s'.futex.holds = s.futex.holds)
    (habandoned : s'.abandoned = true → s.abandoned = true)
    (hothers : ∀ u, u ≠ t → s'.pc u = s.pc u ∧ s'.futex.pc u = s.futex.pc u)
    (hreturns : ∀ r ∈ s'.returns, r ∈ s.returns ∨ r.Ok) : Kept w s' := by
  refine ⟨hheld, fun u fd hu hq => ?_, fun u hu hq => ?_, fun ha u hu => ?_, fun r hr => ?_⟩
  · by_cases hut : u = t
    · subst hut
      have hout := hresult hu
      rw [hq] at hout
      cases hout
    · rw [(hothers u hut).1] at hu
      rw [(hothers u hut).2] at hq
      exact h.result u fd hu hq
  · by_cases hut : u = t
    · exact absurd (hut ▸ hu) hpc'
    · rw [(hothers u hut).1] at hu
      rw [(hothers u hut).2] at hq
      rw [hholds]
      exact h.given u hu hq
  · rw [hholds] at hu
    have hleft := h.left (habandoned ha) u hu
    by_cases hut : u = t
    · rw [hut] at hleft
      exact absurd hleft (by simp [hpc])
    · rw [(hothers u hut).1]
      exact hleft
  · rcases hreturns r hr with hr | hr
    · exact h.returns r hr
    · exact hr

/-! ## The sections -/

variable {mutex : SharedMutex P}

theorem Kept.ret {rc : Errno} {took : Bool} (hheld : Held w (s.ret t rc tryonly extra took mutex))
    (habandoned : (mutex.notConsistent && !mutex.locked) = true → s.abandoned = true)
    (hr : Return.Ok ⟨t, rc, tryonly, extra, took, s.futex.holds t, s.abandoned, s.orphaned⟩) :
    Kept w (s.ret t rc tryonly extra took mutex) := by
  have hat : (s.ret t rc tryonly extra took mutex).pc t = .acquired rc := update_self ..
  refine h.move hpc hheld (by simp [hat]) (by simp [hat, Pc.acquiring]) rfl habandoned
    (fun u hu => ⟨update_of_ne hu _ _, rfl⟩) (fun r hr' => ?_)
  rcases List.mem_cons.mp hr' with rfl | hr'
  · exact Or.inr hr
  · exact Or.inl hr'

theorem Kept.retTake (hheld : Held w (s.ret t .ok tryonly extra true (s.mutex.lockBy w t)))
    (hholds : s.futex.holds t = true) :
    Kept w (s.ret t .ok tryonly extra true (s.mutex.lockBy w t)) := by
  have habandoned : s.abandoned = false := by
    by_contra ha
    exact absurd (h.left (by simpa using ha) t hholds) (by simp [hpc])
  have horphaned := h.held.not_orphaned hpc.2 hholds
  exact h.ret hpc hheld (by simp [SharedMutex.lockBy])
    ⟨by simp [horphaned], by simp [habandoned], by simp [habandoned]⟩

theorem Kept.retKeep {rc : Errno} (hheld : Held w (s.ret t rc tryonly extra false mutex))
    (hlocked : mutex.locked = s.mutex.locked)
    (hmark : mutex.notConsistent = s.mutex.notConsistent)
    (hr : s.abandoned = true → rc ≠ .ok ∧
      (tryonly = false → extra = false → rc = .enotrecoverable)) :
    Kept w (s.ret t rc tryonly extra false mutex) := by
  refine h.ret hpc hheld (fun ha => ?_) ⟨by simp, fun ha => (hr ha).1, fun ha => (hr ha).2⟩
  rw [hlocked, hmark] at ha
  exact ha

theorem Kept.goto (hheld : Held w { s.goto t pc with mutex := mutex }) (hpc' : pc ≠ .releaseFutex)
    (hacq : pc.acquiring = false)
    (hlocked : mutex.locked = s.mutex.locked)
    (hmark : mutex.notConsistent = s.mutex.notConsistent) :
    Kept w { s.goto t pc with mutex := mutex } := by
  have hat : update s.pc t pc t = pc := update_self ..
  refine h.move hpc hheld (by simpa [State.goto] using hpc') (fun ha => ?_) rfl (fun ha => ?_)
    (fun u hu => ⟨update_of_ne hu _ _, rfl⟩) (fun r hr => Or.inl hr)
  · simp only [State.goto, hat, hacq] at ha
    cases ha
  · simp only [State.abandoned, hlocked, hmark] at ha
    exact ha

theorem Kept.callAcquire
    (hheld : Held w ({ s with mutex := mutex }.callFutex t (.acquire false) pc))
    (hpc' : pc ≠ .releaseFutex)
    (hlocked : mutex.locked = s.mutex.locked)
    (hmark : mutex.notConsistent = s.mutex.notConsistent) :
    Kept w ({ s with mutex := mutex }.callFutex t (.acquire false) pc) := by
  refine h.move hpc hheld (by simpa [State.callFutex, State.goto] using hpc') (fun _ => ?_) rfl
    (fun ha => ?_) (fun u hu => ⟨update_of_ne hu _ _, update_of_ne hu _ _⟩)
    (fun r hr => Or.inl hr)
  · simp [State.callFutex, Futex.Op.entry, Futex.Pc.outside]
  · simp only [State.abandoned, State.callFutex, State.goto, hlocked, hmark] at ha
    exact ha

theorem Kept.wait (hheld : Held w (s.wait t extra bounded)) : Kept w (s.wait t extra bounded) := by
  unfold State.wait at hheld ⊢
  revert hheld
  split <;> exact fun hheld => h.goto hpc hheld (by simp) rfl rfl rfl

theorem Kept.contend [DecidableEq P] {needFutex : Bool} (hout : (s.futex.pc t).outside = true) :
    Kept w (s.contend w t tryonly extra bounded needFutex) := by
  have hheld : Held w (s.contend w t tryonly extra bounded needFutex) :=
    h.held.contend hpc.2 hout
  simp only [State.contend] at hheld ⊢
  revert hheld
  split
  case isTrue hown =>
    -- a mutex with an owner on record is not abandoned
    have hno : s.abandoned = false :=
      h.held.not_abandoned (by rw [hown.2.2]; exact w.pid_ne t)
    split <;> exact fun hheld => h.retKeep hpc hheld rfl rfl fun ha => by simp [hno] at ha
  split
  case isTrue htry =>
    intro hheld
    exact h.retKeep hpc hheld rfl rfl fun _ => ⟨by simp, fun hf => by simp [htry] at hf⟩
  split
  case isTrue hrobust => exact fun hheld => h.takeOver hheld hrobust.2
  split
  · exact fun hheld => h.callAcquire hpc hheld (by simp) rfl rfl
  · exact fun hheld => h.wait hpc hheld

theorem Kept.resume (hheld : Held w (s.resume t extra bounded mutex))
    (hlocked : mutex.locked = s.mutex.locked)
    (hmark : mutex.notConsistent = s.mutex.notConsistent) :
    Kept w (s.resume t extra bounded mutex) := by
  unfold State.resume at hheld ⊢
  revert hheld
  split <;> intro hheld
  · exact h.retKeep hpc hheld hlocked hmark fun _ => ⟨by simp, fun _ _ => rfl⟩
  · exact h.callAcquire hpc hheld (by simp) hlocked hmark

end

theorem Kept.unlock (hpc : s.pc t = .releaseLock) (hheld : Held w (s.unlock t)) :
    Kept w (s.unlock t) := by
  unfold State.unlock at hheld ⊢
  obtain ⟨hholds, -, -, -⟩ := h.held.owns t ((h.held.fits t).releasing hpc)
  refine ⟨hheld, fun u fd hu hq => ?_, fun u hu hq => ?_, fun _ u hu => ?_, h.returns⟩
  · by_cases hut : u = t
    · simp [State.callFutex, State.goto, hut, Pc.acquiring] at hu
    · exact h.result u fd (by simpa [State.callFutex, State.goto, hut] using hu)
        (by simpa [State.callFutex, hut] using hq)
  · by_cases hut : u = t
    · simp [State.callFutex, hut, Futex.Op.entry, Futex.Pc.needs] at hq
    · exact h.given u (by simpa [State.callFutex, State.goto, hut] using hu)
        (by simpa [State.callFutex, hut] using hq)
  · have hut := h.held.excl.one u t hu hholds
    exact Or.inl (by simp [State.callFutex, State.goto, hut])

theorem Kept.released {r : Int} (hpc : s.pc t = .releaseFutex)
    (hq : s.futex.pc t = .returned .up r) (hheld : Held w (s.goto t (.released .ok))) :
    Kept w (s.goto t (.released .ok)) := by
  have hgave := h.given t hpc (by rw [hq]; rfl)
  refine ⟨hheld, fun u fd hu hq' => ?_, fun u hu hq' => ?_, fun ha u hu => ?_, h.returns⟩
  · by_cases hut : u = t
    · simp [State.goto, hut, Pc.acquiring] at hu
    · exact h.result u fd (by simpa [State.goto, hut] using hu) hq'
  · by_cases hut : u = t
    · simp [State.goto, hut] at hu
    · exact h.given u (by simpa [State.goto, hut] using hu) hq'
  · by_cases hut : u = t
    · rw [hut, show (s.goto t (.released .ok)).futex.holds t = s.futex.holds t from rfl,
        hgave] at hu
      cases hu
    · simpa [State.goto, hut] using h.left ha u hu

end

/-! ## The steps -/

theorem Kept.call (h : Kept w s) (hheld : Held w (s.goto t pc))
    (hout : (s.pc t).outside = true) (hpc : pc ≠ .releaseFutex) (hacq : pc.acquiring = false) :
    Kept w (s.goto t pc) := by
  refine h.goto ⟨fun hp => ?_, fun hp => ?_⟩ hheld hpc hacq rfl rfl <;>
    simp [hp, Pc.outside] at hout

theorem Kept.futex {result : Int} {f : Futex.State T} (h : Kept w s)
    (hok : Recovers w s (.futex t result)) (hin : (s.pc t).inFutex = true)
    (hf : s.futex.go t result = some f) : Kept w { s with futex := f } := by
  obtain ⟨hcareful, hfd, hget⟩ := hok
  have hfits := h.held.fits t
  have hframe := fun u (hu : u ≠ t) => Futex.go_frame hf hu
  refine ⟨h.held.futex hcareful hin hf, fun u fd hu hq => ?_, fun u hu hq => ?_,
    fun (ha : s.abandoned = true) u hu => ?_, h.returns⟩
  · by_cases hut : u = t
    · subst hut
      have hacq : (s.futex.pc u).inAcquire = true := by
        have hcalls := hfits.calls
        cases hpc : s.pc u <;> simp_all [Pc.acquiring, Pc.Calls]
      rcases (Futex.go_acquire hacq hf).2.2.2 fd hq with h0 | hfd' | ⟨hq', rfl, -⟩
      · omega
      · exact hfits.fd fd hfd'
      · exact (hfd hq').le
    · exact h.result u fd hu ((hframe u hut).1.symm.trans hq)
  · by_cases hut : u = t
    · subst hut
      have hup := hfits.calls
      rw [show s.pc u = .releaseFutex from hu] at hup
      exact Futex.go_up_gives hup hf (h.given u hu) hq
    · show f.holds u = false
      rw [(hframe u hut).2]
      exact h.given u hu (by rw [← (hframe u hut).1]; exact hq)
  · rcases h.held.excl.go_holds hcareful.1 hf hu with hu | ⟨hdec, hone⟩
    · exact h.left ha u hu
    · rw [hget hdec hone] at ha
      cases ha

variable [DecidableEq P]

theorem Kept.go {occurred : Bool} (h : Kept w s) (hok : Careful w s (.go t occurred))
    (hs : s.go w t occurred = some s') : Kept w s' := by
  have hheld := h.held.go hok hs
  have hcalls := (h.held.fits t).calls
  cases State.go_turn hs with
  | ask hpc => exact h.callAcquire (by simp [hpc]) hheld (by simp) rfl rfl
  | contend hpc =>
    rw [hpc] at hcalls
    exact h.contend (by simp [hpc]) hcalls
  | firstFd hpc hq hfd => exact h.contend (by simp [hpc]) (by rw [hq]; rfl)
  | firstError hpc hq | futexError hpc hq =>
    rcases h.acquired (by simp [hpc, Pc.acquiring]) hq with ⟨h0, -⟩ | hpos <;> omega
  | firstTake hpc hq | futexTake hpc hq =>
    rcases h.acquired (by simp [hpc, Pc.acquiring]) hq with ⟨-, hholds⟩ | hpos
    · exact h.retTake (by simp [hpc]) hheld hholds
    · omega
  | futexWait hpc hq h0 herror => exact h.wait (by simp [hpc]) hheld
  | interrupted hpc hextra hnot =>
    exact h.retKeep (by simp [hpc]) hheld rfl rfl
      fun _ => ⟨by simp, fun _ hf => by simp [hextra] at hf⟩
  | woken hpc | timed hpc => exact h.resume (by simp [hpc]) hheld rfl rfl
  | notLocked hpc | locked hpc | notOwner hpc | owner hpc | countDown hpc =>
    exact h.goto (by simp [hpc]) hheld (by simp) rfl rfl rfl
  | unlock hpc => exact h.unlock hpc hheld
  | gaveBack hpc hq => exact h.released hpc hq hheld

theorem Kept.step (h : Kept w s) (hok : Recovers w s a) (hs : s.step w a = some s') :
    Kept w s' := by
  have hheld := h.held.step hok.careful hs
  cases a with
  | acquire | release =>
    obtain ⟨hout, ⟨⟩⟩ := Option.ite_none_right_eq_some.mp hs
    exact h.call hheld hout (by simp) rfl
  | go t occurred => exact h.go hok hs
  | futex t result =>
    obtain ⟨hin, hs⟩ := Option.ite_none_right_eq_some.mp hs
    obtain ⟨f, hf, rfl⟩ := Option.map_eq_some_iff.mp hs
    exact h.futex hok hin hf
  | die p =>
    cases hs
    exact h.die
  | consistent =>
    cases hs
    -- the mark is gone, so the mutex is not abandoned
    exact ⟨hheld, h.result, h.given, fun ha => by simp [State.abandoned] at ha, h.returns⟩

/-! ## Recovery -/

/-- **Robust shared mutexes**, in runs that meet the conditions of `Recovers`: whoever
takes the mutex over from a dead owner gets `EOWNERDEAD`, and nobody gets 0 while the
mutex is abandoned. -/
theorem robust_kept (w : Threads T P) (s : State T P)
    (hs : Reachable (State.step w) (Recovers w) (Initial true) s) : ∀ r ∈ s.returns, r.Ok := by
  have hK : Kept w s := hs.invariant (fun s h => h.kept) fun s a s' hK hok h => hK.step hok h
  exact hK.returns

/-- Thread 0 acquires the mutex and dies, and thread 1 takes the mutex over. -/
def inherits : List (Action Nat) :=
  getsFutex 0 ++ [.go 0 true, .die 1, .acquire 1 false false false, .go 1 true]

/-- Thread 2 waits while thread 1 abandons the mutex. -/
theorem robust_kept_waiting :
    ∃ s : State Nat Nat, runOk (State.step separate) (Recovers separate) (initState true)
        (inherits ++ waitsFor 2 5 ++ givesBack 1 ++ [.go 2 true]) = some s ∧
      s.returns.map Return.rc = [.enotrecoverable, .eownerdead, .ok] ∧ s.abandoned = true ∧
      ∀ r ∈ s.returns, r.Ok := by
  refine exists_and_of_any₂ (fun _ => id) (by decide +kernel) fun s hs _ _ => ?_
  exact robust_kept separate s (reachable_of_runOk (.init (initState_initial true)) hs)

/-- Thread 1 has got `EOWNERDEAD` and releases the mutex without making it consistent.
Thread 2 finds it unlocked, gets the futex without a wait, and returns 0. -/
theorem abandoned_mutex_acquired :
    ∃ s : State Nat Nat, Reachable (State.step separate) Always (Initial true) s ∧
      s.pc 1 = .released .ok ∧ s.pc 2 = .acquired .ok ∧ s.mutex.notConsistent = true ∧
      ∃ r ∈ s.returns, r.thread = 2 ∧ r.rc = .ok ∧ r.abandoned = true ∧ ¬ r.Ok := by
  obtain ⟨s, hs, h1, h2, hmark, hhead⟩ : ∃ s, run (State.step separate) (initState true)
      (inherits ++ ([.release 1, .go 1 true, .go 1 true, .go 1 true, .futex 1 0, .go 1 true] : List
      (Action Nat)) ++ getsFutex 2 ++ ([.go 2 true] : List (Action Nat))) = some s ∧
      s.pc 1 = .released .ok ∧ s.pc 2 = .acquired .ok ∧ s.mutex.notConsistent = true ∧
      s.returns.head? = some ⟨2, .ok, false, false, true, true, true, false⟩ :=
    exists_of_any (by decide +kernel)
  refine ⟨s, reachable_of_run (.init (initState_initial true)) hs, h1, h2, hmark, _,
    List.mem_of_mem_head? hhead, rfl, rfl, rfl, fun hr => hr.abandoned rfl rfl⟩

end Ngpt.Sync.Shared
