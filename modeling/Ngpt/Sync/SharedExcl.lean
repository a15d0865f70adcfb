import Ngpt.Sync.Shared

/-!
# ngpt — a shared mutex needs the futex

The futex layer reports an error as a negative number, and `pth_shared_mutex_acquire`
compares its result with -1 only. On the path without contention every other negative
number is taken for success, so the mutex is locked without the futex.

Result: `shared_needs_futex`.
-/

namespace Ngpt.Sync.Futex

/-! ## One call of the futex code -/

/-- A place of `futex_acquire` without `tryonly`. -/
def Pc.inAcquire : Pc → Bool
  | .read (.acquire false) | .dec (.acquire false) | .await | .read (.retry _) | .dec (.retry _)
  | .check _ | .passed (.acquire false) | .returned (.acquire false) _ => true
  | _ => false

/-- A place of `futex_up`. -/
def Pc.inUp : Pc → Bool
  | .inc | .store | .wake | .returned .up _ => true
  | _ => false

variable {C : Type} [DecidableEq C] {f f' : State C} {c d : C} {result r : Int}

theorem go_frame (h : f.go c result = some f') (hd : d ≠ c) :
    f'.pc d = f.pc d ∧ f'.holds d = f.holds d := by
  unfold State.go at h
  cases hpc : f.pc c <;> simp only [hpc, reduceCtorEq, Option.some.injEq] at h
  case dec | inc => split at h <;> cases h <;> simp [hd]
  all_goals
    subst h
    simp [hd]

theorem go_acquire (hpc : (f.pc c).inAcquire = true) (h : f.go c result = some f') :
    (f'.pc c).inAcquire = true ∧ (f.holds c = true → f'.holds c = true) ∧
      (∀ fd, (f'.pc c).fd = some fd →
        (f.pc c).fd = some fd ∨ (f.pc c = .await ∧ fd = result ∧ 0 ≤ fd)) ∧
      ∀ r, f'.pc c = .returned (.acquire false) r →
        r = 0 ∨ (f.pc c).fd = some r ∨ (f.pc c = .await ∧ r = result ∧ r < 0) := by
  unfold State.go at h
  cases hq : f.pc c <;> rw [hq] at hpc <;>
    simp only [hq, reduceCtorEq, Option.some.injEq] at h
  case wait | waitCheck | mark | inc | store | wake => cases hpc
  case read k =>
    subst h
    cases k with
    | trydown | timeout => cases hpc
    | acquire tryonly =>
      cases tryonly with
      | true => cases hpc
      | false => by_cases h0 : f.count < 0 <;> simp [h0, Site.failed, Pc.inAcquire, Pc.fd]
    | retry fd => by_cases h0 : f.count < 0 <;> simp [h0, Site.failed, Pc.inAcquire, Pc.fd]
  case dec k =>
    cases k with
    | trydown | timeout => cases hpc
    | acquire tryonly =>
      cases tryonly with
      | true => cases hpc
      | false => split at h <;> cases h <;> simp [Site.got, Site.failed, Pc.inAcquire, Pc.fd]
    | retry fd => split at h <;> cases h <;> simp [Site.got, Site.failed, Pc.inAcquire, Pc.fd]
  case await =>
    subst h
    by_cases h0 : result < 0 <;> simp [awaited, h0, Pc.inAcquire, Pc.fd]
    omega
  case check fd =>
    subst h
    by_cases h0 : f.count ≤ futexPassed <;> simp [h0, Pc.inAcquire, Pc.fd]
  case passed op =>
    subst h
    cases op with
    | acquire tryonly =>
      cases tryonly with
      | true => cases hpc
      | false => simp [Pc.inAcquire, Pc.fd]
    | trydown | downTimeout | up => cases hpc

theorem go_up (hpc : (f.pc c).inUp = true) (h : f.go c result = some f') :
    (f'.pc c).inUp = true := by
  unfold State.go at h
  cases hq : f.pc c <;> simp only [hq, reduceCtorEq, Option.some.injEq] at h <;>
    rw [hq] at hpc <;> cases hpc
  case inc => split at h <;> cases h <;> simp [Pc.inUp]
  all_goals
    subst h
    simp [Pc.inUp]

theorem fd_of_inUp {q : Pc} (h : q.inUp = true) : q.fd = none := by
  cases q with
  | inc | store | wake | returned => rfl
  | _ => cases h

end Ngpt.Sync.Futex

namespace Ngpt.Sync.Shared

open Function Transition

/-! ## The invariant -/

/-- The place in the futex code fits the call that the thread is in. -/
def Pc.Calls (q : Futex.Pc) : Pc → Prop
  | .first _ _ _ | .futex _ _ => q.inAcquire = true
  | .releaseFutex => q.inUp = true
  | _ => q.outside = true

variable {T P : Type} {w : Threads T P}

/-- The fields of a mutex that say who has it. -/
def SharedMutex.holder (m : SharedMutex P) : Bool × Option P × Nat :=
  (m.locked, m.owner, m.ownerPid)

/-- What holds of one thread. -/
structure Fits (w : Threads T P) (s : State T P) (t : T) : Prop where
  calls     : (s.pc t).Calls (s.futex.pc t)
  releasing : s.pc t = .releaseLock → s.owns t = true
  gave      : s.pc t = .releaseFutex → s.owns t = false
  fd        : ∀ fd, (s.futex.pc t).fd = some fd → 0 ≤ fd
  error     : ∀ tryonly extra bounded fd, s.pc t = .first tryonly extra bounded →
    s.futex.pc t = .returned (.acquire false) fd → -1 ≤ fd
  dead      : s.dead (w.pid t) = true → s.pc t = .dead ∧ s.futex.pc t = .idle

/-- Whoever has the mutex has the futex, and is the owner on record. -/
structure Held (w : Threads T P) (s : State T P) : Prop where
  excl    : Futex.Excl s.futex
  fits    : ∀ t, Fits w s t
  owns    : ∀ t, s.owns t = true → s.futex.holds t = true ∧ s.mutex.locked = true ∧
    s.mutex.owner = some (w.ptr t) ∧ s.mutex.ownerPid = w.pid t
  owner   : s.mutex.ownerPid ≠ 0 → ∃ t, s.owns t = true
  returns : ∀ r ∈ s.returns, r.took = true → r.rc = .ok → r.futex = true

variable {s s' : State T P} {t u : T} {a : Action T} {pc : Pc} {rc : Errno}
  {tryonly extra bounded : Bool} {mutex : SharedMutex P}

theorem Fits.alive (h : Fits w s t) (hpc : s.pc t ≠ .dead) : s.dead (w.pid t) = false := by
  by_contra hd
  exact hpc (h.dead (by simpa using hd)).1

theorem Fits.congr (h : Fits w s u) (hdead : s'.dead (w.pid u) = s.dead (w.pid u))
    (hpc : s'.pc u = s.pc u)
    (hq : s'.futex.pc u = s.futex.pc u)
    (howns : s'.owns u = s.owns u ∨ s.dead (w.pid u) = true) : Fits w s' u := by
  have hkeep : s.pc u ≠ .dead → s'.owns u = s.owns u := by
    intro hne
    rcases howns with howns | hd
    · exact howns
    · exact absurd (h.dead hd).1 hne
  refine ⟨by rw [hpc, hq]; exact h.calls, fun hp => ?_, fun hp => ?_, by rw [hq]; exact h.fd,
    by rw [hpc, hq]; exact h.error, by rw [hdead, hpc, hq]; exact h.dead⟩
  · rw [hpc] at hp
    rw [hkeep (by rw [hp]; simp)]
    exact h.releasing hp
  · rw [hpc] at hp
    rw [hkeep (by rw [hp]; simp)]
    exact h.gave hp

theorem calls_iff_outside {q : Futex.Pc} (hpc : pc.inFutex = false) :
    pc.Calls q ↔ q.outside = true := by
  cases pc with
  | first | futex | releaseFutex => cases hpc
  | _ => exact Iff.rfl

theorem calls_of_inFutex (hin : pc.inFutex = true) :
    (pc ≠ .releaseFutex ∧ ∀ q, pc.Calls q ↔ q.inAcquire = true) ∨
      (pc = .releaseFutex ∧ ∀ q, pc.Calls q ↔ q.inUp = true) := by
  cases pc with
  | first | futex => exact Or.inl ⟨Pc.noConfusion, fun _ => Iff.rfl⟩
  | releaseFutex => exact Or.inr ⟨rfl, fun _ => Iff.rfl⟩
  | _ => cases hin

theorem Fits.outside (h : Fits w s t) (hout : (s.pc t).outside = true) :
    s.pc t ≠ .dead ∧ (s.futex.pc t).outside = true := by
  have hpc : s.pc t ≠ .dead ∧ (s.pc t).inFutex = false := by
    cases hq : s.pc t with
    | idle | acquired | released => exact ⟨Pc.noConfusion, rfl⟩
    | _ =>
      rw [hq] at hout
      cases hout
  exact ⟨hpc.1, (calls_iff_outside hpc.2).mp h.calls⟩

theorem Fits.quiet (h : Fits w s t) (halive : s.pc t ≠ .dead)
    (hdead : s'.dead = s.dead) (hpc : s'.pc t = pc) (hq : s'.futex.pc t = s.futex.pc t)
    (hout : (s.futex.pc t).outside = true) (hpc' : pc.inFutex = false)
    (hrel : pc = .releaseLock → s'.owns t = true) : Fits w s' t := by
  refine ⟨?_, fun hp => hrel (hpc.symm.trans hp), fun hp => ?_, by rw [hq]; exact h.fd,
    fun _ _ _ _ hp => ?_, fun hd => ?_⟩
  · rw [hpc, hq, calls_iff_outside hpc']
    exact hout
  · rw [hpc] at hp
    simp [hp, Pc.inFutex] at hpc'
  · rw [hpc] at hp
    simp [hp, Pc.inFutex] at hpc'
  · rw [hdead, h.alive halive] at hd
    cases hd

theorem Fits.call {op : Futex.Op} (h : Fits w s t) (halive : s.pc t ≠ .dead)
    (hdead : s'.dead = s.dead) (hpc : s'.pc t = pc) (hq : s'.futex.pc t = op.entry)
    (hcalls : pc.Calls op.entry) (hrel : pc ≠ .releaseLock)
    (hgave : pc = .releaseFutex → s'.owns t = false) : Fits w s' t := by
  refine ⟨by rw [hpc, hq]; exact hcalls, fun hp => absurd (hpc.symm.trans hp) hrel,
    fun hp => hgave (hpc.symm.trans hp), fun fd hfd => ?_, fun _ _ _ fd _ hfd => ?_, fun hd => ?_⟩
  · rw [hq] at hfd
    cases op <;> cases hfd
  · rw [hq] at hfd
    cases op <;> cases hfd
  · rw [hdead, h.alive halive] at hd
    cases hd

theorem Held.die {p : Nat} (h : Held w s) : Held w (s.die w p) := by
  unfold State.die
  refine ⟨⟨h.excl.le, h.excl.one, h.excl.held, fun u hu => ?_, fun u => ?_, fun u op => ?_⟩,
    fun u => ?_, h.owns, h.owner, h.returns⟩
  · by_cases hu' : w.pid u = p
    · simp [hu', Futex.Pc.needs] at hu
    · exact h.excl.needs u (by simpa [hu'] using hu)
  · by_cases hu' : w.pid u = p
    · simp [hu', Futex.Pc.fd]
    · simpa [hu'] using h.excl.fd u
  · by_cases hu' : w.pid u = p
    · simp [hu']
    · simpa [hu'] using h.excl.fresh u op
  · by_cases hu' : w.pid u = p
    · refine ⟨?_, ?_, ?_, ?_, ?_, ?_⟩ <;> simp [hu', Pc.Calls, Futex.Pc.outside, Futex.Pc.fd]
    · exact (h.fits u).congr (update_of_ne hu' _ _) (if_neg hu') (if_neg hu') (Or.inl rfl)

theorem Initial.held {robust : Bool} (h : Initial robust s) : Held w s := by
  obtain ⟨type, hmx⟩ := h.mutex
  refine ⟨h.futex.excl, fun t => ?_, fun t ht => ?_, fun hne => ?_, fun r hr => ?_⟩
  · have hq := h.futex.idle t
    refine ⟨?_, ?_, ?_, ?_, ?_, ?_⟩ <;>
      simp [h.pc t, hq, h.dead, Pc.Calls, Futex.Pc.outside, Futex.Pc.fd]
  · rw [h.owns t] at ht
    cases ht
  · rw [hmx] at hne
    exact absurd rfl hne
  · rw [h.returns] at hr
    cases hr

variable [DecidableEq T]

theorem Held.move (h : Held w s) (hexcl : Futex.Excl s'.futex)
    (hholds : s'.futex.holds = s.futex.holds) (hdead : s'.dead = s.dead)
    (howns : s'.owns = s.owns) (hm : s'.mutex.holder = s.mutex.holder)
    (hreturns : ∀ r ∈ s'.returns, r ∈ s.returns ∨ r.took = false)
    (hothers : ∀ u, u ≠ t → s'.pc u = s.pc u ∧ s'.futex.pc u = s.futex.pc u)
    (ht : Fits w s' t) : Held w s' := by
  simp only [SharedMutex.holder, Prod.mk.injEq] at hm
  refine ⟨hexcl, fun u => ?_, fun u hu => ?_, fun hne => ?_, fun r hr htook hrc => ?_⟩
  · by_cases hut : u = t
    · exact hut ▸ ht
    · exact (h.fits u).congr (by rw [hdead]) (hothers u hut).1 (hothers u hut).2
        (Or.inl (by rw [howns]))
  · rw [howns] at hu
    rw [hholds, hm.1, hm.2.1, hm.2.2]
    exact h.owns u hu
  · rw [hm.2.2] at hne
    rw [howns]
    exact h.owner hne
  · rcases hreturns r hr with hr | hr
    · exact h.returns r hr htook hrc
    · rw [htook] at hr
      cases hr

theorem held_retTake {mx : SharedMutex P} (hexcl : Futex.Excl s.futex) (hfits : ∀ u, Fits w s u)
    (hreturns : ∀ r ∈ s.returns, r.took = true → r.rc = .ok → r.futex = true)
    (halive : s.pc t ≠ .dead) (hout : (s.futex.pc t).outside = true)
    (hholds : s.futex.holds t = true) (hnone : ∀ u, s.owns u = true → u = t) :
    Held w (s.ret t rc tryonly extra true (mx.lockBy w t)) := by
  have howns : ∀ u, (s.ret t rc tryonly extra true (mx.lockBy w t)).owns u = true → u = t := by
    intro u hu
    by_contra hut
    simp only [State.ret, update_of_ne hut] at hu
    exact hut (hnone u hu)
  refine ⟨hexcl, fun u => ?_, fun u hu => ?_, fun _ => ⟨t, by simp [State.ret]⟩,
    fun r hr htook hrc => ?_⟩
  · by_cases hut : u = t
    · subst hut
      exact (hfits u).quiet halive rfl (update_self ..) rfl hout rfl (by simp)
    · exact (hfits u).congr rfl (update_of_ne hut _ _) rfl
        (Or.inl (update_of_ne hut _ _))
  · obtain rfl := howns u hu
    exact ⟨hholds, rfl, rfl, rfl⟩
  · rcases List.mem_cons.mp hr with rfl | hr
    · exact hholds
    · exact hreturns r hr htook hrc

theorem Held.callAcquire (h : Held w s)
    (halive : s.pc t ≠ .dead) (hpc : pc.Calls (.read (.acquire false)))
    (hnot : pc ≠ .releaseLock ∧ pc ≠ .releaseFutex) (hm : mutex.holder = s.mutex.holder) :
    Held w ({ s with mutex := mutex }.callFutex t (.acquire false) pc) := by
  refine h.move (t := t) ?_ rfl rfl rfl hm (fun r hr => Or.inl hr)
    (fun u hu => ?_) ?_
  · exact h.excl.goto (by simp [Futex.Op.entry, Futex.Pc.needs])
      (by simp [Futex.Op.entry, Futex.Pc.fd]) (by simp [Futex.Op.entry])
  · exact ⟨update_of_ne hu _ _, update_of_ne hu _ _⟩
  · exact (h.fits t).call halive rfl (update_self ..) (update_self ..) hpc hnot.1
      fun h' => absurd h' hnot.2

/-! ## The sections -/

theorem excl_takeOver {f : Futex.State T} {gone : T → Bool} (h : Futex.Excl f)
    (hheld : ∃ d, f.holds d = true ∧ gone d = true) (hidle : ∀ d, gone d = true → f.pc d = .idle) :
    Futex.Excl { f with holds := fun u => u = t || (f.holds u && !gone u) } := by
  obtain ⟨d, hd, hgone⟩ := hheld
  have honly : ∀ u, f.holds u = true → u = d := fun u hu => h.one u d hu hd
  have hnew : ∀ u, (decide (u = t) || (f.holds u && !gone u)) = true → u = t := by
    intro u hu
    by_contra hut
    simp only [hut, decide_false, Bool.false_or, Bool.and_eq_true, Bool.not_eq_true'] at hu
    rw [honly u hu.1, hgone] at hu
    cases hu.2
  refine ⟨h.le, fun u v hu hv => (hnew u hu).trans (hnew v hv).symm, fun _ _ => h.held d hd,
    fun u hu => ?_, h.fd, h.fresh⟩
  -- only the dead one could be at a place that needs the futex
  have hud := honly u (h.needs u hu)
  rw [show f.pc u = .idle from hidle u (hud ▸ hgone)] at hu
  cases hu

section

variable (h : Held w s) (halive : s.pc t ≠ .dead) (hout : (s.futex.pc t).outside = true)
include h halive hout

theorem Held.quiet (hm : mutex.holder = s.mutex.holder)
    (hpc : pc.inFutex = false) (hrel : pc = .releaseLock → s.owns t = true) :
    Held w { s.goto t pc with mutex := mutex } := by
  refine h.move (t := t) h.excl rfl rfl rfl hm (fun r hr => Or.inl hr)
    (fun u hu => ?_) ?_
  · exact ⟨update_of_ne hu _ _, rfl⟩
  · exact (h.fits t).quiet halive rfl (update_self ..) rfl hout hpc hrel

theorem Held.retKeep (hm : mutex.holder = s.mutex.holder) :
    Held w (s.ret t rc tryonly extra false mutex) := by
  refine h.move (t := t) h.excl rfl rfl ?_ hm (fun r hr => ?_) (fun u hu => ?_) ?_
  · simp [State.ret]
  · rcases List.mem_cons.mp hr with rfl | hr
    · exact Or.inr rfl
    · exact Or.inl hr
  · exact ⟨update_of_ne hu _ _, rfl⟩
  · exact (h.fits t).quiet halive rfl (update_self ..) rfl hout rfl (by simp)

theorem Held.retTake {mx : SharedMutex P} (hholds : s.futex.holds t = true) :
    Held w (s.ret t rc tryonly extra true (mx.lockBy w t)) :=
  held_retTake h.excl h.fits h.returns halive hout hholds
    fun u hu => h.excl.one u t (h.owns u hu).1 hholds

theorem Held.wait : Held w (s.wait t extra bounded) := by
  unfold State.wait
  split <;> exact h.quiet halive hout rfl rfl (by simp)

theorem Held.takeOver (hkill : s.killFails s.mutex.ownerPid = true) :
    Held w (s.takeOver w t extra) := by
  simp only [State.killFails, Bool.and_eq_true, decide_eq_true_eq] at hkill
  obtain ⟨d, hd⟩ := h.owner hkill.1
  obtain ⟨hholds, -, -, hpid⟩ := h.owns d hd
  have hdead : s.dead (w.pid d) = true := hpid ▸ hkill.2
  refine held_retTake ?_ (fun u => ?_) h.returns halive hout (by simp) (fun u hu => ?_)
  · exact excl_takeOver h.excl ⟨d, hholds, hdead⟩ fun u hu => ((h.fits u).dead hu).2
  · refine (h.fits u).congr rfl rfl rfl ?_
    by_cases hu : s.dead (w.pid u) = true
    · exact Or.inr hu
    · exact Or.inl (by simp [hu])
  · simp only [Bool.and_eq_true, Bool.not_eq_true'] at hu
    have hud := h.excl.one u d (h.owns u hu.1).1 hholds
    rw [hud, hdead] at hu
    cases hu.2

theorem Held.contend [DecidableEq P] {needFutex : Bool} :
    Held w (s.contend w t tryonly extra bounded needFutex) := by
  simp only [State.contend]
  split
  · split <;> exact h.retKeep halive hout rfl
  split
  · exact h.retKeep halive hout rfl
  split
  next hrobust => exact h.takeOver halive hout hrobust.2
  split
  · exact h.callAcquire halive rfl (by simp) rfl
  · exact h.wait halive hout

theorem Held.resume
    (hm : mutex.holder = s.mutex.holder) : Held w (s.resume t extra bounded mutex) := by
  unfold State.resume
  split
  · exact h.retKeep halive hout hm
  · exact h.callAcquire halive rfl (by simp) hm

end

theorem Held.unlock (h : Held w s) (hpc : s.pc t = .releaseLock) : Held w (s.unlock t) := by
  obtain ⟨hholds, -, -, -⟩ := h.owns t ((h.fits t).releasing hpc)
  have hnone : ∀ u, update s.owns t false u = true → False := by
    intro u hu
    by_cases hut : u = t
    · simp [hut] at hu
    · rw [update_of_ne hut] at hu
      exact hut (h.excl.one u t (h.owns u hu).1 hholds)
  refine ⟨?_, fun u => ?_, fun u hu => (hnone u hu).elim, fun hne => absurd rfl hne, h.returns⟩
  · exact h.excl.goto (fun _ => hholds) (by simp [Futex.Op.entry, Futex.Pc.fd])
      (by simp [Futex.Op.entry])
  · by_cases hut : u = t
    · subst hut
      exact (h.fits u).call (by rw [hpc]; simp) rfl (update_self ..)
        (update_self ..) rfl (by simp) fun _ => update_self ..
    · exact (h.fits u).congr rfl (update_of_ne hut _ _) (update_of_ne hut _ _)
        (Or.inl (update_of_ne hut _ _))

/-! ## The steps -/

/-- A thread on the path without contention. -/
def Pc.uncontended : Pc → Bool
  | .first _ _ _ => true
  | _ => false

/-- The conditions on a step: the futex word is above `FUTEX_PASSED`; `FUTEX_FD` returns a
descriptor or an error, and on the path without contention no error but -1; a release
that passes the test of `mx_owner` is made by the holder. -/
def Careful (w : Threads T P) (s : State T P) : Action T → Prop
  | .futex t result => Futex.futexPassed < s.futex.count ∧
      (s.futex.pc t = .await → result ≠ 0 ∧ ((s.pc t).uncontended = true → -1 ≤ result))
  | .go t _ => s.pc t = .releaseOwner → s.mutex.owner = some (w.ptr t) → s.owns t = true
  | _ => True

instance [DecidableEq P] (w : Threads T P) (s : State T P) (a : Action T) :
    Decidable (Careful w s a) := by
  rcases a <;> dsimp only [Careful] <;> infer_instance

theorem Fits.acquires {result : Int} {f : Futex.State T} (h : Fits w s t)
    (hok : Careful w s (.futex t result)) (hin : (s.pc t).inFutex = true)
    (hcalls : ∀ q, (s.pc t).Calls q ↔ q.inAcquire = true) (hf : s.futex.go t result = some f) :
    Fits w { s with futex := f } t := by
  obtain ⟨h₁, -, h₂, h₃⟩ := Futex.go_acquire ((hcalls _).mp h.calls) hf
  refine ⟨(hcalls _).mpr h₁, h.releasing, h.gave, fun fd hq => ?_,
    fun tryonly extra bounded fd hp hq => ?_, fun hd => ?_⟩
  · rcases h₂ fd hq with hq | ⟨-, -, h0⟩
    · exact h.fd fd hq
    · exact h0
  · rcases h₃ fd hq with h0 | hq | ⟨hq, rfl, -⟩
    · omega
    · have := h.fd fd hq
      omega
    · exact (hok.2 hq).2 (by rw [hp]; rfl)
  · rw [(h.dead hd).1] at hin
    cases hin

theorem Fits.gives {result : Int} {f : Futex.State T} (h : Fits w s t)
    (hpc : s.pc t = .releaseFutex) (hup : (s.futex.pc t).inUp = true)
    (hf : s.futex.go t result = some f) : Fits w { s with futex := f } t := by
  have hup' := Futex.go_up hup hf
  refine ⟨?_, h.releasing, h.gave, fun fd hq => ?_, fun tryonly extra bounded fd hp _ => ?_,
    fun hd => ?_⟩
  · show (s.pc t).Calls (f.pc t)
    rw [hpc]
    exact hup'
  · rw [Futex.fd_of_inUp hup'] at hq
    cases hq
  · cases hpc.symm.trans hp
  · rw [(h.dead hd).1] at hpc
    cases hpc

theorem Held.futex {result : Int} {f : Futex.State T} (h : Held w s)
    (hok : Careful w s (.futex t result)) (hin : (s.pc t).inFutex = true)
    (hf : s.futex.go t result = some f) : Held w { s with futex := f } := by
  have hfits := h.fits t
  have hclass := calls_of_inFutex hin
  have hproper : Futex.Proper s.futex (.go t result) := by
    show (s.futex.pc t).accepts result
    cases hq : s.futex.pc t with
    | await => exact (hok.2 hq).1
    | wait =>
      have hcalls := hfits.calls
      rw [hq] at hcalls
      rcases hclass with ⟨-, hc⟩ | ⟨-, hc⟩ <;> cases (hc _).mp hcalls
    | _ => trivial
  have hframe := fun u (hu : u ≠ t) => Futex.go_frame hf hu
  refine ⟨h.excl.step hproper hok.1 hf, fun u => ?_, fun u hu => ?_, h.owner, h.returns⟩
  · by_cases hut : u = t
    · subst hut
      rcases hclass with ⟨-, hc⟩ | ⟨hpc, hc⟩
      · exact hfits.acquires hok hin hc hf
      · exact hfits.gives hpc ((hc _).mp hfits.calls) hf
    · exact (h.fits u).congr rfl rfl (hframe u hut).1 (Or.inl rfl)
  · obtain ⟨hholds, hrest⟩ := h.owns u hu
    refine ⟨?_, hrest⟩
    by_cases hut : u = t
    · subst hut
      rcases hclass with ⟨-, hc⟩ | ⟨hpc, -⟩
      · exact (Futex.go_acquire ((hc _).mp hfits.calls) hf).2.1 hholds
      · -- a thread in `futex_up` has given the mutex away
        rw [hfits.gave hpc] at hu
        cases hu
    · rw [(hframe u hut).2]
      exact hholds

variable [DecidableEq P]

theorem Held.go {occurred : Bool} (h : Held w s) (hok : Careful w s (.go t occurred))
    (hs : s.go w t occurred = some s') : Held w s' := by
  have hcalls := (h.fits t).calls
  have halive : s.pc t ≠ .dead := by
    intro hdead
    simp [State.go, hdead] at hs
  -- a call of `futex_acquire` that has returned leaves `t` outside the futex code
  have hout : ∀ fd, s.futex.pc t = .returned (.acquire false) fd →
      (s.futex.pc t).outside = true := by
    intro fd hq
    rw [hq]
    rfl
  cases State.go_turn hs with
  | ask hpc => exact h.callAcquire halive rfl (by simp) rfl
  | contend hpc =>
    rw [hpc] at hcalls
    exact h.contend halive hcalls
  | firstFd hpc hq hfd => exact h.contend halive (hout _ hq)
  | firstError hpc hq | futexError hpc hq => exact h.retKeep halive (hout _ hq) rfl
  | @firstTake tryonly extra bounded fd hpc hq hfd herror =>
    -- neither a descriptor nor an error
    have hlow := (h.fits t).error tryonly extra bounded fd hpc hq
    have h0 : fd = 0 := by omega
    exact h.retTake halive (hout _ hq) (h.excl.needs t (by simp [hq, h0, Futex.Pc.needs]))
  | futexTake hpc hq =>
    exact h.retTake halive (hout _ hq) (h.excl.needs t (by simp [hq, Futex.Pc.needs]))
  | futexWait hpc hq h0 herror => exact h.wait halive (hout _ hq)
  | interrupted hpc hextra hnot =>
    rw [hpc] at hcalls
    exact h.retKeep halive hcalls rfl
  | woken hpc | timed hpc =>
    rw [hpc] at hcalls
    exact h.resume halive hcalls rfl
  | notLocked hpc | locked hpc | notOwner hpc | countDown hpc =>
    rw [hpc] at hcalls
    exact h.quiet halive hcalls rfl rfl (by simp)
  | owner hpc howner =>
    rw [hpc] at hcalls
    exact h.quiet halive hcalls rfl rfl fun _ => hok hpc howner
  | unlock hpc => exact h.unlock hpc
  | gaveBack hpc hq => exact h.quiet halive (by rw [hq]; rfl) rfl rfl (by simp)

theorem Held.step (h : Held w s) (hok : Careful w s a) (hs : s.step w a = some s') :
    Held w s' := by
  cases a with
  | acquire t | release t =>
    obtain ⟨hout, ⟨⟩⟩ := Option.ite_none_right_eq_some.mp hs
    obtain ⟨halive, hq⟩ := (h.fits t).outside hout
    exact h.quiet halive hq rfl rfl (by simp)
  | go t occurred => exact h.go hok hs
  | futex t result =>
    obtain ⟨hin, hs⟩ := Option.ite_none_right_eq_some.mp hs
    obtain ⟨f, hf, rfl⟩ := Option.map_eq_some_iff.mp hs
    exact h.futex hok hin hf
  | die p =>
    cases hs
    exact h.die
  | consistent =>
    cases hs
    exact ⟨h.excl, fun u => (h.fits u).congr rfl rfl rfl (Or.inl rfl), h.owns, h.owner, h.returns⟩

/-! ## Exclusion -/

/-- An acquire that has locked the mutex and returned 0 had the futex, and at most one
thread has the mutex. -/
structure Exclusive (s : State T P) : Prop where
  futex : ∀ r ∈ s.returns, r.took = true → r.rc = .ok → r.futex = true
  one   : ∀ t u, s.owns t = true → s.owns u = true → t = u

/-- **A shared mutex needs the futex**, in runs that meet the conditions of `Careful`. -/
theorem shared_needs_futex (w : Threads T P) (robust : Bool) (s : State T P)
    (hs : Reachable (State.step w) (Careful w) (Initial robust) s) : Exclusive s := by
  have hI : Held w s := hs.invariant (fun s h => h.held) fun s a s' hI hok h => hI.step hok h
  exact ⟨hI.returns, fun t u ht hu => hI.excl.one t u (hI.owns t ht).1 (hI.owns u hu).1⟩

/-- Every thread is a process of its own. -/
def separate : Threads Nat Nat where
  ptr t := t
  pid t := t + 1
  pid_ne t := Nat.succ_ne_zero t
  distinct _ _ h _ := h

def initState (robust : Bool) : State Nat Nat where
  mutex := pthMutexInit .timedNp robust
  futex := ⟨1, fun _ => .idle, fun _ => false⟩
  pc _ := .idle
  dead _ := false
  owns _ := false
  returns := []

theorem initState_initial (robust : Bool) : Initial robust (initState robust) :=
  ⟨⟨_, rfl⟩, ⟨rfl, fun _ => rfl, fun _ => rfl⟩, fun _ => rfl, fun _ => rfl, fun _ => rfl, rfl⟩

/-- Thread `t` acquires the free mutex, up to its last section. -/
def getsFutex (t : Nat) : List (Action Nat) :=
  [.acquire t false false false, .go t true, .futex t 0, .futex t 0]

/-- Thread `t` finds the futex taken and waits for the descriptor `fd`. -/
def waitsFor (t : Nat) (fd : Int) : List (Action Nat) :=
  [.acquire t false false false, .go t true, .futex t 0, .futex t 0, .futex t fd, .futex t 0,
    .futex t 0, .go t true]

/-- Thread `t` releases the mutex, for which somebody waits. -/
def givesBack (t : Nat) : List (Action Nat) :=
  [.release t, .go t true, .go t true, .go t true, .futex t 0, .futex t 0, .futex t 1, .go t true]

theorem shared_needs_futex_handover :
    ∃ s : State Nat Nat, runOk (State.step separate) (Careful separate) (initState false)
        (getsFutex 0 ++ [.go 0 true] ++ waitsFor 1 5 ++ givesBack 0 ++
          [.go 1 true, .futex 1 0, .futex 1 0, .go 1 true]) = some s ∧
      s.owns 1 = true ∧ Exclusive s := by
  refine exists_and_of_any (fun _ => id) (by decide +kernel) fun s hs _ => ?_
  exact shared_needs_futex separate false s
    (reachable_of_runOk (.init (initState_initial false)) hs)

/-- Thread 0 has the futex and has not locked the mutex yet. Thread 1 does not get the
futex, and `FUTEX_FD` fails with `EMFILE` for it: both lock the mutex. -/
theorem error_locks_mutex :
    ∃ s : State Nat Nat, Reachable (State.step separate) Always (Initial false) s ∧
      s.pc 0 = .acquired .ok ∧ s.pc 1 = .acquired .ok ∧ s.owns 0 = true ∧ s.owns 1 = true ∧
      ¬ Exclusive s := by
  obtain ⟨s, hs, hpc0, hpc1, h0, h1⟩ : ∃ s, run (State.step separate) (initState false)
      (getsFutex 0 ++ getsFutex 1 ++ ([.futex 1 (-24), .go 1 true, .go 0 true] : List (Action Nat)))
      = some s ∧ s.pc 0 = .acquired .ok ∧ s.pc 1 = .acquired .ok ∧ s.owns 0 = true ∧
      s.owns 1 = true := exists_of_any (by decide +kernel)
  refine ⟨s, reachable_of_run (.init (initState_initial false)) hs, hpc0, hpc1, h0, h1,
    fun hexcl => ?_⟩
  cases hexcl.one 0 1 h0 h1

end Ngpt.Sync.Shared
