import Ngpt.Sync.RwlockStray

/-!
# ngpt — what becomes of the release of a stranger

A mutex call that need not wait is over after at most three pieces (`go_left`), so the
release of a stranger comes to its end once it can have `rw_mutex_rd`.

Result: `stray_release_iff`.
-/

namespace Ngpt.Sync.Rwlock.Stray

open Function Transition

variable {Tid D : Type} {s s' : State Tid D} {t : Tid} {m : RwMutex} {ms : Sys RwMutex Tid D}

/-- How many pieces of a mutex call are left at most, if it need not wait. -/
def left : Sync.Pc RwMutex → Nat
  | .releaseState _ => 3
  | .acquire _ _ _ _ | .releaseOwner _ => 2
  | .waitEvent _ _ | .waitSelect _ | .releaseLock _ => 1
  | .idle | .returned _ => 0

/-- The call still has to get `rw_mutex_rd`. -/
def Needs (s : State Tid D) (t : Tid) : Prop :=
  (∃ bounded, s.lock.pc t = .test bounded) ∨ (s.lock.mutexes.pc t).acquires = some .rd

/-- How many statements of the call are left at most. -/
def rank : Pc → Nat
  | .test _ => 6
  | .lockDec => 5
  | .unlockLast _ => 4
  | .storeDec | .undoDec _ => 3
  | .unlockDec | .unlockRw _ => 2
  | _ => 0

theorem not_needs (hpc : rank (s.lock.pc t) < 6) (hq : (s.lock.mutexes.pc t).acquires = none) :
    ¬ Needs s t := by
  rintro (⟨bounded, htest⟩ | hacq)
  · simp [htest, rank] at hpc
  · simp [hq] at hacq

/-- The mutex that is asked for is not locked. -/
def Free (ms : Sys RwMutex Tid D) (t : Tid) : Prop :=
  ∀ m, (ms.pc t).acquires = some m → (ms.mem.mutex m).locked = false

theorem Place.free (h : Place s t)
    (hfree : Needs s t → (s.lock.mutexes.mem.mutex .rd).locked = false) :
    Free s.lock.mutexes t := by
  intro m hm
  cases m with
  | rd => exact hfree (Or.inr hm)
  | rw => exact absurd hm h.acquires

variable [DecidableEq Tid]

theorem Place.next (h : Place s t) (hout : (s.lock.mutexes.pc t).outside = true) :
    (∃ rc, s.lock.pc t = .released rc) ∨ ∃ s', s.cont t = some s' := by
  unfold Place at h
  unfold State.cont
  cases hq : s.lock.mutexes.pc t <;> simp only [hq] at h hout
  case idle | returned =>
    cases hpc : s.lock.pc t <;> simp only [hpc] at h ⊢
    case released rc => exact Or.inl ⟨rc, rfl⟩
    all_goals
      simp [Denied, Sync.Pc.acquires, Sync.Pc.wants, Sync.Pc.releases] at h ⊢ <;> split_ifs <;>
        exact ⟨_, rfl⟩
  all_goals cases hout

theorem acquireResume_free {mem : Mem RwMutex Tid D}
    (hfree : (mem.mutex m).locked = false) (bounded : Bool) :
    (mem.acquireResume t m bounded).1 = some .ok := by
  unfold Mem.acquireResume
  cases bounded <;> simp [Mem.removeWaiter, hfree]

theorem acquired_returned {q : Sync.Pc RwMutex}
    {r : Option Errno × Mem RwMutex Tid D} {rc : Errno} (h : r.1 = some rc) :
    (ms.acquired t m q r).pc t = .returned rc := by
  obtain ⟨rc', mem⟩ := r
  obtain rfl : rc' = some rc := h
  simp only [Sys.acquired]
  split <;> exact update_self ..

/-- The call has returned, or there is less of it left. -/
def Shortens (ms ms' : Sys RwMutex Tid D) (t : Tid) : Prop :=
  (∃ rc, ms'.pc t = .returned rc) ∨
    (left (ms'.pc t) < left (ms.pc t) ∧ (ms'.pc t).outside = false ∧ Free ms' t)

theorem release_shortens {q : Sync.Pc RwMutex}
    (hless : left q < left (ms.pc t)) (hout : q.outside = false) (hq : q.acquires = none) :
    Shortens ms (ms.goto t q) t := by
  have hself : (ms.goto t q).pc t = q := update_self ..
  unfold Shortens Free
  rw [hself, hq]
  exact Or.inr ⟨hless, hout, nofun⟩

theorem cont_rank (hc : s.cont t = some s') :
    rank (s'.lock.pc t) < rank (s.lock.pc t) ∧ (Needs s' t → Needs s t) := by
  have hgoto : ∀ {k : State Tid D} {p : Pc} {rc : Errno}, rank p < 6 →
      k.lock.mutexes.pc t = .returned rc → ¬ Needs (k.goto t p) t :=
    fun hp hq => not_needs (by rwa [goto_pc]) (congrArg Sync.Pc.acquires hq)
  have hcall : ∀ {k : State Tid D} {p : Pc} (m : RwMutex), rank p < 6 →
      ¬ Needs (k.call t (.releaseState m) p) t :=
    fun m hp => not_needs (by rwa [call_pc]) (by rw [call_q]; rfl)
  unfold State.cont at hc
  split at hc
  case h_1 hpc =>
    split at hc <;> cases hc <;> rw [hpc, call_pc] <;>
      exact ⟨by simp [rank], fun _ => Or.inl ⟨_, hpc⟩⟩
  case h_2 hpc hq | h_5 hpc hq | h_7 hpc hq =>
    cases hc
    rw [hpc, goto_pc]
    exact ⟨by simp [rank], fun hn => absurd hn (hgoto (by simp [rank]) hq)⟩
  case h_3 hpc hq =>
    simp only at hc
    repeat' split at hc
    all_goals cases hc
    · rw [hpc, call_pc]
      exact ⟨by simp [rank], fun hn => absurd hn (hcall _ (by simp [rank]))⟩
    all_goals
      rw [hpc, goto_pc]
      exact ⟨by simp [rank], fun hn => absurd hn (hgoto (by simp [rank]) hq)⟩
  case h_4 hpc hq =>
    split at hc <;> cases hc
    · rw [hpc, goto_pc]
      exact ⟨by simp [rank], fun hn => absurd hn (hgoto (by simp [rank]) hq)⟩
    · rw [hpc, call_pc]
      exact ⟨by simp [rank], fun hn => absurd hn (hcall _ (by simp [rank]))⟩
  case h_6 hpc =>
    cases hc
    rw [hpc, call_pc]
    exact ⟨by simp [rank], fun hn => absurd hn (hcall _ (by simp [rank]))⟩
  case h_8 => cases hc

variable [DecidableEq D]

theorem acquire_shortens {ms ms' : Sys RwMutex Tid D}
    {tryonly extra bounded : Bool} (hpc : ms.pc t = .acquire m tryonly extra bounded)
    (hm : (ms.mem.mutex m).locked = false) (hgo : ms.go t true = some ms') :
    Shortens ms ms' t := by
  unfold Shortens Free
  rw [hpc]
  cases piece_of_go hgo with
  | @wait k extra' q mem hw hwait hsame =>
    obtain ⟨rfl, rfl⟩ : m = k ∧ extra = extra' := by simpa [hpc, Sync.Pc.wants] using hw
    have hself : (ms.goto t q).pc t = q := update_self ..
    refine Or.inr ?_
    show left ((ms.goto t q).pc t) < _ ∧ ((ms.goto t q).pc t).outside = false ∧
      ∀ k, ((ms.goto t q).pc t).acquires = some k → (mem.mutex k).locked = false
    rw [hself]
    have hfree := (hsame.locked m).trans hm
    rcases hwait with rfl | rfl <;> exact ⟨Nat.lt_succ_self _, rfl,
      fun k hk => by cases hk; exact hfree⟩
  | locked hq | owner hq => cases hpc.symm.trans hq
  | _ => exact Or.inl ⟨_, update_self ..⟩

theorem go_left (hun : Unlatched ms) (hq : (ms.pc t).outside = false)
    (hfree : Free ms t) : ∃ ms', ms.go t true = some ms' ∧ Shortens ms ms' t := by
  have hend : ∀ rc, Shortens ms (ms.goto t (.returned rc)) t :=
    fun rc => Or.inl ⟨rc, update_self ..⟩
  cases hpc : ms.pc t with
  | idle | returned => cases hpc ▸ hq
  | releaseState m =>
    simp only [Sys.go, hpc, hun m]
    by_cases hl : (ms.mem.mutex m).locked = true
    · exact ⟨ms.goto t (.releaseOwner m), if_pos hl,
        release_shortens (hpc ▸ Nat.lt_succ_self _) rfl rfl⟩
    · exact ⟨ms.goto t (.returned .eperm), if_neg hl, hend _⟩
  | releaseOwner m =>
    simp only [Sys.go, hpc]
    by_cases hown : (ms.mem.mutex m).owner ≠ some t
    · exact ⟨ms.goto t (.returned .eperm), if_pos hown, hend _⟩
    · exact ⟨ms.goto t (.releaseLock m), if_neg hown,
        release_shortens (hpc ▸ Nat.lt_succ_self _) rfl rfl⟩
  | releaseLock m =>
    simp only [Sys.go, hpc]
    exact ⟨_, rfl, Or.inl ⟨.ok, update_self ..⟩⟩
  | waitEvent m extra =>
    have hm : (ms.mem.mutex m).locked = false := hfree m (hpc ▸ rfl)
    simp only [Sys.go, hpc]
    rw [if_neg (by simp)]
    exact ⟨_, rfl, Or.inl ⟨.ok, acquired_returned (acquireResume_free hm false)⟩⟩
  | waitSelect m =>
    have hm : (ms.mem.mutex m).locked = false := hfree m (hpc ▸ rfl)
    simp only [Sys.go, hpc]
    exact ⟨_, rfl, Or.inl ⟨.ok, acquired_returned (acquireResume_free hm true)⟩⟩
  | acquire m tryonly extra bounded =>
    obtain ⟨ms', hgo⟩ : ∃ ms', ms.go t true = some ms' := by
      simp [Sys.go, hpc, hun m]
    exact ⟨ms', hgo, acquire_shortens hpc (hfree m (hpc ▸ rfl)) hgo⟩

/-! ## The call returns -/

/-- The steps of the call that `t` is in. -/
def Own (t : Tid) : Action Tid D → Prop
  | .cont u => u = t
  | .use (.mutex u _) => u = t
  | _ => False

/-- With steps of its own the call of `t` comes to its end. -/
inductive Returns (t : Tid) : State Tid D → Prop where
  | done {s : State Tid D} {rc : Errno} (h : s.lock.pc t = .released rc) : Returns t s
  | step {s s' : State Tid D} {a : Action Tid D} (ha : Own t a) (hs : s.step a = some s')
      (h : Returns t s') : Returns t s

/-- The state after a piece of the mutex code. -/
def State.withMutexes (s : State Tid D) (ms : Sys RwMutex Tid D) : State Tid D :=
  { s with lock := { s.lock with mutexes := ms } }

theorem step_mutex {occurred : Bool} (hgo : s.lock.mutexes.go t occurred = some ms) :
    s.step (.use (.mutex t occurred)) = some (s.withMutexes ms) := by
  simp only [State.step, Rwlock.State.step, hgo, Option.map_some, stray_mutex]
  rfl

theorem holders_of_own {a : Action Tid D} (ha : Own t a) (hs : s.step a = some s') :
    s'.lock.reading = s.lock.reading ∧ s'.lock.writing = s.lock.writing := by
  cases a with
  | release => cases ha
  | cont u =>
    have hstep := step_of_cont (Option.ite_none_right_eq_some.mp hs).2
    exact ⟨hstep.reading, hstep.writing⟩
  | use a =>
    cases a with
    | mutex u occurred =>
      obtain ⟨l', hl, rfl⟩ := Option.map_eq_some_iff.mp hs
      obtain ⟨ms, -, rfl⟩ := Option.map_eq_some_iff.mp hl
      exact ⟨rfl, rfl⟩
    | _ => cases ha

theorem left_le (q : Sync.Pc RwMutex) : left q ≤ 3 := by
  cases q <;> simp [left]

theorem Inv.returns (h : Inv s) (hstray : s.stray t = true)
    (hfree : Needs s t → (s.lock.mutexes.mem.mutex .rd).locked = false) : Returns t s := by
  -- on the statements left, then on the pieces of the mutex call
  induction hn : 4 * rank (s.lock.pc t) + left (s.lock.mutexes.pc t)
    using Nat.strong_induction_on generalizing s with
  | _ n ih =>
    have hplace := h.place t hstray
    by_cases hout : (s.lock.mutexes.pc t).outside = true
    · rcases hplace.next hout with ⟨rc, hpc⟩ | ⟨s', hc⟩
      · exact .done hpc
      · have hstep : s.step (.cont t) = some s' := (if_pos hstray).trans hc
        have hkept := step_of_cont hc
        obtain ⟨hrank, hneeds⟩ := cont_rank hc
        have hleft := left_le (s'.lock.mutexes.pc t)
        refine .step (a := .cont t) rfl hstep (ih _ (by omega) (h.step hstep) ?_ (fun hs => ?_) rfl)
        · rw [hkept.stray]
          exact hstray
        · rw [hkept.moved.mem]
          exact hfree (hneeds hs)
    · obtain ⟨ms, hgo, hshort⟩ := go_left h.unlatched (by simpa using hout) (hplace.free hfree)
      have hstep := step_mutex hgo
      refine .step (a := .use (.mutex t true)) rfl hstep (ih _ ?_ (h.step hstep) hstray ?_ rfl)
      · have hpos : 0 < left (s.lock.mutexes.pc t) := by
          cases hq : s.lock.mutexes.pc t <;> simp_all [left, Sync.Pc.outside]
        have hless : left (ms.pc t) < left (s.lock.mutexes.pc t) := by
          rcases hshort with ⟨rc, hrc⟩ | hshort
          · rwa [hrc]
          · exact hshort.1
        rw [← hn]
        exact Nat.add_lt_add_left hless _
      · rintro (⟨bounded, hpc⟩ | hacq)
        · unfold Place at hplace
          rw [show s.lock.pc t = _ from hpc] at hplace
          exact absurd hplace.2 hout
        · rcases hshort with ⟨rc, hrc⟩ | ⟨-, -, hms⟩
          · rw [show (s.withMutexes ms).lock.mutexes.pc t = _ from hrc] at hacq
            cases hacq
          · exact hms _ hacq

/-- **Releases by strangers.** Of a `pth_rwlock_release` by a thread that holds nothing,
whatever the others do: no step changes the holders; it returns if `rw_mutex_rd` is free; and
it has returned an error, and changed neither `rw_readers` nor `rw_mode`, exactly if it has not
found another count of readers than 1. -/
theorem stray_release_iff (s : State Tid D) (hs : Reachable State.step Always Initial s) (t : Tid)
    (hstray : s.stray t = true) :
    (∀ a s', Own t a → s.step a = some s' →
      s'.lock.reading = s.lock.reading ∧ s'.lock.writing = s.lock.writing) ∧
    ((Needs s t → (s.lock.mutexes.mem.mutex .rd).locked = false) → Returns t s) ∧
    ∀ rc, s.lock.pc t = .released rc →
      ((rc ≠ .ok ∧ s.net t = 0 ∧ s.stored t = false) ↔ ∀ n, s.found t = some n → n = 1) := by
  have hI : Inv s := hs.invariant (fun _ h => h.inv) fun _ _ _ h _ hstep => h.step hstep
  refine ⟨fun a s' ha hstep => ?_, hI.returns hstray, fun rc hrc => ?_⟩
  · exact holders_of_own ha hstep
  · have hplace := hI.place t hstray
    unfold Place at hplace
    rw [hrc] at hplace
    exact hplace.2

/-- A lock just initialised. -/
def init : State Nat Unit where
  lock   := initState
  stray  := fun _ => false
  net    := fun _ => 0
  found  := fun _ => none
  stored := fun _ => false

theorem init_initial : Initial init := ⟨initState_initial, fun _ => rfl⟩

/-- Thread 0 reads, and thread 2 releases the lock. -/
def oneReader : List (Action Nat Unit) :=
  (acquireRd 0 true).map .use ++
    ([.release 2 false, .cont 2, .use (.mutex 2 true), .cont 2, .use (.mutex 2 true),
      .use (.mutex 2 true), .cont 2, .use (.mutex 2 true), .use (.mutex 2 true),
      .use (.mutex 2 true), .cont 2] : List (Action Nat Unit))

theorem stray_release_iff_one :
    ∃ s : State Nat Unit, Reachable State.step Always Initial s ∧ s.stray 2 = true ∧
      s.lock.pc 2 = .released .eperm ∧ s.found 2 = some 1 ∧
      ((Errno.eperm ≠ .ok ∧ s.net 2 = 0 ∧ s.stored 2 = false) ↔
        ∀ n, s.found 2 = some n → n = 1) := by
  refine exists_and_of_any₃ (o := run State.step init oneReader)
    (fun _ => reachable_of_run (.init init_initial)) (by decide +kernel)
    fun s hs hstray hpc _ => ?_
  exact (stray_release_iff s hs 2 hstray).2.2 .eperm hpc

/-- Threads 0 and 1 read, and thread 2 releases the lock. -/
def twoReaders : List (Action Nat Unit) :=
  (acquireRd 0 true ++ acquireRd 1 false).map .use ++
    ([.release 2 false, .cont 2, .use (.mutex 2 true), .cont 2, .cont 2, .use (.mutex 2 true),
      .use (.mutex 2 true), .use (.mutex 2 true), .cont 2] : List (Action Nat Unit))

/-- The release of the stranger returns 0, and one reader is counted of the two. -/
theorem stranger_releases :
    ∃ s : State Nat Unit, Reachable State.step Always Initial s ∧ s.stray 2 = true ∧
      s.lock.pc 2 = .released .ok ∧ s.lock.reading = [1, 0] ∧ s.lock.readers = 1 := by
  exact exists_reachable init_initial twoReaders (by decide +kernel)

end Ngpt.Sync.Rwlock.Stray
