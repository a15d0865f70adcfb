import Ngpt.Sync.Signals

/-!
# ngpt — the fields of a condition variable (`pth_cond_await`, `pth_cond_notify`)

`cn_waiters`, `cn_wakecnt` and the three flags of `cn_state`, read together whenever
nobody has `cn_lock`. They are changed by the threads that come and go, by those that
notify, and by the event manager, which takes no lock.

Results: `cond_consistent`, `wakecnt_wraps`.
-/

namespace Ngpt.Sync.Condvar

open Transition

variable {Mid Tid D : Type} {s s' : State Mid Tid D} {t : Tid} {a : Action Mid Tid D}

/-- The section of a notify. -/
def Pc.atSignal : Pc Mid Tid D → Bool
  | .signal _ _ => true
  | _ => false

/-- Neither counter wraps: a thread counted in finds `cn_waiters`, and a notify that has
somebody to wake up finds `cn_wakecnt`, below the largest `unsigned int`. -/
def Counts (s : State Mid Tid D) (a : Action Mid Tid D) : Prop :=
  InRange s a ∧ a.onGo fun t => (s.pc t).atSignal = true → 0 < s.cond.waiters →
    s.cond.wakecnt + 1 < Unsigned.range

instance (s : State Mid Tid D) (a : Action Mid Tid D) : Decidable (Counts s a) := by
  unfold Counts; infer_instance

/-- The fields while `cn_lock` is free. A thread that leaves never decrements a
`cn_wakecnt` of 0: that would make it the largest `unsigned int`. -/
structure Consistent [DecidableEq Mid] [DecidableEq Tid] [DecidableEq D] (s : State Mid Tid D) :
    Prop where
  waiters  : ∃ ts : List Tid, ts.Nodup ∧ (∀ t, t ∈ ts ↔ (s.pc t).counted = true) ∧
    s.cond.waiters = ts.length
  signaled : s.cond.signaled = true ↔ 1 ≤ s.cond.wakecnt
  flags    : s.cond.broadcast = true ∨ s.cond.handled = true → s.cond.signaled = true
  taken    : ∀ t isBound s', (s.pc t).returning = true → s.go t isBound = some s' →
    s'.cond.wakecnt ≤ s.cond.wakecnt

/-! ## The invariant -/

/-- The flags and `cn_wakecnt`, also while a notify has `cn_lock`: then the signal is
raised and not counted yet. -/
structure Flags (v : View Tid) : Prop where
  locked   : Locked v
  counted  : Counted v
  room     : v.cond.lock ≠ none → v.cond.wakecnt + 1 < Unsigned.range
  signaled : v.cond.lock = none → (v.cond.signaled = true ↔ 1 ≤ v.cond.wakecnt)
  flags    : v.cond.broadcast = true ∨ v.cond.handled = true → v.cond.signaled = true

theorem countOut_flags {c : Cond Tid} (hsig : c.signaled = true ↔ 1 ≤ c.wakecnt)
    (hflags : c.broadcast = true ∨ c.handled = true → c.signaled = true) :
    (c.countOut.signaled = true ↔ 1 ≤ c.countOut.wakecnt) ∧
      (c.countOut.broadcast = true ∨ c.countOut.handled = true → c.countOut.signaled = true) ∧
      c.countOut.wakecnt ≤ c.wakecnt := by
  by_cases htake : (Unsigned.decr c.waiters = 0 ∨ c.handled = true) ∧ c.signaled = true
  · have hpos : 1 ≤ c.wakecnt := hsig.mp htake.2
    have hdecr : Unsigned.decr c.wakecnt = c.wakecnt - 1 := Unsigned.decr_of_pos hpos
    rw [countOut_taken htake]
    refine ⟨?_, by simp, ?_⟩
    · simp only [hdecr, decide_eq_true_eq]
      omega
    · show Unsigned.decr c.wakecnt ≤ c.wakecnt
      omega
  · rw [countOut_kept htake]
    exact ⟨hsig, hflags, le_refl _⟩

theorem Flags.effect [DecidableEq Tid] {v : View Tid} (h : Flags s.view) (hok : Counts s a)
    (he : Effect s a v) : Flags v := by
  have hlocked := h.locked.effect he
  have hcounted := h.counted.effect hok.1 he
  cases he with
  | quiet => exact h
  | enter => exact ⟨hlocked, hcounted, h.room, h.signaled, h.flags⟩
  | handled hwhy =>
    refine ⟨hlocked, hcounted, h.room, h.signaled, fun _ => ?_⟩
    rcases hwhy with ⟨hsig, -⟩ | ⟨t, ht⟩
    · exact hsig
    · exact (h.locked.held ht).1
  | leave _ _ hl =>
    obtain ⟨hsig, hflags, -⟩ := countOut_flags (h.signaled hl) h.flags
    exact ⟨hlocked, hcounted, fun hne => absurd ((countOut_lock _).trans hl) hne, fun _ => hsig,
      hflags⟩
  | raised ha hpc _ hw =>
    rw [ha] at hok
    exact ⟨hlocked, hcounted, fun _ => hok.2 (by rw [hpc]; rfl) hw, fun hl => (by cases hl),
      fun _ => rfl⟩
  | @counted t broadcast ht =>
    have hsig : s.cond.signaled = true := (h.locked.held ht).1
    have hroom : s.cond.wakecnt + 1 < Unsigned.range :=
      h.room (by rw [h.locked.holder t broadcast (by rw [ht])]; simp)
    refine ⟨hlocked, hcounted, fun hne => absurd rfl hne, fun _ => ?_, h.flags⟩
    simp [Cond.countWake, hsig, Unsigned.incr_of_lt hroom]

theorem Initial.flags (h : Initial s) : Flags s.view := by
  refine ⟨h.locked, h.counted, ?_, ?_, ?_⟩ <;> rw [h.view] <;> simp [pthCondInit]

variable [DecidableEq Mid] [DecidableEq Tid] [DecidableEq D]

theorem go_returning {isBound : Bool} (hret : (s.pc t).returning = true)
    (h : s.go t isBound = some s') :
    s.cond.lock = none ∧ (s'.cond = s.cond ∨ s'.cond = s.cond.countOut) := by
  cases hpc : s.pc t with
  | ready m occurred extra =>
    simp only [State.go, hpc] at h
    obtain ⟨hl, h⟩ := Option.ite_none_right_eq_some.mp h
    refine ⟨hl, ?_⟩
    split at h <;> cases h
    · exact Or.inl rfl
    · exact Or.inr leave_cond
  | select m =>
    simp only [State.go, hpc] at h
    split at h <;> cases h
    rename_i hl
    exact ⟨hl, Or.inr leave_cond⟩
  | _ => simp [hpc, Pc.returning] at hret

theorem Flags.consistent (h : Flags s.view) (hl : s.cond.lock = none) : Consistent s := by
  refine ⟨⟨s.inside, h.counted.nodup, fun t => (h.counted.place t).symm, h.counted.waiters⟩,
    h.signaled hl, h.flags, fun t isBound s' hret hgo => ?_⟩
  rcases (go_returning hret hgo).2 with hc | hc
  · rw [hc]
  · rw [hc]
    exact (countOut_flags (h.signaled hl) h.flags).2.2

/-- **The fields agree** whenever `cn_lock` is free, in runs in which neither counter
wraps. -/
theorem cond_consistent (s : State Mid Tid D)
    (hs : Reachable State.step Counts Initial s) (hl : s.cond.lock = none) : Consistent s := by
  have hI : Flags s.view := hs.invariant (fun s h => h.flags)
    fun s a s' hI hok h => hI.effect hok (effect_of_step h)
  exact hI.consistent hl

/-- Two waiters; a signal that the event manager gives to one of them, a broadcast before
that one has left, and the departure of both. -/
def signalThenBroadcast : List (Action Unit Nat Unit) :=
  awaits 0 false false ++ awaits 1 false false ++ notifies 2 false ++ [.examine 0 false] ++
    notifies 3 true ++ [.examine 1 false] ++ leaves 0 ++ [.go 1 false]

theorem cond_consistent_signalThenBroadcast :
    ∃ s : State Unit Nat Unit,
      runOk State.step Counts (initState .timedNp) signalThenBroadcast = some s ∧
      s.mutexes.mem.natives = 1 ∧ s.cond.lock = none ∧ Consistent s := by
  refine exists_and_of_any₂ (fun _ => id) (by decide +kernel) fun s hs _ hl => ?_
  exact cond_consistent s (reachable_of_runOk (.init (initState_initial _)) hs) hl

/-! ## A waiter that does not run -/

/-- One thread waits and has been signalled `n` times; `u` is free to signal again. -/
structure Signalled (s : State Mid Tid D) (u : Tid) (n : Nat) : Prop where
  natives : s.mutexes.mem.natives = 1
  cond    : s.cond = { pthCondInit with
    waiters := 1, signaled := decide (n ≠ 0), wakecnt := n % Unsigned.range }
  free    : s.free u = true

theorem Signalled.next {s : State Unit Nat Unit} {u n : Nat} (h : Signalled s u n) :
    ∃ s', run State.step s (notifies u false) = some s' ∧ Signalled s' u (n + 1) := by
  have hc := h.cond
  refine ⟨{ s with
    cond := { pthCondInit with
      waiters := 1, signaled := true, wakecnt := (n + 1) % Unsigned.range }
    pc := Function.update s.pc u (.notified true) }, ?_, h.natives, ?_, ?_⟩
  · -- with one native there is no walk: the wake is counted at once
    have hsignal := step_signal (s := s.goto u (.signal false false)) false
      (Function.update_self ..) (by simp [State.goto, hc, pthCondInit])
      (by simp [State.goto, hc])
    rw [notifies, run_notify h.free (by simp [hc, pthCondInit]), run_cons hsignal]
    simp [run, State.step, State.go, State.goto, hc, h.natives, pthCondInit, Cond.raise,
      Cond.countWake, Unsigned.incr_mod]
  · simp
  · have hfree := h.free
    simp only [State.free, Bool.and_eq_true] at hfree
    simp [State.free, Pc.outside, hfree.2]

theorem run_notifies {s : State Unit Nat Unit} {u n : Nat} (h : Signalled s u n) (k : Nat) :
    ∃ s', run State.step s (List.replicate k (notifies u false)).flatten = some s' ∧
      Signalled s' u (n + k) := by
  induction k generalizing s n with
  | zero => exact ⟨s, rfl, h⟩
  | succ k ih =>
    obtain ⟨s₁, hrun, h₁⟩ := h.next
    obtain ⟨s₂, hrest, h₂⟩ := ih h₁
    refine ⟨s₂, ?_, by rw [Nat.add_comm k 1, ← Nat.add_assoc]; exact h₂⟩
    rw [List.replicate_succ, List.flatten_cons, run_append, hrun]
    exact hrest

/-- Thread 0 waits and does not run; thread 1 signals 2³² times. `PTH_COND_SIGNALED` is
set and `cn_wakecnt` is 0. -/
theorem wakecnt_wraps :
    ∃ s : State Unit Nat Unit, Reachable State.step Always Initial s ∧
      s.mutexes.mem.natives = 1 ∧ s.cond.lock = none ∧ s.cond.signaled = true ∧
      s.cond.wakecnt = 0 ∧ ¬ Consistent s := by
  obtain ⟨s, hs, hn, hc, hfree⟩ : ∃ s : State Unit Nat Unit, run State.step (initState .timedNp)
      (awaits 0 false false) = some s ∧ s.mutexes.mem.natives = 1 ∧
      s.cond = { pthCondInit with waiters := 1 } ∧ s.free 1 = true :=
    exists_of_any (by decide +kernel)
  have hstart : Signalled s 1 0 := ⟨hn, by rw [hc]; simp [pthCondInit], hfree⟩
  obtain ⟨s', hs', h⟩ := run_notifies hstart Unsigned.range
  have hsig : s'.cond.signaled = true := by
    rw [h.cond]
    have := Unsigned.one_lt_range
    simp only [Nat.zero_add, decide_eq_true_eq]
    omega
  have hwake : s'.cond.wakecnt = 0 := by
    rw [h.cond]
    simp
  refine ⟨s', reachable_of_run (reachable_of_run (.init (initState_initial _)) hs) hs', h.natives,
    by rw [h.cond]; rfl, hsig, hwake, fun hcons => ?_⟩
  have := hcons.signaled.mp hsig
  omega

end Ngpt.Sync.Condvar
