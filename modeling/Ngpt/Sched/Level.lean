import Ngpt.Sched.Held

/-!
# ngpt — the levels of the run queues and the priorities of the threads

A thread has a priority, and its node has the level at which it is queued. The spawn sets
the first and leaves the second at zero; a wake-up copies the first to the second. So every
node is at level zero or at the priority of its thread (`Leveled`), in every run.

Results: `priorities_in_range`, `level_is_priority`.
-/

namespace Ngpt.Sched.Create

open Ngpt.Queue Ngpt.Sched.Multi Transition
open Ngpt.Natives (Scope)

variable {D T : Type} {first d : D} {main cur t u : T} {s s' : State D T} {m m' : Multi.State D T}
  {attr : Option Attr} {p : Pending D T} {policy prio : Int}

/-! ## Levels -/

/-- Every node is at level zero or at the priority of its thread. -/
def Leveled (s : State D T) : Prop :=
  ∀ t, (s.multi.heap.node t).priority = 0 ∨
    (s.multi.heap.node t).priority = (s.multi.tcb t).priority

theorem Initial.leveled [DecidableEq T] (h : Initial first main policy prio s) : Leveled s :=
  fun t => Or.inl (h.priority t)

variable [DecidableEq D]

/-- The attributes of a spawn, if they are not inherited, are admitted and give a level. -/
def levelAttr : Option Attr → Prop
  | some a =>
    a.inheritsched = true ∨ Admitted a.schedpolicy a.prio ∧ IsLevel a.schedpolicy a.prio
  | none => True

structure InRange (s : State D T) : Prop extends Sound s where
  range : ∀ t ∈ s.threads, (s.multi.tcb t).priority < prioTotal

theorem InRange.params (h : InRange s) (hcur : cur ∈ s.threads) (hattr : levelAttr attr) :
    (s.params cur attr).priority < prioTotal := by
  cases attr with
  | none => exact h.range cur hcur
  | some a =>
    simp only [State.params]
    split
    case isTrue => exact h.range cur hcur
    case isFalse hno =>
      rcases hattr with hinherit | ⟨hadmitted, hlevel⟩
      · exact absurd hinherit hno
      · exact (threadPriority_lt_iff hadmitted).mpr hlevel

theorem readies_mem_holds {pc : Pc D T} (h : pc.readies = some t) : t ∈ pc.holds := by
  cases pc with
  | woken | ready =>
    cases h
    exact List.mem_cons_self
  | _ => cases h

variable [DecidableEq T]

theorem Spawned.node (h : Spawned s cur u attr s') (t : T) :
    (s'.multi.heap.node t).priority = if t = u then 0 else (s.multi.heap.node t).priority := by
  rw [h.heap]
  by_cases ht : t = u
  · simp [nodeInit, lnodeInit, nodeZero, ht]
  · simp [nodeInit, lnodeInit, ht]

theorem Finished.node (h : Finished s cur p s') (t : T) :
    (s'.multi.heap.node t).priority = (s.multi.heap.node t).priority := by
  have hheap : s'.multi.heap = exec s.multi.heap p.thread (.append p.queue) := h.heap
  rw [hheap]
  by_cases ht : t = p.thread
  · rw [ht]
    exact exec_priority rfl
  · rw [exec_node_of_ne _ ht]

theorem Leveled.step {a : Action D T} (h : Leveled s) (hs : s.step first main a = some s') :
    Leveled s' := by
  intro t
  cases step_stepped hs with
  | @multi _ m _ hm =>
    show (m.heap.node t).priority = 0 ∨ (m.heap.node t).priority = (m.tcb t).priority
    rw [step_priority hm t]
    rcases step_level hm t with hkept | hset
    · rw [hkept]
      exact h t
    · exact Or.inr hset
  | failed => exact h t
  | spawned _ _ _ _ hspawned =>
    rw [hspawned.node t, hspawned.priority t]
    split
    · exact Or.inl rfl
    · exact h t
  | finished _ hfinished =>
    rw [hfinished.node t, hfinished.alike.priority t]
    exact h t

theorem Sound.mem_of_holds (h : Sound s) (ht : t ∈ (s.multi.pc d).holds) : t ∈ s.threads := by
  by_contra hno
  exact (h.unknown t hno).1.pc d ht

theorem Sound.mem_of_running (h : Sound s) (hpc : s.multi.pc d = .running cur) :
    cur ∈ s.threads := by
  refine h.mem_of_holds (d := d) ?_
  rw [hpc]
  exact List.mem_cons_self

theorem Sound.mem_of_place {q : QName D} (h : Sound s) (ht : s.multi.place t = some q) :
    t ∈ s.threads := by
  by_contra hno
  rw [(h.unknown t hno).2] at ht
  cases ht

/-! ## The levels exist -/

/-- The indices into the queues that the code can use next: the level of a node, wherever
it is appended, prepended or deleted, and the priority of a thread whose level is about to
be set. -/
def Index (m : Multi.State D T) (i : Nat) : Prop :=
  (∃ t, i = (m.heap.node t).priority) ∨
    ∃ d t, (m.pc d).readies = some t ∧ i = (m.tcb t).priority

def LevelSpawns (_ : State D T) : Action D T → Prop
  | .spawn _ _ attr _ => levelAttr attr
  | _ => True

instance : DecidablePred levelAttr
  | some a => inferInstanceAs (Decidable (a.inheritsched = true ∨
      Admitted a.schedpolicy a.prio ∧ IsLevel a.schedpolicy a.prio))
  | none => inferInstanceAs (Decidable True)

instance (s : State D T) : DecidablePred (LevelSpawns s)
  | .spawn _ _ attr _ => inferInstanceAs (Decidable (levelAttr attr))
  | .multi _ | .append _ => inferInstanceAs (Decidable True)

theorem InRange.step {a : Action D T} (h : InRange s) (hok : LevelSpawns s a)
    (hs : s.step first main a = some s') : InRange s' := by
  refine ⟨h.toSound.step hs, fun t ht => ?_⟩
  cases step_stepped hs with
  | @multi _ m _ hm =>
    show (m.tcb t).priority < prioTotal
    rw [step_priority hm t]
    exact h.range t ht
  | failed => exact h.range t ht
  | spawned hpc _ _ _ hspawned =>
    rw [hspawned.priority t]
    split
    case isTrue => exact h.params (h.mem_of_running hpc) hok
    case isFalse hne =>
      rw [hspawned.threads] at ht
      exact h.range t ((List.mem_cons.mp ht).resolve_left hne)
  | finished _ hfinished =>
    rw [hfinished.alike.priority t]
    exact h.range t (hfinished.threads ▸ ht)

theorem Initial.inRange (h : Initial first main policy prio s) (hadmitted : Admitted policy prio)
    (hlevel : IsLevel policy prio) : InRange s := by
  refine ⟨h.sound, fun t ht => ?_⟩
  rw [h.threads, List.mem_singleton] at ht
  rw [ht, h.level]
  exact (threadPriority_lt_iff hadmitted).mpr hlevel

/-- **Priorities stay in range**, if no thread has the highest real-time priority, a
negative one, or a policy that does not exist. -/
theorem priorities_in_range (first : D) (main : T) (policy prio : Int)
    (hadmitted : Admitted policy prio) (hlevel : IsLevel policy prio) (s : State D T)
    (hs : Reachable (State.step first main) LevelSpawns (Initial first main policy prio) s)
    (i : Nat) (hi : Index s.multi i) : i < prioTotal := by
  have h : InRange s := hs.invariant (fun _ h => h.inRange hadmitted hlevel)
    fun _ _ _ h hok hstep => h.step hok hstep
  rcases hi with ⟨t, rfl⟩ | ⟨d, t, hpc, rfl⟩
  · obtain ⟨L, hL⟩ := h.heap
    exact hL.placed.priority t
  · exact h.range t (h.mem_of_holds (readies_mem_holds hpc))

/-- Attributes that are not inherited. -/
def ownAttr (policy prio : Int) : Attr where
  inheritsched := false
  scope := .process
  schedpolicy := policy
  prio := prio
  suspendstate := false
  joinable := true
  stacksize := 65536

/-- The main thread spawns a second one and waits; the second one is dispatched, waits as
well, and the event manager has taken it off the wait queue. -/
def spawnWaitWake (policy prio : Int) : List (Action Bool Bool) :=
  [.multi (.moveNew false), .multi (.pick false), .multi (.go false),
    .spawn false true (some (ownAttr policy prio)) .unneeded, .append false,
    .multi (.wait false), .multi (.go false), .multi (.go false), .multi (.go false),
    .multi (.go false), .multi (.moveNew false), .multi (.pick false), .multi (.go false),
    .multi (.wait false), .multi (.go false), .multi (.go false), .multi (.go false),
    .multi (.go false), .multi (.events false false), .multi (.wake false true)]

/-- The priority 98 is the last level. -/
theorem priorities_in_range_fifo :
    ∃ s : State Bool Bool, Reachable (State.step false false) LevelSpawns
        (Initial false false schedOther 0) s ∧ Index s.multi 139 ∧ 139 < prioTotal := by
  obtain ⟨s, hrun, hpc, hprio⟩ : ∃ s : State Bool Bool, runOk (State.step false false) LevelSpawns
      (init false false schedOther 0 1) (spawnWaitWake schedFifo 98) = some s ∧
      (s.multi.pc false).readies = some true ∧ (s.multi.tcb true).priority = 139 :=
    exists_of_any (by decide +kernel)
  have hreach := reachable_of_runOk (.init (init_initial false false schedOther 0 1)) hrun
  have hi : Index s.multi 139 := Or.inr ⟨false, true, hpc, hprio.symm⟩
  exact ⟨s, hreach, hi, priorities_in_range false false schedOther 0 (by decide) (by decide) s
    hreach 139 hi⟩

/-- `prio_validate` admits 99 for `SCHED_FIFO`, and the level is `PRIO_TOTAL`. -/
theorem fifo_out_of_range :
    prioValidate schedFifo 99 = true ∧
    Initial false false schedOther 0 (init false false schedOther 0 1 : State Bool Bool) ∧
    (run (State.step false false) (init false false schedOther 0 1)
      (spawnWaitWake schedFifo 99)).map
      (fun s : State Bool Bool => ((s.multi.pc false).readies, (s.multi.tcb true).priority)) =
        some (some true, prioTotal) := by
  refine ⟨by decide, init_initial false false schedOther 0 1, ?_⟩
  decide +kernel

/-! ## The level is the priority -/

/-- The queues of threads that have not run yet. -/
def isNew : QName D → Bool
  | .newQueue _ | .pthNQ => true
  | _ => false

/-- Nobody suspends or resumes a thread. -/
def plain : Action D T → Bool
  | .multi (.suspend _ _) | .multi (.resume _ _) => false
  | _ => true

/-- A thread that is spawned into a new or ready queue has priority zero. -/
def zeroSpawn (s : State D T) : Action D T → Bool
  | .spawn d _ attr native =>
    match s.multi.pc d with
    | .running cur =>
      decide (native = .failed) || decide ((s.params cur attr).priority = 0) ||
        (suspends attr && decide ((s.params cur attr).scope = .process))
    | _ => true
  | _ => true

/-- Threads of another priority sleep. -/
structure ZeroOrAsleep (s : State D T) : Prop extends Sound s where
  leveled : Leveled s
  zero    : ∀ t ∈ s.threads, (s.multi.tcb t).priority = 0 ∨ Asleep s t

theorem ZeroOrAsleep.step {a : Action D T} (h : ZeroOrAsleep s) (hplain : plain a = true)
    (hok : zeroSpawn s a = true) (hs : s.step first main a = some s') : ZeroOrAsleep s' := by
  refine ⟨h.toSound.step hs, h.leveled.step hs, fun t ht => ?_⟩
  cases step_stepped hs with
  | @multi a m _ hm =>
    have hne : ∀ d, a ≠ .resume d t := by
      rintro d rfl
      cases hplain
    show (m.tcb t).priority = 0 ∨ _
    rw [step_priority hm t]
    exact (h.zero t ht).imp id fun hasleep => hasleep.multi h.toSound hne hm _
  | failed => exact h.zero t ht
  | @spawned d u cur attr native _ hpc hcur hu hnative hspawned =>
    by_cases htu : t = u
    · subst htu
      have hcases : (s.params cur attr).priority = 0 ∨
          suspends attr = true ∧ (s.params cur attr).scope = .process := by
        simpa [zeroSpawn, hpc, hnative] using hok
      rw [hspawned.priority t, if_pos rfl]
      exact hcases.imp id fun hsus => hspawned.asleep h.toSound hu hsus.1 hsus.2
    · rw [hspawned.threads] at ht
      have hmem : t ∈ s.threads := (List.mem_cons.mp ht).resolve_left htu
      rw [hspawned.priority t, if_neg htu]
      exact (h.zero t hmem).imp id fun hasleep => hasleep.spawned hmem hu hcur hspawned
  | finished hp hfinished =>
    rw [hfinished.alike.priority t]
    exact (h.zero t (hfinished.threads ▸ ht)).imp id
      fun hasleep => hasleep.finished h.toSound hp hfinished

theorem Initial.zeroOrAsleep (h : Initial first main policy prio s)
    (hzero : threadPriority policy prio = 0) : ZeroOrAsleep s := by
  refine ⟨h.sound, h.leveled, fun t ht => Or.inl ?_⟩
  rw [h.threads, List.mem_singleton] at ht
  rw [ht, h.level, hzero]

theorem ZeroOrAsleep.level (h : ZeroOrAsleep s) {q : QName D} (hplace : s.multi.place t = some q)
    (hq : (isNew q || q.isReady) = true) :
    (s.multi.heap.node t).priority = (s.multi.tcb t).priority := by
  rcases h.zero t (h.mem_of_place hplace) with hzero | hasleep
  · rcases h.leveled t with hnode | hnode
    · rw [hnode, hzero]
    · exact hnode
  · exfalso
    rcases (hasleep.still h.toSound).place with hnone | hsq
    · rw [hplace] at hnone
      cases hnone
    · rw [hplace] at hsq
      cases hsq
      cases hq

theorem pick_first (hs : m.step first (.pick d) = some m') (hpc : m'.pc d = .picked t) :
    pqueueFirstNode m.heap (schedRQ first d (m.isBounded d)) = some t := by
  obtain ⟨htop, hs⟩ := Option.ite_none_right_eq_some.mp hs
  split at hs <;> cases hs
  · have hpc' : m.pc d = .picked t := hpc
    rw [htop] at hpc'
    cases hpc'
  next u hsel =>
    have hpc' : Function.update m.pc d (.picked u) d = .picked t := hpc
    rw [Function.update_self] at hpc'
    cases hpc'
    exact selectThread_current hsel

/-- **The level is the priority** of every thread in a new or ready queue, and the thread
that is dispatched has the highest priority in its queue, if the threads that are spawned
into these queues have priority zero. -/
theorem level_is_priority (first : D) (main : T) (policy prio : Int)
    (hzero : threadPriority policy prio = 0) (s : State D T)
    (hs : Reachable (State.step first main) (fun s a => plain a = true ∧ zeroSpawn s a = true)
      (Initial first main policy prio) s) :
    (∀ t q, s.multi.place t = some q → (isNew q || q.isReady) = true →
      (s.multi.heap.node t).priority = (s.multi.tcb t).priority) ∧
    ∀ d t s', s.step first main (.multi (.pick d)) = some s' → s'.multi.pc d = .picked t →
      ∀ u, s.multi.place u = some (schedRQ first d (s.multi.isBounded d)) →
        (s.multi.tcb u).priority ≤ (s.multi.tcb t).priority := by
  have h : ZeroOrAsleep s := hs.invariant (fun _ h => h.zeroOrAsleep hzero)
    fun _ _ _ h hok hstep => h.step hok.1 hok.2 hstep
  refine ⟨fun t q => h.level, fun d t s' hpick hpc u hu => ?_⟩
  have hready : (isNew (schedRQ first d (s.multi.isBounded d)) ||
      (schedRQ first d (s.multi.isBounded d)).isReady) = true := by
    rw [schedRQ_ready, Bool.or_true]
  cases step_stepped hpick with
  | multi _ hm =>
    have hfirst := pick_first hm hpc
    rw [← h.level hu hready, ← h.level (h.heap.place_of_first hfirst) hready]
    exact h.heap.priority_le_first hfirst hu

/-- The main thread spawns a second one, which inherits its priority, and yields; the second
one is moved to the ready queue, where the main thread is. -/
theorem level_is_priority_inherited :
    ∃ s : State Bool Bool, Reachable (State.step false false)
        (fun s a => plain a = true ∧ zeroSpawn s a = true) (Initial false false schedOther 0) s ∧
      s.multi.place true = some (.readyQueue false) ∧
      (s.multi.heap.node true).priority = (s.multi.tcb true).priority := by
  refine exists_and_of_any (o := runOk (State.step false false)
    (fun s a => plain a = true ∧ zeroSpawn s a = true) (init false false schedOther 0 1)
    [.multi (.moveNew false), .multi (.pick false), .multi (.go false),
    .spawn false true none .unneeded, .append false, .multi (.yield false), .multi (.go false),
    .multi (.go false), .multi (.go false), .multi (.moveNew false)])
    (fun _ => reachable_of_runOk (.init (init_initial false false schedOther 0 1)))
    (by decide +kernel) fun s hs hplace => ?_
  exact (level_is_priority false false schedOther 0 (by decide) s hs).1 true _ hplace rfl

/-- The second thread has the priority 20, which is the one of fresh attributes. It is queued
at level zero, and the main thread, of priority zero, is dispatched before it. -/
theorem spawned_at_level_zero :
    Initial false false schedOther 0 (init false false schedOther 0 1 : State Bool Bool) ∧
    (run (State.step false false) (init false false schedOther 0 1)
      [.multi (.moveNew false), .multi (.pick false), .multi (.go false),
        .spawn false true (some (ownAttr schedOther 20)) .unneeded, .append false]).map
      (fun s : State Bool Bool => (s.multi.place true, (s.multi.heap.node true).priority,
        (s.multi.tcb true).priority)) = some (some (.newQueue false), 0, 20) ∧
    (run (State.step false false) (init false false schedOther 0 1)
      [.multi (.moveNew false), .multi (.pick false), .multi (.go false),
        .spawn false true (some (ownAttr schedOther 20)) .unneeded, .append false,
        .multi (.yield false), .multi (.go false), .multi (.go false), .multi (.go false),
        .multi (.moveNew false), .multi (.pick false)]).map
      (fun s : State Bool Bool => (s.multi.pc false, s.multi.place true,
        (s.multi.tcb false).priority, (s.multi.tcb true).priority)) =
      some (.picked false, some (.readyQueue false), 0, 20) := by
  refine ⟨init_initial false false schedOther 0 1, ?_⟩
  decide +kernel

end Ngpt.Sched.Create
