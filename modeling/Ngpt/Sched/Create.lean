import Ngpt.Sched.Edits
import Ngpt.Sched.Natives
import Ngpt.Sched.Priorities

/-!
# ngpt — the creation of threads (`pth_spawn_cb`, `pth_lib.c`)

The threads of `Ngpt.Sched.Multi` with the call that creates them. `pth_spawn` computes
the scheduling parameters, chooses a queue, may get a native thread, and appends the new
thread to the queue at its end. With the first new native thread the main thread leaves
the group leader in the middle of its own call: it yields, and goes on with the spawn
where it is dispatched next. So the append is a step of its own, and what is left of a
spawn belongs to the thread that has called it.

Whether the counters ask for a new native thread, and which one `pth_new_native` returns,
is left open. A control block that was freed is not handed out again, and the new thread
has the state `PTH_STATE_NEW` from the start. Left out: allocations that fail, signal masks,
names, the watchdog, the debugger.

`held` is not in the code: the threads that were created suspended, up to the first
`pth_resume` on them.
-/

namespace Ngpt.Sched.Create

open Function Ngpt.Queue Ngpt.Sched.Multi
open Ngpt.Natives (Scope)

/-- `struct pth_attr_st`, the fields that `pth_spawn` reads for scheduling. -/
structure Attr where
  inheritsched : Bool
  scope        : Scope
  schedpolicy  : Int
  prio         : Int
  suspendstate : Bool
  joinable     : Bool
  stacksize    : Nat

/-- What `pth_spawn` gets from `pth_new_native`, if it calls it. -/
inductive Native (D : Type) where
  | unneeded
  | failed
  | got (ds : D)
  deriving DecidableEq, Repr

/-- What is left of a spawn: the new thread, its queue (`pth_CQ`), and whether the main
thread has left the group leader since. -/
structure Pending (D T : Type) where
  thread   : T
  queue    : QName D
  switched : Bool

structure State (D T : Type) where
  multi      : Multi.State D T
  policy     : T → Int
  scope      : T → Scope
  /-- `pth_threads_queue` -/
  threads    : List T
  /-- `pth_max_native_threads` -/
  maxNatives : Int
  pending    : T → Option (Pending D T)
  held       : List T

inductive Action (D T : Type) where
  | multi (a : Multi.Action D T)
  /-- `pth_spawn` by the thread that `d` runs, up to the append; `none` is
  `PTH_ATTR_DEFAULT` -/
  | spawn (d : D) (u : T) (attr : Option Attr) (native : Native D)
  | append (d : D)

/-- The scheduling parameters of a thread. -/
structure Params where
  scope    : Scope
  policy   : Int
  priority : Nat

/-- `a_suspendstate`. -/
def suspends (attr : Option Attr) : Bool := (attr.map (·.suspendstate)).getD false

variable {D T : Type} {first d : D} {main cur u : T} {s s' : State D T}
  {attr : Option Attr} {native : Native D} {p : Pending D T} {m m' m₁ m₂ : Multi.State D T}

/-- `pth_CQ` before the scope is looked at. -/
def State.firstQueue (s : State D T) (d : D) (attr : Option Attr) : QName D :=
  let q : QName D := if s.maxNatives = 1 then .newQueue d else .pthNQ
  match attr with
  | none => q
  | some a =>
    let q : QName D := if a.stacksize = 0 then .newQueue d else q
    if a.suspendstate then .pthSQ else q

theorem firstQueue_of_suspends (hs : suspends attr = true) : s.firstQueue d attr = .pthSQ := by
  cases attr with
  | none => cases hs
  | some a =>
    have ha : a.suspendstate = true := hs
    simp only [State.firstQueue, ha, if_true]

/-- The native threads are where they were, and of the threads at most the states and the
bindings have changed. -/
structure Alike (m m' : Multi.State D T) : Prop where
  pc       : m'.pc = m.pc
  waited   : ∀ t, m'.waited t = m.waited t
  priority : ∀ t, (m'.tcb t).priority = (m.tcb t).priority

theorem Alike.refl (m : Multi.State D T) : Alike m m := ⟨rfl, fun _ => rfl, fun _ => rfl⟩

theorem Alike.ite {c : Prop} [Decidable c] (h₁ : Alike m m₁) (h₂ : Alike m m₂) :
    Alike m (if c then m₁ else m₂) := by
  split
  · exact h₁
  · exact h₂

variable [DecidableEq T]

theorem Alike.setTcb {x : Tcb D T} (h : Alike m m')
    (hwaited : x.waitedNative = (m'.tcb u).waitedNative)
    (hpriority : x.priority = (m'.tcb u).priority) : Alike m (m'.setTcb u x) := by
  refine ⟨h.pc, fun t => ?_, fun t => (setTcb_priority hpriority t).trans (h.priority t)⟩
  rw [← h.waited t]
  show (update m'.tcb u x t).waitedNative = _
  by_cases ht : t = u
  · rw [ht, update_self, hwaited]
    rfl
  · rw [update_of_ne ht]
    rfl

theorem Alike.setState (h : Alike m m') (state : Single.PthState) :
    Alike m (m'.setState u state) :=
  h.setTcb rfl rfl

variable [DecidableEq D]

/-- The native thread whose running thread an action of `Multi` belongs to, and the thread
that the call is about. -/
def namedBy : Multi.Action D T → Option D × Option T
  | .mark d _ | .wait d | .yield d | .exit d => (some d, none)
  | .handoff d t | .suspend d t | .resume d t => (some d, some t)
  | _ => (none, none)

namespace State

/-- The parameters of the new thread. -/
def params (s : State D T) (cur : T) : Option Attr → Params
  | some a =>
    if a.inheritsched then ⟨s.scope cur, s.policy cur, (s.multi.tcb cur).priority⟩
    else ⟨a.scope, policyBits a.schedpolicy, threadPriority a.schedpolicy a.prio⟩
  | none => ⟨.process, schedOther, (s.multi.tcb cur).priority⟩

/-- `pth_tcb_alloc` and the initialisation of the control block `u`. -/
def alloc (s : State D T) (u : T) (x : Params) (joinable : Bool) : State D T :=
  { s with
    multi := { s.multi with
      heap := nodeInit (s.multi.heap.setNode u nodeZero) u
      tcb := update s.multi.tcb u
        { state := .new, priority := x.priority, joinable := joinable, joinedThread := none
          joinedNative := none, waitedNative := none, boundnative := none
          shouldSuspend := false } }
    policy := update s.policy u x.policy
    scope := update s.scope u x.scope
    threads := u :: s.threads }

def setPending (s : State D T) (cur : T) (p : Option (Pending D T)) : State D T :=
  { s with pending := update s.pending cur p }

def setBound (s : State D T) (u : T) (bound : Option D) : State D T :=
  { s with multi := s.multi.setTcb u { s.multi.tcb u with boundnative := bound } }

def setBounded (s : State D T) (d : D) (b : Bool) : State D T :=
  { s with multi := { s.multi with isBounded := update s.multi.isBounded d b } }

/-- `pth_new_native` has returned the native thread `ds`, bounded or not. -/
def newNative (s : State D T) (ds : D) (bounded : Bool) : State D T :=
  let natives := if ds ∈ s.multi.natives then s.multi.natives else s.multi.natives ++ [ds]
  { s with multi := { s.multi with natives := natives } }.setBounded ds bounded

section Steps

variable (first : D) (main : T)

/-- The main thread leaves the group leader in its spawn. -/
def switchMain (s : State D T) (p : Pending D T) : State D T :=
  let s := (s.setBounded first true).setBound main none
  { s with multi := (s.multi.setState main .waiting).goto first (.leaving main) }.setPending main
    (some { p with switched := true })

/-- `pth_spawn_cb` by `cur` on `d`, up to the append. -/
def spawn (s : State D T) (d : D) (cur u : T) (attr : Option Attr) (native : Native D) :
    Option (State D T) :=
  let x := s.params cur attr
  let q := s.firstQueue d attr
  let joinable := (attr.map (·.joinable)).getD (s.multi.tcb cur).joinable
  let s' := { s.alloc u x joinable with held := if suspends attr then u :: s.held else s.held }
  match x.scope, native with
  -- the new control block is freed
  | _, .failed => some s
  | .process, .unneeded => some (s'.setPending cur (some ⟨u, q, false⟩))
  | .process, .got ds =>
    let s' := s'.newNative ds false
    if d = first ∧ cur = main then some (s'.switchMain first main ⟨u, q, false⟩)
    else some (s'.setPending cur (some ⟨u, q, false⟩))
  | .system, .unneeded => none
  | .system, .got ds =>
    let s' := (s'.newNative ds true).setBound u (some ds)
    some ({ s' with maxNatives := s'.maxNatives + 1 }.setPending cur
      (some ⟨u, .readyQueue ds, false⟩))

/-- The end of `pth_spawn_cb` by `cur` on `d`. Back on the group leader the main thread
aborts the process. -/
def finish (s : State D T) (d : D) (cur : T) (p : Pending D T) : Option (State D T) :=
  if p.switched ∧ d = first then none
  else
    let m := if p.switched then s.multi.setState cur .ready else s.multi
    let m := (m.setState p.thread .new).append p.queue p.thread
    let m := if (m.tcb p.thread).boundnative.isSome then m.setState p.thread .ready else m
    some ({ s with multi := m }.setPending cur none)

/-- The caller is not in a spawn, and the thread exists. -/
def mayDo (s : State D T) (a : Multi.Action D T) : Bool :=
  match namedBy a with
  | (some d, t) =>
    (match s.multi.pc d with
      | .running cur => (s.pending cur).isNone
      | _ => true) && t.all (· ∈ s.threads)
  | (none, _) => true

/-- The threads still held after an action. -/
def heldAfter (s : State D T) : Multi.Action D T → List T
  | .resume _ t => s.held.filter (· ≠ t)
  | _ => s.held

def step (s : State D T) : Action D T → Option (State D T)
  | .multi a =>
    if s.mayDo a then
      (s.multi.step first a).map fun m => { s with multi := m, held := s.heldAfter a }
    else none
  | .spawn d u attr native =>
    match s.multi.pc d with
    | .running cur =>
      if (s.pending cur).isNone ∧ u ∉ s.threads then s.spawn first main d cur u attr native
      else none
    | _ => none
  | .append d =>
    match s.multi.pc d with
    | .running cur => (s.pending cur).bind (s.finish first d cur)
    | _ => none

end Steps

end State

/-- After `pth_init`: the main thread, with the policy and the priority that the system
reports, is in the new queue of the first native thread. -/
structure Initial (first : D) (main : T) (policy prio : Int) (s : State D T) : Prop where
  heap     : s.multi.heap.Ok
  priority : ∀ t, (s.multi.heap.node t).priority = 0
  place    : ∀ t, s.multi.place t = if t = main then some (.newQueue first) else none
  threads  : s.threads = [main]
  level    : (s.multi.tcb main).priority = threadPriority policy prio
  waited   : ∀ t, s.multi.waited t = none
  pc       : ∀ d, s.multi.pc d = .top
  lock     : ∀ d, s.multi.lock d = none
  pending  : ∀ t, s.pending t = none
  held     : s.held = []

/-- Such a state, for a process that may have `maxNatives` native threads. -/
def init (first : D) (main : T) (policy prio maxNatives : Int) : State D T where
  multi :=
    { heap := pqueueAppendNode initHeap (.newQueue first) main
      tcb := fun _ =>
        { state := .new, priority := threadPriority policy prio, joinable := true
          joinedThread := none, joinedNative := none, waitedNative := none, boundnative := none
          shouldSuspend := false }
      pc := fun _ => .top
      lock := fun _ => none
      isBounded := fun _ => false
      natives := [first]
      exitCount := 0
      rc := fun _ => .ok }
  policy := fun _ => policyBits policy
  scope := fun _ => .process
  threads := [main]
  maxNatives := maxNatives
  pending := fun _ => none
  held := []

theorem initHeap_ok : (initHeap : Heap (QName D) T).Ok := ⟨_, initHeap_initialised.repr⟩

theorem init_initial (first : D) (main : T) (policy prio maxNatives : Int) :
    Initial first main policy prio (init first main policy prio maxNatives) where
  heap := initHeap_ok.exec main (.append (.newQueue first))
  priority := fun t => by
    have hheap : (init first main policy prio maxNatives).multi.heap =
        exec initHeap main (.append (.newQueue first)) := rfl
    have hzero : ∀ t, ((initHeap : Heap (QName D) T).node t).priority = 0 := fun _ => rfl
    rw [hheap]
    by_cases ht : t = main
    · rw [ht, exec_priority rfl, hzero]
    · rw [exec_node_of_ne _ ht, hzero]
  place := pqueueAppendNode_place initHeap_ok rfl (.newQueue first)
  threads := rfl
  level := rfl
  waited := fun _ => rfl
  pc := fun _ => rfl
  lock := fun _ => rfl
  pending := fun _ => rfl
  held := rfl

/-! ## What the two halves of a spawn do -/

/-- The first half of a spawn that succeeds, for the new thread `u` of `cur`. The caller
may be about to leave its native thread. -/
structure Spawned (s : State D T) (cur u : T) (attr : Option Attr) (s' : State D T) : Prop where
  heap     : s'.multi.heap = nodeInit (s.multi.heap.setNode u nodeZero) u
  waited   : ∀ t, s'.multi.waited t = if t = u then none else s.multi.waited t
  priority : ∀ t, (s'.multi.tcb t).priority =
    if t = u then (s.params cur attr).priority else (s.multi.tcb t).priority
  pc       : ∀ e, s'.multi.pc e = s.multi.pc e ∨
    s.multi.pc e = .running cur ∧ s'.multi.pc e = .leaving cur
  threads  : s'.threads = u :: s.threads
  held     : s'.held = if suspends attr then u :: s.held else s.held
  pending  : ∃ p, s'.pending = update s.pending cur (some p) ∧ p.thread = u ∧
    (suspends attr = true → (s.params cur attr).scope = .process → p.queue = .pthSQ)

/-- The second half, of the spawn `p` of `cur`. -/
structure Finished (s : State D T) (cur : T) (p : Pending D T) (s' : State D T) : Prop where
  heap    : s'.multi.heap = pqueueAppendNode s.multi.heap p.queue p.thread
  alike   : Alike s.multi s'.multi
  threads : s'.threads = s.threads
  held    : s'.held = s.held
  pending : s'.pending = update s.pending cur none

theorem alloc_waited (x : Params) (joinable : Bool) (t : T) :
    (s.alloc u x joinable).multi.waited t = if t = u then none else s.multi.waited t := by
  show (update s.multi.tcb u _ t).waitedNative = _
  rw [update_apply]
  split <;> rfl

theorem alloc_priority (x : Params) (joinable : Bool) (t : T) :
    ((s.alloc u x joinable).multi.tcb t).priority =
      if t = u then x.priority else (s.multi.tcb t).priority := by
  show (update s.multi.tcb u _ t).priority = _
  rw [update_apply]
  split <;> rfl

theorem Alike.append (h : Alike m m') (q : QName D) : Alike m (m'.append q u) :=
  ⟨h.pc, h.waited, h.priority⟩

theorem spawn_spec (hpc : s.multi.pc d = .running cur)
    (h : s.spawn first main d cur u attr native = some s') :
    s' = s ∨ native ≠ .failed ∧ Spawned s cur u attr s' := by
  have hqueue : suspends attr = true → s.firstQueue d attr = .pthSQ := firstQueue_of_suspends
  have hbound : ∀ (m : Multi.State D T) (t : T) (b : Option D),
      Alike m (m.setTcb t { m.tcb t with boundnative := b }) :=
    fun m _ _ => (Alike.refl m).setTcb rfl rfl
  unfold State.spawn at h
  simp only at h
  split at h
  · cases h
    exact Or.inl rfl
  · cases h
    exact Or.inr ⟨nofun, rfl, alloc_waited _ _, alloc_priority _ _, fun _ => Or.inl rfl, rfl, rfl,
      _, rfl, rfl, fun hs _ => hqueue hs⟩
  · refine Or.inr ⟨nofun, ?_⟩
    split at h <;> cases h
    next hmain =>
      obtain ⟨rfl, rfl⟩ := hmain
      refine ⟨rfl, fun t => ?_, fun t => ?_, fun e => ?_, rfl, rfl, _, rfl, rfl,
        fun hs _ => hqueue hs⟩
      · exact (((hbound _ cur none).setState _).waited t).trans (alloc_waited _ _ t)
      · exact (((hbound _ cur none).setState _).priority t).trans (alloc_priority _ _ t)
      · show update _ d _ e = _ ∨ _ ∧ update _ d _ e = _
        by_cases he : e = d
        · rw [he, update_self]
          exact Or.inr ⟨hpc, rfl⟩
        · rw [update_of_ne he]
          exact Or.inl rfl
    · exact ⟨rfl, alloc_waited _ _, alloc_priority _ _, fun _ => Or.inl rfl, rfl, rfl,
        _, rfl, rfl, fun hs _ => hqueue hs⟩
  · cases h
  next hscope =>
    cases h
    refine Or.inr ⟨nofun, rfl, fun t => ?_, fun t => ?_, fun _ => Or.inl rfl, rfl, rfl, _, rfl, rfl,
      fun _ hp => ?_⟩
    · exact ((hbound _ u _).waited t).trans (alloc_waited _ _ t)
    · exact ((hbound _ u _).priority t).trans (alloc_priority _ _ t)
    · rw [hscope] at hp
      cases hp

theorem finish_spec (h : s.finish first d cur p = some s') : Finished s cur p s' := by
  unfold State.finish at h
  split at h <;> cases h
  have hcaller : Alike s.multi (if p.switched then s.multi.setState cur .ready else s.multi) :=
    Alike.ite ((Alike.refl _).setState _) (Alike.refl _)
  have hnew := (hcaller.setState (u := p.thread) .new).append (u := p.thread) p.queue
  refine ⟨?_, (hnew.setState .ready).ite hnew, rfl, rfl, rfl⟩
  show Multi.State.heap (ite _ _ _) = _
  split <;> split <;> rfl

/-- **What a step is.** -/
inductive Stepped (first : D) (s : State D T) : Action D T → State D T → Prop
  | multi {a : Multi.Action D T} {m : Multi.State D T} : s.mayDo a = true →
      s.multi.step first a = some m →
      Stepped first s (.multi a) { s with multi := m, held := s.heldAfter a }
  | failed {d : D} {u : T} {attr : Option Attr} {native : Native D} :
      Stepped first s (.spawn d u attr native) s
  | spawned {d : D} {u cur : T} {attr : Option Attr} {native : Native D} {s' : State D T} :
      s.multi.pc d = .running cur → s.pending cur = none → u ∉ s.threads → native ≠ .failed →
      Spawned s cur u attr s' → Stepped first s (.spawn d u attr native) s'
  | finished {d : D} {cur : T} {p : Pending D T} {s' : State D T} :
      s.pending cur = some p → Finished s cur p s' → Stepped first s (.append d) s'

/-- What a step does, with one specification for each half of a spawn. -/
theorem step_stepped {a : Action D T} (h : s.step first main a = some s') :
    Stepped first s a s' := by
  cases a with
  | multi a =>
    obtain ⟨hmay, h⟩ := Option.ite_none_right_eq_some.mp h
    obtain ⟨m, hm, rfl⟩ := Option.map_eq_some_iff.mp h
    exact .multi hmay hm
  | spawn d u attr native =>
    simp only [State.step] at h
    split at h
    next cur hpc =>
      obtain ⟨hfree, h⟩ := Option.ite_none_right_eq_some.mp h
      rcases spawn_spec hpc h with rfl | ⟨hnative, hspawned⟩
      · exact .failed
      · exact .spawned hpc (Option.isNone_iff_eq_none.mp hfree.1) hfree.2 hnative hspawned
    · cases h
  | append d =>
    simp only [State.step] at h
    split at h
    · obtain ⟨p, hp, hfinish⟩ := Option.bind_eq_some_iff.mp h
      exact .finished hp (finish_spec hfinish)
    · cases h

end Ngpt.Sched.Create
