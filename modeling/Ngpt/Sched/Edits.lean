import Ngpt.Sched.Multi

/-!
# ngpt — what a step does to the queues

A step of `Ngpt.Sched.Multi` changes the place of one native thread, the node and the
`waited_native` of at most one thread, and the lock of at most one wait queue. `Effect` says
once what there is, with what the code has found before it; what follows for the queues, the
priorities and the threads is derived from it.

Result: `threads_take_turns`.
-/

namespace Ngpt.Queue

variable {Q N : Type} [DecidableEq Q] [DecidableEq N] {h : Heap Q N} {m n : N}

/-- The operations on a node, one after the other. -/
def execs (h : Heap Q N) (n : N) (ops : List (Op Q)) : Heap Q N :=
  ops.foldl (fun h op => exec h n op) h

theorem Heap.Ok.execs (hO : h.Ok) (n : N) (ops : List (Op Q)) : (execs h n ops).Ok := by
  induction ops generalizing h with
  | nil => exact hO
  | cons op ops ih => exact ih (hO.exec n op)

theorem pqueueAddNode_node {insert : Heap Q N → N → Q → Heap Q N} {q : Q}
    (hNode : ∀ h₁ : Heap Q N, (insert h₁ n q).node = (nodePqueueSet h₁ n (some q)).node) :
    (∀ m, m ≠ n → (pqueueAddNode insert h q n).node m = h.node m) ∧
      ((pqueueAddNode insert h q n).node n).priority = (h.node n).priority := by
  unfold pqueueAddNode
  split
  · exact ⟨fun _ _ => rfl, rfl⟩
  · simp only [hNode]
    exact ⟨fun m hm => by simp [nodePqueueSet, hm], by simp [nodePqueueSet]⟩

theorem pqueueDeleteNode_node :
    (∀ m, m ≠ n → (pqueueDeleteNode h n).node m = h.node m) ∧
      ((pqueueDeleteNode h n).node n).priority = (h.node n).priority := by
  unfold pqueueDeleteNode
  split
  · exact ⟨fun _ _ => rfl, rfl⟩
  · split
    · exact ⟨fun _ _ => rfl, rfl⟩
    · simp only
      split
      · exact ⟨fun m hm => by simp [pqueueDelete, nodePqueueSet, hm],
          by simp [pqueueDelete, nodePqueueSet]⟩
      · exact ⟨fun m hm => by simp [pqueueDelete, nodePqueueSet, hm],
          by simp [pqueueDelete, nodePqueueSet]⟩

theorem pqueueFavor_node : (pqueueFavor h n).node = h.node := by
  unfold pqueueFavor
  split
  · rfl
  · simp only
    split_ifs <;> rfl

theorem pqueueNodePrioritySet_node (prio : Nat) :
    (∀ m, m ≠ n → (pqueueNodePrioritySet h n prio).node m = h.node m) ∧
      (((pqueueNodePrioritySet h n prio).node n).priority = (h.node n).priority ∨
        ((pqueueNodePrioritySet h n prio).node n).priority = prio) := by
  unfold pqueueNodePrioritySet
  simp only
  split
  · exact ⟨fun _ _ => rfl, Or.inl rfl⟩
  · split
    · exact ⟨fun m hm => by simp [hm], Or.inr (by simp)⟩
    · split
      · exact ⟨fun _ _ => rfl, Or.inl rfl⟩
      · exact ⟨fun m hm => by split_ifs <;> simp [hm], Or.inr (by simp)⟩

theorem exec_node_of_ne (op : Op Q) (hm : m ≠ n) : (exec h n op).node m = h.node m := by
  cases op with
  | append | prepend | prependSecond => exact (pqueueAddNode_node fun _ => rfl).1 m hm
  | delete => exact pqueueDeleteNode_node.1 m hm
  | prioritySet prio => exact (pqueueNodePrioritySet_node prio).1 m hm
  | favor => exact congrFun pqueueFavor_node m

theorem execs_node_of_ne (ops : List (Op Q)) (hm : m ≠ n) :
    (execs h n ops).node m = h.node m := by
  induction ops generalizing h with
  | nil => rfl
  | cons op ops ih => exact (ih).trans (exec_node_of_ne op hm)

/-- The operations that leave the priority. -/
def Op.keepsPriority : Op Q → Bool
  | .prioritySet _ => false
  | _ => true

theorem exec_priority {op : Op Q} (hop : op.keepsPriority = true) :
    ((exec h n op).node n).priority = (h.node n).priority := by
  cases op with
  | append | prepend | prependSecond => exact (pqueueAddNode_node fun _ => rfl).2
  | delete => exact pqueueDeleteNode_node.2
  | prioritySet prio => cases hop
  | favor => exact congrArg Node.priority (congrFun pqueueFavor_node n)

theorem execs_priority {ops : List (Op Q)} (hops : ∀ op ∈ ops, op.keepsPriority = true) (m : N) :
    ((execs h n ops).node m).priority = (h.node m).priority := by
  by_cases hm : m = n
  · subst hm
    induction ops generalizing h with
    | nil => rfl
    | cons op ops ih =>
      refine (ih fun x hx => hops x (List.mem_cons_of_mem op hx)).trans ?_
      exact exec_priority (hops op List.mem_cons_self)
  · rw [execs_node_of_ne ops hm]

/-- Where an operation leaves a node that is linked in `at?`. -/
def Op.moves : Op Q → Option Q → Option Q
  | .append q, at? | .prepend q, at? | .prependSecond q, at? => at?.or (some q)
  | .delete, _ => none
  | .prioritySet _, at? | .favor, at? => at?

theorem pqueueAddNode_moves {insert : Heap Q N → N → Q → Heap Q N} {q : Q}
    (hNode : ∀ h₁ : Heap Q N, (insert h₁ n q).node = (nodePqueueSet h₁ n (some q)).node)
    (hO : h.Ok) : (pqueueAddNode insert h q n).place n = (h.place n).or (some q) := by
  cases hn : h.place n with
  | none => exact (pqueueAddNode_place hNode hO hn n).trans (if_pos rfl)
  | some q' =>
    obtain ⟨L, hR⟩ := hO
    obtain ⟨p, hp⟩ := hR.place_iff.mp hn
    rw [pqueueAddNode_linked hR hp]
    exact hn

theorem exec_place (hO : h.Ok) (op : Op Q) : (exec h n op).place n = op.moves (h.place n) := by
  cases op with
  | append | prepend | prependSecond => exact pqueueAddNode_moves (fun _ => rfl) hO
  | delete => exact (pqueueDeleteNode_place hO n n).trans (if_pos rfl)
  | prioritySet prio => exact pqueueNodePrioritySet_place prio n
  | favor => exact pqueueFavor_place n n

theorem execs_place (hO : h.Ok) (ops : List (Op Q)) :
    (execs h n ops).place n = ops.foldl (fun at? op => op.moves at?) (h.place n) := by
  induction ops generalizing h with
  | nil => rfl
  | cons op ops ih => rw [List.foldl_cons, ← exec_place hO op, ← ih (hO.exec n op)]; rfl

theorem execs_place_of_ne (ops : List (Op Q)) (hm : m ≠ n) : (execs h n ops).place m = h.place m :=
  congrArg Node.bp (execs_node_of_ne ops hm)

end Ngpt.Queue

namespace Ngpt.Sched.Multi

open Function Ngpt.Queue
open Ngpt.Sched.Single (PthState)

variable {D T : Type}

/-- What the steps are followed for. -/
structure View (D T : Type) where
  heap     : Heap (QName D) T
  waited   : T → Option D
  priority : T → Nat
  pc       : D → Pc D T
  lock     : D → Option D

def State.view (s : State D T) : View D T :=
  ⟨s.heap, s.waited, fun t => (s.tcb t).priority, s.pc, s.lock⟩

variable {first d ds : D} {s s₁ s' : State D T} {t u : T} {a : Action D T} {q : QName D}
  {p p₀ : Pc D T} {v : View D T} {w : Option D}

/-- The wait queues. -/
def isWait : QName D → Bool
  | .waitQueue _ => true
  | _ => false

/-- The queues that a scheduler takes threads from. -/
def feeds : QName D → Bool
  | .newQueue _ | .readyQueue _ | .pthNQ | .pthRQ => true
  | _ => false

theorem isWait_of_feeds (hq : feeds q = true) : isWait q = false ∧ q ≠ .pthSQ := by
  cases q <;> simp_all [feeds, isWait]

theorem isWait_of_ready (hq : q.isReady = true) : isWait q = false ∧ feeds q = true := by
  cases q <;> simp_all [QName.isReady, isWait, feeds]

theorem view_setTcb [DecidableEq T] {x : Tcb D T} (hp : x.priority = (s.tcb t).priority) :
    (s.setTcb t x).view = { s.view with waited := update s.waited t x.waitedNative } := by
  simp only [State.view, State.setTcb, View.mk.injEq, true_and, and_true]
  refine ⟨?_, ?_⟩ <;> funext u <;> by_cases hu : u = t <;> simp [State.waited, hu, hp]

theorem view_same [DecidableEq T] {x : Tcb D T} (hp : x.priority = (s.tcb t).priority)
    (hw : x.waitedNative = s.waited t) : (s.setTcb t x).view = s.view := by
  rw [view_setTcb hp, hw, update_eq_self]
  rfl

theorem setTcb_priority [DecidableEq T] {x : Tcb D T} (hx : x.priority = (s.tcb t).priority)
    (u : T) :
    ((s.setTcb t x).tcb u).priority = (s.tcb u).priority :=
  congrFun (congrArg View.priority (view_setTcb hx)) u

theorem view_goto [DecidableEq D] (h : s₁.view = s.view) :
    (s₁.goto d p).view = { s.view with pc := update s.pc d p } :=
  congrArg (fun v : View D T => { v with pc := update v.pc d p }) h

variable [DecidableEq D] [DecidableEq T]

/-! ## What a native thread has in hand -/

/-- The thread that a native runs or has just run. -/
def Pc.cur : Pc D T → Option T
  | .picked t | .back t | .parked t _ => some t
  | pc => pc.current

/-- This thread, until it has been put into a queue. -/
def Pc.own : Pc D T → Option T
  | .parked _ true => none
  | pc => pc.cur

/-- The thread that is being moved, with the queue it is linked in and `waited_native`. -/
def Pc.moved : Pc D T → Option (T × Option (QName D) × Option D)
  | .parked t true => some (t, some .pthSQ, none)
  | .linked t ds => some (t, some (.waitQueue ds), none)
  | .woken ds t | .handed _ t ds | .wqDeleted _ t ds => some (t, none, some ds)
  | .ready _ t | .toSQ _ t | .resumeAppend _ t => some (t, none, none)
  | _ => none

/-- The wait queue whose lock a native has. -/
def Pc.lockOf : Pc D T → Option D
  | .linked _ ds | .events ds | .woken ds _ | .handed _ _ ds | .wqDeleted _ _ ds => some ds
  | _ => none

/-- What a native has: its thread, the thread that it moves, and a lock. -/
def Pc.hand (pc : Pc D T) : Option T × Option (T × Option (QName D) × Option D) × Option D :=
  (pc.own, pc.moved, pc.lockOf)

/-- The thread that a piece of the code belongs to, and the one that it is going to move
wherever it is. A hand-off tests `waited_native` again, and `pth_suspend` searches first. -/
def Pc.holds : Pc D T → List T
  | .top | .events _ => []
  | .picked t | .running t | .leaving t | .back t | .parked t _ | .linked t _ | .woken _ t => [t]
  | .handoff cur _ _ => cur.toList
  | .handed cur tmp _ | .ready cur tmp => tmp :: cur.toList
  | .suspend cur _ _ | .locate cur _ | .wqScan cur _ _ => [cur]
  | .found cur t q => if q = .pthSQ then [cur, t] else [cur]
  | .remove cur t _ | .wqLock cur t _ | .wqDeleted cur t _ | .toSQ cur t => [cur, t]
  | .resumeRemove cur t | .resumeAppend cur t => [cur, t]

/-- A piece of the code that recalculates the effective priority of a thread and puts it
into a ready queue. -/
def Pc.readies : Pc D T → Option T
  | .woken _ t | .ready _ t => some t
  | _ => none

/-! ## What a step can do -/

/-- The code has found `u` in a queue, in `pth_SQ` only for `pth_resume`. -/
def Found (s : State D T) (a : Action D T) (d : D) (u : T) : Prop :=
  ∃ q, pqueueContains s.heap q u = true ∧ (q ≠ .pthSQ ∨ a = .resume d u)

/-- **What a step can do.** -/
inductive Effect (s : State D T) (a : Action D T) : View D T → Prop
  | quiet : Effect s a s.view
  | turn {d : D} {p₀ p : Pc D T} : s.pc d = p₀ → p.hand = p₀.hand →
      (∀ u ∈ p.holds, u ∈ p₀.holds ∨ Found s a d u) →
      Effect s a { s.view with pc := update s.pc d p }
  | requeue {t : T} {q : QName D} {op : Op (QName D)} : pqueueFirstNode s.heap q = some t →
      feeds q = true → op = .favor ∨ (∃ r, op = .prependSecond r ∧ r.isReady = true) →
      Effect s a { s.view with heap := execs s.heap t [.delete, op] }
  | pick {d : D} {t : T} {q : QName D} : s.pc d = .top → pqueueFirstNode s.heap q = some t →
      feeds q = true → Effect s a { s.view with
        heap := execs s.heap t [.delete], pc := update s.pc d (.picked t) }
  | enter {d ds : D} : s.pc d = .top → s.lock ds = none → Effect s a { s.view with
      pc := update s.pc d (.events ds), lock := update s.lock ds (some d) }
  | leave {d ds : D} : s.pc d = .events ds → Effect s a { s.view with
      pc := update s.pc d .top, lock := update s.lock ds none }
  | wake {d ds : D} {t : T} : s.pc d = .events ds →
      pqueueContains s.heap (.waitQueue ds) t = true → Effect s a { s.view with
        heap := execs s.heap t [.delete], pc := update s.pc d (.woken ds t) }
  | drop {d : D} {t : T} : s.pc d = .back t →
      Effect s a { s.view with pc := update s.pc d .top }
  | switched {d : D} {t : T} {q : QName D} {p : Pc D T} :
      s.pc d = .back t ∨ (∃ b, s.pc d = .parked t b) → isWait q = false →
      p.hand = (none, none, none) → p.holds = [] → Effect s a { s.view with
        heap := execs s.heap t [.append q], pc := update s.pc d p }
  | marked {d : D} {t : T} : s.pc d = .back t → Effect s a { s.view with
      heap := execs s.heap t [.append .pthSQ], pc := update s.pc d (.parked t true) }
  | park {d ds : D} {t : T} {b : Bool} : a = .go d → s.pc d = .parked t b →
      (s.tcb t).state = .waiting → s.lock ds = none → Effect s a { s.view with
        heap := execs s.heap t [.append (.waitQueue ds)], pc := update s.pc d (.linked t ds)
        lock := update s.lock ds (some d) }
  | linked {d ds : D} {t : T} : s.pc d = .linked t ds → Effect s a { s.view with
      waited := update s.waited t (some ds), pc := update s.pc d .top
      lock := update s.lock ds none }
  | woken {d ds : D} {t : T} {q : QName D} (hprio : (s.tcb t).priority < prioTotal) :
      s.pc d = .woken ds t → q.isReady = true → Effect s a { s.view with
        heap := execs s.heap t [.prioritySet ⟨_, hprio⟩, .append q]
        waited := update s.waited t none, pc := update s.pc d (.events ds) }
  | ready {d : D} {cur : Option T} {t : T} {q : QName D}
      (hprio : (s.tcb t).priority < prioTotal) : s.pc d = .ready cur t → q.isReady = true →
      Effect s a { s.view with
        heap := execs s.heap t [.prioritySet ⟨_, hprio⟩, .append q]
        pc := update s.pc d (.done cur) }
  | handoff {d ds : D} {cur : Option T} {t : T} : a = .go d → s.pc d = .handoff cur t ds →
      s.lock ds = none → s.waited t ≠ none → Effect s a { s.view with
        heap := execs s.heap t [.delete], pc := update s.pc d (.handed cur t ds)
        lock := update s.lock ds (some d) }
  | wqLock {d ds : D} {cur t : T} : a = .go d → s.pc d = .wqLock cur t ds → s.lock ds = none →
      Effect s a { s.view with
        heap := execs s.heap t [.delete], pc := update s.pc d (.wqDeleted cur t ds)
        lock := update s.lock ds (some d) }
  | cleared {d ds : D} {c : Option T} {t : T} {p₀ p : Pc D T} : s.pc d = p₀ →
      p₀.hand = (c, some (t, none, some ds), some ds) → p.hand = (c, some (t, none, none), none) →
      p.holds = p₀.holds → t ∈ p₀.holds → Effect s a { s.view with
        waited := update s.waited t none, pc := update s.pc d p
        lock := update s.lock ds none }
  | remove {d : D} {cur t : T} {q : QName D} : a = .go d → s.pc d = .remove cur t q →
      Effect s a { s.view with
        heap := execs s.heap t [.delete], pc := update s.pc d (.toSQ cur t) }
  | resumeRemove {d : D} {cur t : T} : a = .go d → s.pc d = .resumeRemove cur t →
      Effect s a { s.view with
        heap := execs s.heap t [.delete], pc := update s.pc d (.resumeAppend cur t) }
  | toSQ {d : D} {cur t : T} : s.pc d = .toSQ cur t → Effect s a { s.view with
      heap := execs s.heap t [.append .pthSQ], pc := update s.pc d (.running cur) }
  | refused {d : D} {cur t : T} : s.pc d = .resumeAppend cur t →
      Effect s a { s.view with pc := update s.pc d (.running cur) }
  | resumed {d : D} {cur t : T} {q : QName D} {p : Pc D T} : a = .go d →
      s.pc d = .resumeAppend cur t → s.resumeQueue d t = some q →
      p = .running cur ∨ p = .leaving cur → Effect s a { s.view with
        heap := execs s.heap t [.append q, .favor], pc := update s.pc d p }

variable {cur : T}

theorem feeds_schedNQ (b : Bool) : feeds (schedNQ first d b) = true := by
  unfold schedNQ
  split <;> rfl

theorem schedRQ_ready (b : Bool) : (schedRQ first d b).isReady = true :=
  schedRQ_isReady first d b

theorem Effect.of_eq {v' : View D T} (hv : v' = v) (he : Effect s a v) : Effect s a v' := by
  rw [hv]
  exact he

theorem Effect.goto (hv : s₁.view = s.view) (hpc : s.pc d = p₀) (hhand : p.hand = p₀.hand)
    (hholds : ∀ u ∈ p.holds, u ∈ p₀.holds ∨ Found s a d u) : Effect s a (s₁.goto d p).view := by
  rw [view_goto hv]
  exact .turn hpc hhand hholds

theorem view_settle : (((s.setWaitedNative t w).release ds).goto d p).view = { s.view with
    waited := update s.waited t w, pc := update s.pc d p, lock := update s.lock ds none } := by
  have hv : (s.setWaitedNative t w).view = _ := view_setTcb rfl
  exact congrArg (fun v : View D T =>
    { v with pc := update v.pc d p, lock := update v.lock ds none }) hv

theorem view_eprioRecalculateAppend {n : Nat} (hn : s.view.priority t = n)
    (h : s.eprioRecalculateAppend q t = some s') : ∃ hprio : n < prioTotal,
    s'.view = { s.view with heap := execs s.heap t [.prioritySet ⟨n, hprio⟩, .append q] } := by
  subst hn
  unfold State.eprioRecalculateAppend at h
  split at h <;> cases h
  rename_i hprio
  exact ⟨hprio, rfl⟩

theorem effect_schedBack (hpc : s.pc d = .back t) : Effect s (.go d) (s.schedBack d t).view := by
  have hdead : ((s.append .pthDQ t).setState t .dead).view = (s.append .pthDQ t).view :=
    view_same rfl rfl
  have hgone : ∀ p : Pc D T, p.hand = (none, none, none) → p.holds = [] →
      Effect s (.go d) (((s.append .pthDQ t).setState t .dead).goto d p).view := by
    intro p hhand hholds
    rw [view_goto hdead]
    exact .switched (Or.inl hpc) rfl hhand hholds
  unfold State.schedBack
  split
  · exact .drop hpc
  · split
    · exact .drop hpc
    · simp only
      repeat' split
      all_goals exact hgone _ rfl rfl
  · split
    next =>
      have hmark : (s.setShouldSuspend t false).view = s.view := view_same rfl rfl
      exact .of_eq (congrArg (fun v : View D T => { v with
        heap := execs v.heap t [.append .pthSQ], pc := update v.pc d (.parked t true) }) hmark)
        (.marked hpc)
    · exact .turn hpc rfl fun _ => Or.inl

theorem effect_schedPark {b : Bool} (hpc : s.pc d = .parked t b)
    (h : s.schedPark first d t = some s') : Effect s (.go d) s'.view := by
  unfold State.schedPark at h
  split at h
  next hwaits =>
    split at h <;> split at h
    case isTrue.isFalse | isFalse.isFalse =>
      obtain ⟨hlock, ⟨⟩⟩ := Option.ite_none_right_eq_some.mp h
      exact .park rfl hpc hwaits hlock
    all_goals
      cases h
      exact .switched (Or.inr ⟨b, hpc⟩) rfl rfl rfl
  next =>
    cases h
    exact .switched (Or.inr ⟨b, hpc⟩) (isWait_of_ready (schedRQ_ready _)).1 rfl rfl

theorem effect_locate (hpc : s.pc d = .locate cur t) : Effect s a (s.locate d cur t).view := by
  have hfound : ∀ q : QName D, q ≠ .pthSQ → Effect s a (s.goto d (.found cur t q)).view :=
    fun q hq => .turn hpc rfl (by simp [Pc.holds, hq])
  unfold State.locate
  split <;> split <;> first
    | exact .turn hpc rfl fun _ => Or.inl
    | exact hfound _ (by split <;> simp)

theorem effect_yieldTo (hpc : s.pc d = .resumeAppend cur t) (hq : s.resumeQueue d t = some q) :
    Effect s (.go d) ((s.append q t).yieldTo d cur t).view := by
  rcases (s.append q t).yieldTo_cases d cur t with h | h <;> rw [h]
  · exact .resumed rfl hpc hq (Or.inl rfl)
  · exact .resumed rfl hpc hq (Or.inr rfl)

theorem effect_of_go (h : s.go first d = some s') : Effect s (.go d) s'.view := by
  unfold State.go at h
  cases hpc : s.pc d <;> simp only [hpc, reduceCtorEq, Option.some.injEq,
    Option.map_eq_some_iff, Option.ite_none_right_eq_some] at h
  case picked t | leaving t =>
    subst h
    exact .turn hpc rfl fun _ => Or.inl
  case back t =>
    subst h
    exact effect_schedBack hpc
  case parked t => exact effect_schedPark hpc h
  case linked t ds =>
    subst h
    rw [view_settle]
    exact .linked hpc
  case events ds =>
    subst h
    exact .leave hpc
  case woken ds t =>
    obtain ⟨s₁, happend, rfl⟩ := h
    have hv₀ : ((s.setWaitedNative t none).setState t .ready).view =
        (s.setWaitedNative t none).view := view_same rfl rfl
    have hv : _ = { s.view with waited := update s.waited t none } := hv₀.trans (view_setTcb rfl)
    obtain ⟨hprio, hv₁⟩ := view_eprioRecalculateAppend (n := (s.tcb t).priority) (by rw [hv]; rfl)
      happend
    rw [hv] at hv₁
    exact .of_eq (congrArg (fun v : View D T => { v with pc := update v.pc d (.events ds) }) hv₁)
      (.woken hprio hpc (schedRQ_ready _))
  case handoff c t ds =>
    obtain ⟨hlock, h⟩ := h
    split at h <;> cases h
    case isTrue => cases c <;> exact .turn hpc rfl fun _ => Or.inl
    case isFalse hwaited => exact .handoff rfl hpc hlock hwaited
  case handed | wqDeleted =>
    subst h
    rw [view_settle]
    exact .cleared hpc rfl rfl rfl (by simp [Pc.holds])
  case ready c t =>
    obtain ⟨s₁, happend, rfl⟩ := h
    have hv : (s.setState t .ready).view = s.view := view_same rfl rfl
    obtain ⟨hprio, hv₁⟩ := view_eprioRecalculateAppend (n := (s.tcb t).priority) (by rw [hv]; rfl)
      happend
    rw [hv] at hv₁
    refine .of_eq (congrArg (fun v : View D T => { v with pc := update v.pc d (.done c) }) hv₁)
      (.ready hprio hpc ?_)
    split
    · rfl
    · exact schedRQ_ready _
  case suspend cur t slots =>
    cases slots with
    | nil =>
      cases h
      exact .turn hpc rfl fun _ => Or.inl
    | cons e slots =>
      simp only at h
      split at h <;> cases h
      · have hv : (s.setShouldSuspend t true).view = s.view := view_same rfl rfl
        exact .goto hv hpc rfl fun _ => Or.inl
      · exact .turn hpc rfl fun _ => Or.inl
  case locate cur t =>
    subst h
    exact effect_locate hpc
  case found cur t q =>
    split at h <;> cases h
    case isTrue hin =>
      refine .turn hpc rfl fun u hu => ?_
      by_cases hq : q = .pthSQ
      · exact Or.inl (by simpa [Pc.holds, hq] using hu)
      · rcases List.mem_pair.mp hu with rfl | rfl
        · exact Or.inl (by simp [Pc.holds, hq])
        · exact Or.inr ⟨q, hin, Or.inl hq⟩
    case isFalse => exact .turn hpc rfl fun u hu => Or.inl (by simp_all [Pc.holds]; split <;> simp)
  case remove cur t q =>
    obtain ⟨-, rfl⟩ := h
    exact .remove rfl hpc
  case wqScan cur t slots =>
    cases slots with
    | nil =>
      cases h
      exact .turn hpc rfl fun _ => Or.inl
    | cons ds slots =>
      simp only at h
      split at h <;> cases h
      case isTrue.refl hin =>
        refine .turn hpc rfl fun u hu => ?_
        rcases List.mem_pair.mp hu with rfl | rfl
        · exact Or.inl (by simp [Pc.holds])
        · exact Or.inr ⟨_, hin, Or.inl (by simp)⟩
      case isFalse.refl => exact .turn hpc rfl fun _ => Or.inl
  case wqLock cur t ds =>
    obtain ⟨hlock, rfl⟩ := h
    exact .wqLock rfl hpc hlock
  case toSQ cur t =>
    subst h
    exact .toSQ hpc
  case resumeRemove cur t =>
    obtain ⟨-, rfl⟩ := h
    exact .resumeRemove rfl hpc
  case resumeAppend cur t =>
    split at h
    case h_1 =>
      cases h
      exact .refused hpc
    case h_2 q hq =>
      obtain ⟨-, ⟨⟩⟩ := Option.ite_none_right_eq_some.mp h
      exact effect_yieldTo hpc hq

theorem effect_of_running {f : T → State D T} (h : s.byRunning d f = some s')
    (hf : ∀ cur, s.pc d = .running cur → Effect s a (f cur).view) : Effect s a s'.view := by
  unfold State.byRunning at h
  split at h <;> cases h
  exact hf _ ‹_›

/-- There are no other edits. -/
theorem effect_of_step (h : s.step first a = some s') : Effect s a s'.view := by
  cases a with
  | moveNew d =>
    obtain ⟨-, h⟩ := Option.ite_none_right_eq_some.mp h
    obtain ⟨t, hf, rfl⟩ := Option.map_eq_some_iff.mp h
    have hv : ((s.delete t).setState t .ready).view = (s.delete t).view := view_same rfl rfl
    exact .of_eq (congrArg (fun v : View D T => { v with
      heap := pqueuePrependSecondNode v.heap (schedRQ first d false) t }) hv)
      (.requeue hf (feeds_schedNQ _) (Or.inr ⟨_, rfl, schedRQ_ready _⟩))
  | pick d =>
    obtain ⟨hpc, h⟩ := Option.ite_none_right_eq_some.mp h
    have hready : (schedRQ first d (s.isBounded d)).isReady = true := schedRQ_ready _
    have hfeeds := (isWait_of_ready hready).2
    cases hf : pqueueFirstNode s.heap (schedRQ first d (s.isBounded d)) with
    | none =>
      rw [selectThread_of_empty hf] at h
      cases h
      exact .quiet
    | some t =>
      rw [selectThread_of_first hf] at h
      cases hb : (s.tcb t).boundnative with
      | none =>
        simp only [hb] at h
        cases h
        exact .pick hpc hf hfeeds
      | some ds =>
        by_cases hown : ds = d
        · simp only [hb, if_pos hown] at h
          cases h
          exact .pick hpc hf hfeeds
        · by_cases hfirst : ds = first
          · simp only [hb, if_neg hown, if_pos hfirst] at h
            cases h
            exact .requeue hf hfeeds (Or.inr ⟨_, rfl, rfl⟩)
          · simp only [hb, if_neg hown, if_neg hfirst] at h
            cases h
            exact .requeue hf hfeeds (Or.inl rfl)
  | events d ds =>
    obtain ⟨hok, ⟨⟩⟩ := Option.ite_none_right_eq_some.mp h
    exact .enter hok.1 hok.2.2.1
  | wake d t =>
    simp only [State.step] at h
    split at h
    next ds hpc =>
      obtain ⟨hin, ⟨⟩⟩ := Option.ite_none_right_eq_some.mp h
      exact .wake hpc hin
    · cases h
  | mark => exact effect_of_running h fun cur _ => .of_eq (view_same rfl rfl) .quiet
  | wait | exit =>
    exact effect_of_running h fun cur hpc => .goto (view_same rfl rfl) hpc rfl fun _ => Or.inl
  | yield => exact effect_of_running h fun cur hpc => .turn hpc rfl fun _ => Or.inl
  | handoff | suspend =>
    refine effect_of_running h fun cur hpc => ?_
    repeat' split
    all_goals first | exact .quiet | exact .turn hpc rfl fun _ => Or.inl
  | resume d t =>
    refine effect_of_running h fun cur hpc => ?_
    split
    · exact .turn hpc rfl fun _ => Or.inl
    · split
      next hin =>
        refine .turn hpc rfl fun u hu => ?_
        rcases List.mem_pair.mp hu with rfl | rfl
        · exact Or.inl (by simp [Pc.holds])
        · exact Or.inr ⟨_, hin, Or.inr rfl⟩
      · exact .turn hpc rfl fun _ => Or.inl
  | go d => exact effect_of_go h
  | bind | joined =>
    cases h
    exact .of_eq (view_same rfl rfl) .quiet
  | bounded | natives | exitCount =>
    cases h
    exact .quiet

theorem selectThread_current {boundnative : T → Option D} {h : Heap (QName D) T}
    (hsel : (selectThread first d boundnative q h).current = some t) :
    pqueueFirstNode h q = some t := by
  cases hf : pqueueFirstNode h q with
  | none =>
    rw [selectThread_of_empty hf] at hsel
    cases hsel
  | some u =>
    rw [selectThread_of_first hf] at hsel
    split at hsel
    · exact hsel
    · split at hsel
      · exact hsel
      · split at hsel <;> cases hsel

/-! ## The queues and the priorities -/

/-- The queues stay well formed. -/
theorem step_ok (hO : s.heap.Ok) (hs : s.step first a = some s') : s'.heap.Ok := by
  have hv : ∀ {v}, Effect s a v → v.heap.Ok := by
    intro v he
    cases he <;> first | exact hO | exact hO.execs _ _
  exact hv (effect_of_step hs)

/-- No step changes a thread's priority. -/
theorem step_priority (h : s.step first a = some s') (u : T) :
    (s'.tcb u).priority = (s.tcb u).priority := by
  have hv : ∀ {v}, Effect s a v → v.priority u = (s.tcb u).priority := by
    intro v he
    cases he <;> rfl
  exact hv (effect_of_step h)

theorem readied_level (hprio : (s.tcb u).priority < prioTotal) (q : QName D) (t : T) :
    ((execs s.heap u [.prioritySet ⟨_, hprio⟩, .append q]).node t).priority =
        (s.heap.node t).priority ∨
      ((execs s.heap u [.prioritySet ⟨_, hprio⟩, .append q]).node t).priority =
        (s.tcb t).priority := by
  by_cases ht : t = u
  · subst ht
    have hset := (pqueueNodePrioritySet_node (h := s.heap) (n := t) (s.tcb t).priority).2
    have happend : ((exec (pqueueNodePrioritySet s.heap t (s.tcb t).priority) t
        (.append q)).node t).priority = _ := exec_priority rfl
    rwa [← happend] at hset
  · exact Or.inl (congrArg Node.priority (execs_node_of_ne _ ht))

/-- A node's priority changes only to that of its thread. -/
theorem step_level (h : s.step first a = some s') (t : T) :
    (s'.heap.node t).priority = (s.heap.node t).priority ∨
      (s'.heap.node t).priority = (s.tcb t).priority := by
  have hv : ∀ {v}, Effect s a v → (v.heap.node t).priority = (s.heap.node t).priority ∨
      (v.heap.node t).priority = (s.tcb t).priority := by
    intro v he
    cases he with
    | woken hprio | ready hprio => exact readied_level hprio _ t
    | quiet | turn | enter | leave | drop | linked | cleared | refused => exact Or.inl rfl
    | requeue _ _ hop =>
      rcases hop with rfl | ⟨r, rfl, -⟩ <;>
        exact Or.inl (execs_priority (by simp [Op.keepsPriority]) t)
    | _ => exact Or.inl (execs_priority (by simp [Op.keepsPriority]) t)
  exact hv (effect_of_step h)

/-! ## Threads that yield -/

variable {boundnative : T → Option D} {h : Heap (QName D) T} {L : Levels (QName D) T}
  {p : Nat} {ts : List T}

/-- A round of the scheduler in which the thread that it switches to yields. -/
def yieldRound (first d : D) (boundnative : T → Option D) (q : QName D) (h : Heap (QName D) T) :
    Heap (QName D) T :=
  let sel := selectThread first d boundnative q h
  match sel.current with
  | none => sel.heap
  | some current => pqueueAppendNode sel.heap q current

theorem yieldRound_rotates (first d : D) (hR : Represents h L) (hp : L q p = t :: ts)
    (hhigh : ∀ p', p < p' → L q p' = []) (hfree : boundnative t = none) :
    (selectThread first d boundnative q h).current = some t ∧
      Represents (yieldRound first d boundnative q h) (L.set q p (ts ++ [t])) := by
  have ht : t ∈ L q p := hp ▸ List.mem_cons_self
  -- unlinked, the node keeps its priority, so the append goes to the level it came from
  have happ := pqueueAppendNode_repr (pqueueDeleteNode_repr hR ht) (bp_pqueueDeleteNode hR ht) q
  rw [pqueueDeleteNode_node.2.trans ((hR.placed.mem q p t).mp ht).2.2, Levels.set_self,
    Levels.set_set, hp, List.erase_cons_head] at happ
  rw [yieldRound, selectThread_of_first (pqueueFirstNode_of_isFirst hR ⟨p, ts, hp, hhigh⟩), hfree]
  exact ⟨rfl, happ⟩

/-- **Threads take turns.** While the threads of the highest level yield and no others come, they
are dispatched in turn: after `k` rounds, the head of the level rotated `k` times is next. -/
theorem threads_take_turns (first d : D) (hR : Represents h L) (hp : L q p = t :: ts)
    (hhigh : ∀ p', p < p' → L q p' = []) (hfree : ∀ u ∈ t :: ts, boundnative u = none) (k : Nat) :
    (selectThread first d boundnative q ((yieldRound first d boundnative q)^[k] h)).current =
      ((t :: ts).rotate k).head? := by
  induction k generalizing h L t ts with
  | zero => exact (yieldRound_rotates first d hR hp hhigh (hfree t List.mem_cons_self)).1
  | succ k ih =>
    have hnext := (yieldRound_rotates first d hR hp hhigh (hfree t List.mem_cons_self)).2
    -- the level of the next round: its head went to the end
    obtain ⟨u, us, hus⟩ := List.exists_cons_of_ne_nil (List.concat_ne_nil t ts)
    rw [iterate_succ_apply, List.rotate_cons_succ, hus]
    refine ih hnext ((Levels.set_self ..).trans hus) (fun p' hlt => ?_) fun v hv => ?_
    · rw [Levels.set_apply, if_neg fun he => hlt.ne' he.2, hhigh p' hlt]
    · rw [← hus, (List.perm_append_singleton t ts).mem_iff] at hv
      exact hfree v hv

/-- Threads 7 and 8 are ready. -/
theorem threads_take_turns_two :
    (selectThread 0 1 (fun _ => none) .pthRQ
      ((yieldRound 0 1 (fun _ => none) .pthRQ)^[5] (pqueueAppendNode oneReady .pthRQ 8))).current =
        some 8 := by
  have hR : Represents _ (oneReadyLevels.set .pthRQ 0 [7, 8]) :=
    pqueueAppendNode_repr (n := 8) oneReady_represents rfl .pthRQ
  refine threads_take_turns 0 1 hR (Levels.set_self ..) (fun p hp => ?_) (fun _ _ => rfl) 5
  simp [oneReadyLevels, Levels.set_apply, hp.ne']

end Ngpt.Sched.Multi
