import Ngpt.Sync.Mutex

/-!
# ngpt — the two initialisations of a mutex (`pth.h.in`, `pth_sync.c`)

`PTH_MUTEX_INIT` and `pth_mutex_init(m, NULL)` set a mutex up alike, but for `mx_index`,
which nobody reads of a private mutex, and for the head of the wait list: a circular list
with the one and two `NULL` pointers with the other. Two processes are run side by side
here, with the same threads and the same steps; in one every mutex has been initialised
statically, in the other by the call.

The wait lists are used only with several native threads. `listOp` is the macro that a
step would run then, and `faults` whether it follows a `NULL` pointer.

Result: `static_init_agrees`.
-/

namespace Ngpt.Sync.StaticInit

open LinkedRing Transition

variable {Mid Tid D : Type} {l : Links (WaitNode Mid Tid)} {s : Sys Mid Tid D} {x : Mem Mid Tid D}
  {t : Tid} {m : Mid} {a : Action Mid Tid D} {p p' : Sys Mid Tid D × Sys Mid Tid D}

/-- `PTH_MUTEX_INIT`. -/
def pthMutexStatic : Mutex Tid :=
  { locked := false, internalLocked := false, type := .timedNp, owner := none, ownerPid := 0
    count := 0, waitcount := 0, qlock := none }

/-- The wait lists after `pth_list_t_INIT`, and threads that wait for nothing. -/
def staticWait : Links (WaitNode Mid Tid) := ⟨fun _ => .null, fun _ => .null⟩

/-- The wait lists after `pth_mutex_init`. -/
def dynamicWait : Links (WaitNode Mid Tid) where
  next
    | .mutex m => .mutex m
    | _ => .null
  prev
    | .mutex m => .mutex m
    | _ => .null

section Processes

variable [DecidableEq Mid] [DecidableEq Tid] [DecidableEq D]

/-- A use of a wait list: the two macros, and the look at the last element. -/
inductive ListOp (Mid Tid : Type) where
  | insert (t : Tid) (m : Mid)
  | delete (t : Tid)
  | tail (m : Mid)
  deriving DecidableEq, Repr

/-- The use follows a `NULL` pointer. -/
def ListOp.derefsNull (l : Links (WaitNode Mid Tid)) : ListOp Mid Tid → Bool
  | .insert _ m => l.next (.mutex m) = .null
  | .delete t => l.prev (.thread t) = .null ∨ l.next (.thread t) = .null
  | .tail m => l.prev (.mutex m) = .null

/-- The tests that `pth_mutex_acquire` makes before it links a thread in the wait list. -/
def hasToWait (mx : Mutex Tid) (t : Tid) (tryonly : Bool) : Bool :=
  if mx.locked = false ∧ mx.waitcount = 0 then false
  else if mx.owner = some t ∧ mx.count ≥ 1 then false
  else !tryonly

/-- The use of a wait list in a step, if there are several native threads. -/
def listOp (s : Sys Mid Tid D) : Action Mid Tid D → Option (ListOp Mid Tid)
  | .go t occurred =>
    match s.pc t with
    | .acquire m tryonly _ _ =>
      if (s.mem.mutex m).internalLocked then none
      else if hasToWait (s.mem.mutex m) t tryonly then some (.insert t m) else none
    | .waitEvent m extra =>
      if extra && !occurred then none
      else if (s.mem.mutex m).locked = false then some (.delete t) else none
    | .waitSelect m => if (s.mem.mutex m).locked = false then some (.delete t) else none
    | .releaseLock m =>
      if Unsigned.decr (s.mem.mutex m).count = 0 then some (.tail m) else none
    | _ => none
  | _ => none

def faults (s : Sys Mid Tid D) (a : Action Mid Tid D) : Bool :=
  match listOp s a with
  | none => false
  | some op => decide (s.mem.natives > 1) && op.derefsNull s.mem.wait

/-- One step of both processes. -/
def step (p : Sys Mid Tid D × Sys Mid Tid D) (a : Action Mid Tid D) :
    Option (Sys Mid Tid D × Sys Mid Tid D) :=
  (p.1.step a).bind fun s => (p.2.step a).map fun d => (s, d)

/-- The same processes with initialised mutexes, the first one statically. -/
structure Start (p : Sys Mid Tid D × Sys Mid Tid D) : Prop where
  static      : ∀ m, p.1.mem.mutex m = pthMutexStatic
  dynamic     : ∀ m, p.2.mem.mutex m = pthMutexInit .timedNp
  staticWait  : p.1.mem.wait = staticWait
  dynamicWait : p.2.mem.wait = dynamicWait
  rest        : p.2 = { p.1 with
    mem := { p.1.mem with mutex := p.2.mem.mutex, wait := p.2.mem.wait } }

/-- The condition on a step: it uses no wait list. -/
def ListUnused (p : Sys Mid Tid D × Sys Mid Tid D) (a : Action Mid Tid D) : Prop :=
  listOp p.1 a ≠ none → p.1.mem.natives ≤ 1

instance (p : Sys Mid Tid D × Sys Mid Tid D) (a : Action Mid Tid D) :
    Decidable (ListUnused p a) :=
  inferInstanceAs (Decidable (listOp p.1 a ≠ none → p.1.mem.natives ≤ 1))

/-- The two processes agree: where the threads are and what their calls have returned,
the mutexes with their owners, and the wake-ups. -/
structure Agree (p : Sys Mid Tid D × Sys Mid Tid D) : Prop where
  results  : p.1.pc = p.2.pc
  held     : p.1.held = p.2.held
  owners   : p.1.mem.mutex = p.2.mem.mutex
  threads  : p.1.mem.thread = p.2.mem.thread
  sigpipe  : p.1.mem.sigpipe = p.2.mem.sigpipe
  readied  : p.1.mem.readied = p.2.mem.readied
  anatives : p.1.mem.anatives = p.2.mem.anatives

end Processes

/-! ## Steps that use no wait list -/

/-- Other wait lists. -/
def memWait (s : Mem Mid Tid D) (l : Links (WaitNode Mid Tid)) : Mem Mid Tid D :=
  { s with wait := l }

def withWait (s : Sys Mid Tid D) (l : Links (WaitNode Mid Tid)) : Sys Mid Tid D :=
  { s with mem := memWait s.mem l }

theorem withWait_self (s : Sys Mid Tid D) : withWait s s.mem.wait = s := rfl

/-- The second process is the first one with other wait lists. -/
structure Parallel (p : Sys Mid Tid D × Sys Mid Tid D) : Prop where
  same    : p.2 = withWait p.1 dynamicWait
  static  : p.1.mem.wait = staticWait

theorem Start.parallel (h : Start p) : Parallel p := by
  refine ⟨?_, h.staticWait⟩
  have hmutex : p.2.mem.mutex = p.1.mem.mutex := by
    funext m
    rw [h.static m, h.dynamic m]
    rfl
  rw [h.rest, hmutex, h.dynamicWait]
  rfl

theorem Parallel.agree (h : Parallel p) : Agree p := by
  have heq := h.same
  exact ⟨by rw [heq]; rfl, by rw [heq]; rfl, by rw [heq]; rfl, by rw [heq]; rfl, by rw [heq]; rfl,
    by rw [heq]; rfl, by rw [heq]; rfl⟩

theorem listOp_withWait [DecidableEq Tid] : listOp (withWait s l) a = listOp s a := by
  have hpc : (withWait s l).pc = s.pc := rfl
  have hmem : (withWait s l).mem = memWait s.mem l := rfl
  have hmutex : (memWait s.mem l).mutex = s.mem.mutex := rfl
  unfold listOp
  simp only [hpc, hmem, hmutex]

theorem Parallel.listUnused [DecidableEq Tid] (h : Parallel p) (hok : ListUnused p a) :
    listOp p.2 a ≠ none → p.2.mem.natives ≤ 1 := by
  rw [h.same, listOp_withWait]
  exact hok

theorem wakeWaiter_of_natives [DecidableEq Tid] [DecidableEq D] (h : x.natives ≤ 1) :
    x.wakeWaiter t m = x := by
  unfold Mem.wakeWaiter
  rw [if_neg (Nat.not_lt.mpr h)]

theorem of_ite_ne_none {q r : Prop} [Decidable q] {op : ListOp Mid Tid}
    (h : (if q then some op else none) ≠ none → r) (hq : q) : r :=
  h (by rw [if_pos hq]; exact Option.some_ne_none _)

variable [DecidableEq Mid] [DecidableEq Tid]

theorem ownMutex_memWait : (memWait x l).ownMutex t m = memWait (x.ownMutex t m) l := by
  unfold Mem.ownMutex
  have hthread : (memWait x l).thread = x.thread := rfl
  simp only [hthread]
  split <;> rfl

theorem take_memWait : (memWait x l).take t m = memWait (x.take t m) l := by
  unfold Mem.take
  exact ownMutex_memWait (x := x.setMutex m _)

theorem disownMutex_memWait : (memWait x l).disownMutex t m = memWait (x.disownMutex t m) l := by
  unfold Mem.disownMutex
  have hthread : (memWait x l).thread = x.thread := rfl
  simp only [hthread]
  split <;> rfl

theorem giveUp_memWait : (memWait x l).giveUp t m = memWait (x.giveUp t m) l := by
  unfold Mem.giveUp
  exact disownMutex_memWait (x := x.setMutex m _)

theorem acquireEnter_eq_none_iff {tryonly bounded : Bool} :
    (x.acquireEnter t m tryonly bounded).1 = none ↔ hasToWait (x.mutex m) t tryonly = true := by
  unfold Mem.acquireEnter hasToWait
  simp only
  split
  case isTrue => simp
  case isFalse =>
    split
    case isTrue => split <;> simp
    case isFalse => cases tryonly <;> simp

theorem acquireEnter_memWait {tryonly bounded : Bool}
    (h : (x.acquireEnter t m tryonly bounded).1 = none → x.natives ≤ 1) :
    (memWait x l).acquireEnter t m tryonly bounded =
      ((x.acquireEnter t m tryonly bounded).1,
        memWait (x.acquireEnter t m tryonly bounded).2 l) := by
  unfold Mem.acquireEnter at h ⊢
  have hmutex : (memWait x l).mutex = x.mutex := rfl
  have hnatives : (memWait x l).natives = x.natives := rfl
  simp only [hmutex, hnatives] at h ⊢
  split
  case isTrue => rw [take_memWait]
  case isFalse hlocked =>
    rw [if_neg hlocked] at h
    split
    case isTrue => split <;> rfl
    case isFalse howner =>
      rw [if_neg howner] at h
      split
      case isTrue => rfl
      case isFalse htry =>
        rw [if_neg htry] at h
        have hone : ¬ x.natives > 1 := Nat.not_lt.mpr (h rfl)
        rw [if_neg hone, if_neg hone]
        rcases bounded with _ | _ <;> rfl

theorem acquireResume_memWait {bounded : Bool} (h : (x.mutex m).locked = false → x.natives ≤ 1) :
    (memWait x l).acquireResume t m bounded =
      ((x.acquireResume t m bounded).1, memWait (x.acquireResume t m bounded).2 l) := by
  -- the count of the waiters changes first
  have hcount : (if bounded then (memWait x l).removeWaiter m else memWait x l) =
      memWait (if bounded then x.removeWaiter m else x) l := by
    cases bounded <;> rfl
  have hone : ((if bounded then x.removeWaiter m else x).mutex m).locked = false →
      ¬ (if bounded then x.removeWaiter m else x).natives > 1 := by
    cases bounded <;> simpa [Mem.removeWaiter, Mem.setMutex] using h
  unfold Mem.acquireResume
  simp only [hcount]
  generalize (if bounded then x.removeWaiter m else x) = y at hone
  have hmutex : (memWait y l).mutex = y.mutex := rfl
  have hnatives : (memWait y l).natives = y.natives := rfl
  rw [hmutex, hnatives]
  split
  case isTrue hfree => rw [if_neg (hone hfree), if_neg (hone hfree), take_memWait]
  case isFalse => cases bounded <;> rfl

theorem disownMutex_natives : (x.disownMutex t m).natives = x.natives := by
  unfold Mem.disownMutex
  simp only
  split <;> rfl

theorem giveUp_natives : (x.giveUp t m).natives = x.natives :=
  disownMutex_natives

theorem acquired_withWait {q : Pc Mid} (r : Option Errno) :
    (withWait s l).acquired t m q (r, memWait x l) = withWait (s.acquired t m q (r, x)) l := by
  rcases r with _ | rc
  · rfl
  · simp only [Sys.acquired]
    split <;> rfl

theorem derefsNull_staticWait (op : ListOp Mid Tid) :
    op.derefsNull (staticWait : Links (WaitNode Mid Tid)) = true := by
  rcases op with ⟨t, m⟩ | t | m <;> simp [ListOp.derefsNull, staticWait]

theorem faults_of_unused (h : listOp s a ≠ none → s.mem.natives ≤ 1) : faults s a = false := by
  unfold faults
  split
  case h_1 => rfl
  case h_2 op hop =>
    have hone := h (by rw [hop]; exact Option.some_ne_none _)
    simp [Nat.not_lt.mpr hone]

theorem Parallel.faults_of_used (h : Parallel p) (hused : ¬ ListUnused p a) :
    faults p.1 a = true := by
  unfold ListUnused at hused
  obtain ⟨hop, hnatives⟩ := Classical.not_imp.mp hused
  unfold faults
  split
  case h_1 hnone => exact absurd hnone hop
  case h_2 op hsome =>
    rw [h.static, derefsNull_staticWait, Bool.and_true]
    exact decide_eq_true (Nat.not_le.mp hnatives)

variable [DecidableEq D]

theorem releaseLocked_memWait (h : Unsigned.decr (x.mutex m).count = 0 → x.natives ≤ 1) :
    (memWait x l).releaseLocked t m = memWait (x.releaseLocked t m) l := by
  unfold Mem.releaseLocked
  have hmutex : (memWait x l).mutex = x.mutex := rfl
  simp only [hmutex]
  split
  case isTrue hzero =>
    rw [giveUp_memWait, wakeWaiter_of_natives, wakeWaiter_of_natives]
    · rw [giveUp_natives]
      exact h hzero
    · show (x.giveUp t m).natives ≤ 1
      rw [giveUp_natives]
      exact h hzero
  case isFalse => rfl

/-- A step that does not use the lists does not depend on them. -/
theorem step_withWait (h : listOp s a ≠ none → s.mem.natives ≤ 1) :
    (withWait s l).step a = (s.step a).map (withWait · l) := by
  have hpc : (withWait s l).pc = s.pc := rfl
  have hmem : (withWait s l).mem = memWait s.mem l := rfl
  have hmutex : (memWait s.mem l).mutex = s.mem.mutex := rfl
  rcases a with ⟨t, m, tryonly, extra, bounded⟩ | ⟨t, m⟩ | ⟨t, occurred⟩ | n | ⟨t, d⟩ | ⟨t, d⟩
  · simp only [Sys.step, hpc]
    split <;> rfl
  · simp only [Sys.step, hpc]
    split <;> rfl
  · simp only [Sys.step, Sys.go, hpc, hmem, hmutex]
    simp only [listOp] at h
    split
    case h_1 => rfl
    case h_2 => rfl
    case h_3 m tryonly extra bounded hq =>
      simp only [hq] at h
      split
      case isTrue => split <;> rfl
      case isFalse hinternal =>
        rw [if_neg hinternal] at h
        have hone (hwait : (s.mem.acquireEnter t m tryonly bounded).1 = none) :=
          of_ite_ne_none h (acquireEnter_eq_none_iff.mp hwait)
        rw [acquireEnter_memWait hone, acquired_withWait]
        rfl
    case h_4 m extra hq =>
      simp only [hq] at h
      split
      case isTrue => rfl
      case isFalse hback =>
        rw [if_neg hback] at h
        rw [acquireResume_memWait (of_ite_ne_none h), acquired_withWait]
        rfl
    case h_5 m hq =>
      simp only [hq] at h
      rw [acquireResume_memWait (of_ite_ne_none h), acquired_withWait]
      rfl
    case h_6 m hq =>
      split
      case isTrue => rfl
      case isFalse => split <;> rfl
    case h_7 m hq => split <;> rfl
    case h_8 m hq =>
      simp only [hq] at h
      rw [releaseLocked_memWait (of_ite_ne_none h)]
      rfl
  · rfl
  · rfl
  · rfl

theorem step_wait {s' : Sys Mid Tid D} (h : listOp s a ≠ none → s.mem.natives ≤ 1)
    (hs : s.step a = some s') : s'.mem.wait = s.mem.wait := by
  have hself : (withWait s s.mem.wait).step a = some (withWait s' s.mem.wait) := by
    rw [step_withWait h, hs]
    rfl
  rw [withWait_self, hs] at hself
  have heq := Option.some.inj hself
  rw [heq]
  rfl

theorem Parallel.step (h : Parallel p) (hok : ListUnused p a)
    (hs : StaticInit.step p a = some p') : Parallel p' := by
  obtain ⟨s', hfirst, hrest⟩ := Option.bind_eq_some_iff.mp hs
  obtain ⟨d', hsecond, rfl⟩ := Option.map_eq_some_iff.mp hrest
  refine ⟨?_, (step_wait hok hfirst).trans h.static⟩
  rw [h.same, step_withWait hok, hfirst] at hsecond
  exact (Option.some.inj hsecond).symm

/-- **Static and dynamic initialisation.** In every pair of runs without a use of a wait list
the two processes agree and follow no `NULL` pointer; a step that uses a list follows one in
the process with the static mutexes. -/
theorem static_init_agrees (p : Sys Mid Tid D × Sys Mid Tid D)
    (h : Reachable step ListUnused Start p) :
    Agree p ∧
      (∀ a, ListUnused p a →
        (p.1.step a).isSome = (p.2.step a).isSome ∧ faults p.1 a = false ∧
          faults p.2 a = false) ∧
      ∀ a, ¬ ListUnused p a → faults p.1 a = true := by
  have hpar : Parallel p :=
    h.invariant (fun _ hstart => hstart.parallel) fun _ _ _ hp hok hs => hp.step hok hs
  refine ⟨hpar.agree, fun a hok => ⟨?_, faults_of_unused hok, ?_⟩, fun a => hpar.faults_of_used⟩
  · rw [hpar.same, step_withWait hok]
    rcases p.1.step a with _ | s <;> rfl
  · exact faults_of_unused (hpar.listUnused hok)

/-! ## One mutex -/

/-- A process with one mutex and `n` native threads. -/
def oneMutex (n : Nat) (l : Links (WaitNode Unit Nat)) : Sys Unit Nat Nat where
  mem :=
    { mutex := fun _ => pthMutexStatic
      thread := fun _ => ⟨none, ⟨none, 0⟩, none, none⟩
      rn := ⟨fun _ => none, fun _ => none⟩
      wait := l
      natives := n
      pid := 1
      sigpipe := fun _ => 0
      readied := []
      anatives := 0 }
  pc := fun _ => .idle
  held := fun _ _ => 0

theorem oneMutex_start (n : Nat) :
    Start (oneMutex n staticWait, oneMutex n dynamicWait) :=
  ⟨fun _ => rfl, fun _ => rfl, rfl, rfl, rfl⟩

/-- Thread 1 waits for the mutex while there is one native thread, and gets it. -/
theorem static_init_agrees_contended :
    ∃ p, runOk step ListUnused (oneMutex 1 staticWait, oneMutex 1 dynamicWait)
        [.acquire 0 () false false false, .go 0 true, .acquire 1 () false false false, .go 1 true,
          .release 0 (), .go 0 true, .go 0 true, .go 0 true, .go 1 true] = some p ∧
      p.1.pc 1 = .returned .ok ∧ Agree p := by
  refine exists_and_of_any (fun _ => id) (by decide +kernel) fun p hp _ => ?_
  exact (static_init_agrees p (reachable_of_runOk (.init (oneMutex_start 1)) hp)).1

/-- With two native threads the first release of a static mutex follows a `NULL` pointer,
and that of the other one does not. -/
theorem static_release_faults :
    ∃ p : Sys Unit Nat Nat × Sys Unit Nat Nat, Reachable step Always Start p ∧
      p.1.pc 0 = .releaseLock () ∧ faults p.1 (.go 0 true) = true ∧
      faults p.2 (.go 0 true) = false := by
  exact exists_reachable (oneMutex_start 2) [.acquire 0 () false false false, .go 0 true,
    .release 0 (), .go 0 true, .go 0 true] (by decide +kernel)

end Ngpt.Sync.StaticInit
