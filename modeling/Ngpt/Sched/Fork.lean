import Ngpt.Queue.Walk
import Ngpt.Sched.Level

/-!
# ngpt — the run queues of a forked child (`pth_fork.c`)

The child of a fork keeps one thread. `pth_fork_drop_threads` frees the others and runs
`pqueue_init` on the queues they were in, which were zeroed when the library first did so
and are not any more. `bitmap_init` does nothing, so that the bits of the parent's threads
stay set.

The queues of a child hold no node of a freed thread, and what such a node says is not part
of the invariant: `QueueRepr` is the invariant of one queue for the nodes that are left.

Result: `fork_reinit_iff`.
-/

namespace Ngpt.Queue

open Function LinkedRing

variable {Q N : Type}
variable {h h' : Heap Q N} {L : Levels Q N} {q q' : Q}

/-- The run-queue representation invariant of one queue, of which `xs` are the levels. -/
structure QueueRepr (live : N → Prop) (h : Heap Q N) (q : Q) (xs : Nat → List N) : Prop where
  rings  : ∀ p, p < prioTotal → IsRing h.links (.head q p) ((xs p).map .node)
  total  : (h.pqueue q).total = ∑ p ∈ Finset.range prioTotal, (xs p).length
  bitmap : ∀ p, (h.pqueue q).bitmap.test p = true ↔ xs p ≠ []
  left   : ∀ p n, n ∈ xs p → live n
  mem    : ∀ p n, live n → (n ∈ xs p ↔
    (h.node n).bp = some q ∧ (h.node n).nodeLt = .pqueue ∧ (h.node n).priority = p)

/-! ## What is left of the invariant -/

/-- A list node that is linked to itself. -/
def Alone (l : Links (LNode Q N)) (e : LNode Q N) : Prop := l.next e = e ∧ l.prev e = e

/-- What is known of a queue `q` of `h` after it has been initialised on the way to `h'`. -/
structure Emptied (h h' : Heap Q N) (q : Q) : Prop where
  heads  : ∀ p, p < prioTotal → Alone h'.links (.head q p)
  total  : (h'.pqueue q).total = 0
  bitmap : (h'.pqueue q).bitmap = (h.pqueue q).bitmap
  node   : h'.node = h.node

theorem Emptied.queueRepr_iff (he : Emptied h h' q) (hR : Represents h L) (live : N → Prop) :
    (∃ xs, QueueRepr live h' q xs) ↔ ∀ p, L q p = [] := by
  constructor
  · rintro ⟨xs, hxs⟩ p
    by_contra hne
    obtain ⟨n, hn⟩ := List.exists_mem_of_ne_nil _ hne
    have hp : p < prioTotal := hR.lt_prioTotal hn
    have hring : xs p = [] := List.map_eq_nil_iff.mp
      ((hxs.rings p hp).unique (IsRing.empty_iff.mpr (he.heads p hp)))
    have hbit : (h'.pqueue q).bitmap.test p = true := by
      rw [he.bitmap]
      exact (hR.counted.bitmap q p).mpr hne
    exact (hxs.bitmap p).mp hbit hring
  · intro hempty
    refine ⟨fun _ => [], ⟨fun p hp => IsRing.empty_iff.mpr (he.heads p hp), ?_, fun p => ?_,
      fun p n hn => absurd hn List.not_mem_nil, fun p n _ => ?_⟩⟩
    · rw [he.total]
      simp
    · rw [he.bitmap, hR.counted.bitmap q p, hempty p]
    · -- no node says that it is in the queue
      rw [he.node, ← hR.placed.mem q p n, hempty p]

/-! ## `pqueue_init` on a queue in use -/

variable [DecidableEq Q] [DecidableEq N]

theorem foldl_lnodeInit_node (q : Q) (cnts : List Nat) (h : Heap Q N) :
    (cnts.foldl (fun h cnt => lnodeInit h (.head q cnt)) h).node = h.node := by
  induction cnts generalizing h with
  | nil => rfl
  | cons cnt cnts ih => exact ih _

theorem pqueueInit_node (h : Heap Q N) (q : Q) : (pqueueInit h q).node = h.node :=
  foldl_lnodeInit_node q _ _

theorem pqueueInit_pqueue (h : Heap Q N) (q : Q) :
    (pqueueInit h q).pqueue = update h.pqueue q { h.pqueue q with total := 0 } :=
  foldl_lnodeInit_pqueue q _ _

theorem pqueueInit_bitmap (h : Heap Q N) (q q' : Q) :
    ((pqueueInit h q).pqueue q').bitmap = (h.pqueue q').bitmap := by
  rw [pqueueInit_pqueue]
  by_cases hq : q' = q
  · rw [hq, update_self]
  · rw [update_of_ne hq]

theorem Alone.lnodeInit {e : LNode Q N} (he : Alone h.links e) (w : LNode Q N) :
    Alone (lnodeInit h w).links e := by
  by_cases hw : e = w
  · rw [hw]
    exact lnodeInit_self h w
  · obtain ⟨hnext, hprev⟩ := he
    constructor
    · simpa [Queue.lnodeInit, hw] using hnext
    · simpa [Queue.lnodeInit, hw] using hprev

theorem Alone.pqueueInit {e : LNode Q N} (he : Alone h.links e) (q : Q) :
    Alone (pqueueInit h q).links e := by
  have hfold : ∀ (cnts : List Nat) (h : Heap Q N), Alone h.links e →
      Alone (cnts.foldl (fun h cnt => Queue.lnodeInit h (.head q cnt)) h).links e := by
    intro cnts
    induction cnts with
    | nil => exact fun _ he => he
    | cons cnt cnts ih => exact fun _ he => ih _ (he.lnodeInit _)
  exact hfold _ _ he

theorem emptied_pqueueInit (h : Heap Q N) (q : Q) : Emptied h (pqueueInit h q) q where
  heads  := fun _ hp => foldl_lnodeInit q _ _ (Or.inl (List.mem_range.mpr hp))
  total  := by rw [pqueueInit_pqueue, update_self]
  bitmap := pqueueInit_bitmap h q q
  node   := pqueueInit_node h q

theorem Emptied.pqueueInit (he : Emptied h h' q) (q' : Q) : Emptied h (pqueueInit h' q') q where
  heads  := fun p hp => (he.heads p hp).pqueueInit q'
  total  := by
    rw [pqueueInit_pqueue]
    by_cases hq : q = q'
    · rw [hq, update_self]
    · rw [update_of_ne hq, he.total]
  bitmap := (pqueueInit_bitmap h' q' q).trans he.bitmap
  node   := (pqueueInit_node h' q').trans he.node

theorem Emptied.of_pqueueInit (he : Emptied (Queue.pqueueInit h q') h' q) : Emptied h h' q where
  heads  := he.heads
  total  := he.total
  bitmap := he.bitmap.trans (pqueueInit_bitmap h q' q)
  node   := he.node.trans (pqueueInit_node h q')

theorem Emptied.foldl (he : Emptied h h' q) (qs : List Q) :
    Emptied h (qs.foldl Queue.pqueueInit h') q := by
  induction qs generalizing h' with
  | nil => exact he
  | cons q' qs ih => exact ih (he.pqueueInit q')

theorem emptied_foldl (qs : List Q) (h : Heap Q N) (hq : q ∈ qs) :
    Emptied h (qs.foldl pqueueInit h) q := by
  induction qs generalizing h with
  | nil => exact absurd hq List.not_mem_nil
  | cons q' qs ih =>
    rcases List.mem_cons.mp hq with rfl | hq
    · exact (emptied_pqueueInit h q).foldl qs
    · exact (ih (pqueueInit h q') hq).of_pqueueInit

/-- A node with a given priority that is in no queue. -/
def Heap.fresh (h : Heap Q N) (n : N) (prio : Nat) : Heap Q N :=
  h.setNode n { bp := none, priority := prio, nodeLt := .nowhere }

theorem append_fresh {n : N} {prio : Nat} (hhead : Alone h.links (.head q prio)) :
    let h' := pqueueAppendNode (h.fresh n prio) q n
    (h'.pqueue q).total = (h.pqueue q).total + 1 ∧
    (h'.pqueue q).bitmap = bitmapSetBit (h.pqueue q).bitmap prio ∧
    ∀ p, h'.links.next (.head q p) =
      if p = prio then .node n else h.links.next (.head q p) := by
  obtain ⟨hnext, hprev⟩ := hhead
  have hlt : nodeLtCheck (h.fresh n prio) n .nowhere = false := by
    simp [nodeLtCheck, Heap.fresh]
  have hprio : ((h.fresh n prio).node n).priority = prio := by
    simp [Heap.fresh]
  have hlinks : (h.fresh n prio).links = h.links := rfl
  have hpqueue : (h.fresh n prio).pqueue = h.pqueue := rfl
  refine ⟨?_, ?_, fun p => ?_⟩
  · simp [pqueueAppendNode, pqueueAddNode, hlt, pqueueInsertTail, nodePqueueSet, Heap.setBit,
      Heap.setTotal, Heap.setPqueue, hpqueue]
  · simp [pqueueAppendNode, pqueueAddNode, hlt, hprio, pqueueInsertTail, nodePqueueSet,
      Heap.setBit, Heap.setTotal, Heap.setPqueue, hpqueue]
  · simp [pqueueAppendNode, pqueueAddNode, hlt, hprio, pqueueInsertTail, nodePqueueSet,
      listInsertTail, hlinks, hprev, Links.insertBetween_next]

theorem Emptied.first_iff (he : Emptied h h' q) (hR : Represents h L) (n : N) {prio : Nat}
    (hprio : prio < prioTotal) :
    pqueueFirstNode (pqueueAppendNode (h'.fresh n prio) q n) q = some n ↔
      ∀ p, prio < p → L q p = [] := by
  obtain ⟨htotal, hbitmap, hlinks⟩ := append_fresh (n := n) (he.heads prio hprio)
  have hbits : prio < bitmapBits := hprio.trans (by decide)
  have hown : (bitmapSetBit (h'.pqueue q).bitmap prio).test prio = true := by simp
  obtain ⟨⟨-, hset⟩, hmax⟩ := bitmapFfmsBitSet_isGreatest hbits hown
  simp only [pqueueFirstNode, htotal, hbitmap, hlinks]
  generalize bitmapFfmsBitSet (bitmapSetBit (h'.pqueue q).bitmap prio) = top at hset hmax
  -- the bit found is that of the node, or one that a node of the parent has left
  have htop : top = prio ∨ L q top ≠ [] := by
    rw [bitmapSetBit_test, he.bitmap, Bool.or_eq_true, decide_eq_true_iff] at hset
    exact hset.imp_right (hR.counted.bitmap q top).mp
  by_cases heq : top = prio
  · have hnone : ∀ p, prio < p → L q p = [] := by
      intro p hp
      by_contra hne
      obtain ⟨m, hm⟩ := List.exists_mem_of_ne_nil _ hne
      have hlt : p < prioTotal := hR.lt_prioTotal hm
      have hle : p ≤ top := hmax ⟨hlt.trans (by decide), by
        rw [bitmapSetBit_test, he.bitmap, (hR.counted.bitmap q p).mpr hne, Bool.or_true]⟩
      omega
    simpa [heq] using hnone
  · have hne : L q top ≠ [] := htop.resolve_left heq
    obtain ⟨m, hm⟩ := List.exists_mem_of_ne_nil _ hne
    have hself := (he.heads top (hR.lt_prioTotal hm)).1
    have hlt : prio < top := Nat.lt_of_le_of_ne (hmax ⟨hbits, hown⟩) (Ne.symm heq)
    simp only [heq, if_false, hself]
    refine iff_of_false (by simp) fun hall => hne (hall top hlt)

end Ngpt.Queue

namespace Ngpt.Sched.Fork

open Ngpt.Queue Ngpt.Sched.Create Transition

variable {D T : Type} [DecidableEq D] [DecidableEq T]

/-- The loop of `pth_fork_drop_threads` over `pth_threads_queue`: the threads that it frees.
It ends at the last thread, whichever that is. -/
def freedThreads (current : T) : List T → List T
  | t :: t' :: ts =>
    if t ≠ current then t :: freedThreads current (t' :: ts) else freedThreads current (t' :: ts)
  | _ => []

/-- The queues of `pth_native_list`, up to the first slot that is not in use. -/
def nativeQueues : List (D × Bool) → List (QName D)
  | (ds, true) :: slots =>
    .waitQueue ds :: .newQueue ds :: .readyQueue ds :: nativeQueues slots
  | _ => []

/-- The queues that `pth_fork_drop_threads` initialises, in its order. -/
def forkQueues (slots : List (D × Bool)) : List (QName D) :=
  .pthNQ :: .pthRQ :: .pthWQ :: .pthDQ :: .pthSQ :: nativeQueues slots

/-- What the child starts with. -/
structure Child (D T : Type) where
  heap  : Heap (QName D) T
  freed : List T

/-- `pth_fork_drop_threads`; a slot of `pth_native_list` is a native thread and `is_used`. -/
def pthForkDropThreads (h : Heap (QName D) T) (threads : List T) (slots : List (D × Bool))
    (current : T) : Child D T where
  heap  := (forkQueues slots).foldl pqueueInit h
  freed := freedThreads current threads

/--
**The queues of a child.** After `pth_fork_drop_threads` a queue it has initialised is a
run queue if and only if the parent had no thread in it, and a thread that is appended to
it next is its first one if and only if the parent had none on a higher level.
-/
theorem fork_reinit_iff (h : Heap (QName D) T) (L : Levels (QName D) T) (hR : Represents h L)
    (threads : List T) (slots : List (D × Bool)) (current : T) (q : QName D)
    (hq : q ∈ forkQueues slots) :
    let child := pthForkDropThreads h threads slots current
    ((∃ xs, QueueRepr (· ∉ child.freed) child.heap q xs) ↔ ∀ p, L q p = []) ∧
    ∀ n prio, prio < prioTotal →
      (pqueueFirstNode (pqueueAppendNode (child.heap.fresh n prio) q n) q = some n ↔
        ∀ p, prio < p → L q p = []) := by
  intro child
  have he : Emptied h child.heap q := by
    simp only [child, pthForkDropThreads]
    exact emptied_foldl (forkQueues slots) h hq
  exact ⟨he.queueRepr_iff hR _, fun n _ hprio => he.first_iff hR n hprio⟩

/-- The main thread of a process with one native spawns a thread of priority 10, which
waits; both are woken, the new one waits again, and the main thread runs. -/
def waitTwice : List (Create.Action Bool Bool) :=
  spawnWaitWake schedOther 10 ++
    ([.multi (.go false), .multi (.go false), .multi (.pick false), .multi (.go false),
      .multi (.wait false), .multi (.go false), .multi (.go false), .multi (.go false),
      .multi (.go false), .multi (.events false false), .multi (.wake false false),
      .multi (.go false), .multi (.go false), .multi (.pick false), .multi (.go false)] :
      List (Create.Action Bool Bool))

/-- The main thread forks there. In the child bit 10 of the wait queue is set and level 10
is empty, and if the main thread waits then nobody is found in the wait queue. -/
theorem fork_leaves_bit :
    Initial false false schedOther 0 (init false false schedOther 0 1 : State Bool Bool) ∧
    (runOk (State.step false false) LevelSpawns (init false false schedOther 0 1)
      waitTwice).map (fun s : State Bool Bool =>
        let child := pthForkDropThreads s.multi.heap s.threads [(false, true)] false
        let waiting := pqueueAppendNode child.heap (.waitQueue false) false
        ((s.multi.pc false).current, child.freed,
          (child.heap.pqueue (.waitQueue false)).bitmap.test 10,
          listEmpty child.heap (.head (.waitQueue false) 10),
          pqueueContains waiting (.waitQueue false) false,
          pqueueFirstNode waiting (.waitQueue false))) =
      some (some false, [true], true, true, true, none) := by
  refine ⟨init_initial false false schedOther 0 1, ?_⟩
  decide +kernel

/-- A thread of priority 10 was in the wait queue, and none in the suspension queue. -/
theorem fork_reinit_iff_wait :
    let h : Heap (QName Bool) Bool := execAll initHeap
      [(true, .prioritySet ⟨10, by decide⟩), (true, .append (.waitQueue false))]
    let child := pthForkDropThreads h [true, false] [(false, true)] false
    (¬ ∃ xs, QueueRepr (· ∉ child.freed) child.heap (.waitQueue false) xs) ∧
      ∃ xs, QueueRepr (· ∉ child.freed) child.heap .pthSQ xs := by
  have hR := exec_repr (exec_repr (initHeap_initialised (Q := QName Bool)).repr
    true (.prioritySet ⟨10, by decide⟩)) true (.append (.waitQueue false))
  refine ⟨fun h => ?_, (fork_reinit_iff _ _ hR _ _ _ _ (by decide)).1.mpr fun _ => rfl⟩
  have hempty := (fork_reinit_iff _ _ hR _ _ _ _ (by decide)).1.mp h 10
  revert hempty
  decide

end Ngpt.Sched.Fork
