import Ngpt.Queue.Refine

/-!
# ngpt — run queues over whole runs

From initialised queues and nodes, every sequence of operations keeps the
representation invariant (`pqueue_runs_keep_repr`), and on every state that
satisfies it each operation has exactly the effect of its list operation
(`pqueue_ops_refine_levels`). `pqueueFirstNode_spec` is what the scheduler
reads: the first node of the highest non-empty level.
-/

namespace Ngpt.Queue

open LinkedRing

variable {Q N : Type} {h : Heap Q N} {L : Levels Q N} {q : Q} {n : N}

/-! ## The first node -/

/-- `n` is the first node of the highest non-empty level of `q`. -/
def IsFirst (L : Levels Q N) (q : Q) (n : N) : Prop :=
  ∃ p rest, L q p = n :: rest ∧ ∀ p', p < p' → L q p' = []

theorem levelTotal_eq_zero_iff : levelTotal L q = 0 ↔ ∀ p < prioTotal, L q p = [] := by
  simp [levelTotal, Finset.sum_eq_zero_iff]

theorem pqueueFirstNode_spec (hR : Represents h L) (q : Q) :
    (pqueueFirstNode h q = none ∧ ∀ p, L q p = []) ∨
      ∃ n, pqueueFirstNode h q = some n ∧ IsFirst L q n := by
  have hHigh : ∀ p, prioTotal ≤ p → L q p = [] := fun _ => hR.eq_nil
  by_cases hTotal : (h.pqueue q).total = 0
  · refine Or.inl ⟨by simp [pqueueFirstNode, hTotal], fun p => ?_⟩
    rw [hR.counted.total q, levelTotal_eq_zero_iff] at hTotal
    by_cases hp : p < prioTotal
    · exact hTotal p hp
    · exact hHigh p (by omega)
  · right
    -- some level is not empty, so some bit is set and the scan finds the greatest
    obtain ⟨p, hp, hne⟩ : ∃ p < prioTotal, L q p ≠ [] := by
      rw [hR.counted.total q, levelTotal_eq_zero_iff] at hTotal
      push Not at hTotal
      exact hTotal
    have hlt : p < bitmapBits := hp.trans (by decide)
    obtain ⟨⟨-, hset⟩, hmax⟩ :=
      bitmapFfmsBitSet_isGreatest hlt ((hR.counted.bitmap q p).mpr hne)
    set top := bitmapFfmsBitSet (h.pqueue q).bitmap with htop
    have htopNe : L q top ≠ [] := (hR.counted.bitmap q top).mp hset
    have htopLt : top < prioTotal := by
      by_contra hge
      exact htopNe (hHigh top (by omega))
    obtain ⟨n, rest, hrest⟩ := List.exists_cons_of_ne_nil htopNe
    have hring := hR.rings q top htopLt
    rw [hrest, List.map_cons] at hring
    refine ⟨n, ?_, top, rest, hrest, fun p' hp' => ?_⟩
    · simp [pqueueFirstNode, hTotal, ← htop, hring.next_head_cons]
    · by_contra hne'
      have hlt' : p' < prioTotal := by
        by_contra hge
        exact hne' (hHigh p' (by omega))
      have := hmax ⟨hlt'.trans (by decide), (hR.counted.bitmap q p').mpr hne'⟩
      omega

theorem isFirst_of_first (hR : Represents h L) (hf : pqueueFirstNode h q = some n) :
    IsFirst L q n := by
  rcases pqueueFirstNode_spec hR q with ⟨hnone, -⟩ | ⟨n', hsome, hfirst⟩
  · cases hnone.symm.trans hf
  · cases hsome.symm.trans hf
    exact hfirst

theorem isFirst_unique {t t' : N} (ht : IsFirst L q t) (ht' : IsFirst L q t') : t' = t := by
  obtain ⟨p, rest, hp, hhigh⟩ := ht
  obtain ⟨p', rest', hp', hhigh'⟩ := ht'
  rcases lt_trichotomy p p' with hlt | heq | hlt
  · rw [hhigh p' hlt] at hp'
    cases hp'
  · subst heq
    rw [hp] at hp'
    exact (List.cons.inj hp').1.symm
  · rw [hhigh' p hlt] at hp
    cases hp

theorem pqueueFirstNode_of_isFirst {t : N} (hR : Represents h L) (ht : IsFirst L q t) :
    pqueueFirstNode h q = some t := by
  rcases pqueueFirstNode_spec hR q with ⟨-, hempty⟩ | ⟨t', hsome, ht'⟩
  · obtain ⟨p, rest, hp, -⟩ := ht
    rw [hempty p] at hp
    cases hp
  · rw [hsome, isFirst_unique ht ht']

/-! ## Which queue a node is in -/

/-- The queue a node is in, by its back pointer. -/
def Heap.place (h : Heap Q N) (n : N) : Option Q := (h.node n).bp

/-- The heap represents some lists. -/
def Heap.Ok (h : Heap Q N) : Prop := ∃ L, Represents h L

theorem Represents.place_iff (hR : Represents h L) : h.place n = some q ↔ ∃ p, n ∈ L q p := by
  constructor
  · intro hp
    exact ⟨_, hR.placed.mem_of_bp hp⟩
  · rintro ⟨p, hn⟩
    exact ((hR.placed.mem q p n).mp hn).1

theorem Heap.Ok.place_of_first (hO : h.Ok) (hf : pqueueFirstNode h q = some n) :
    h.place n = some q := by
  obtain ⟨L, hR⟩ := hO
  obtain ⟨p, rest, hp, -⟩ := isFirst_of_first hR hf
  exact hR.place_iff.mpr ⟨p, hp ▸ List.mem_cons_self⟩

theorem Heap.Ok.priority_le_first {m : N} (hO : h.Ok) (hf : pqueueFirstNode h q = some n)
    (hm : h.place m = some q) : (h.node m).priority ≤ (h.node n).priority := by
  obtain ⟨L, hR⟩ := hO
  obtain ⟨p, rest, hp, hhigh⟩ := isFirst_of_first hR hf
  have hn : (h.node n).priority = p := ((hR.placed.mem q p n).mp (hp ▸ List.mem_cons_self)).2.2
  by_contra hlt
  have hmem := hR.placed.mem_of_bp hm
  rw [hhigh _ (by omega)] at hmem
  cases hmem

theorem Heap.Ok.contains_iff [DecidableEq Q] (hO : h.Ok) :
    pqueueContains h q n = true ↔ h.place n = some q := by
  obtain ⟨L, hR⟩ := hO
  have hk := hR.placed.kind n
  unfold pqueueContains nodeLtCheck Heap.place
  rcases hbp : (h.node n).bp with _ | q'
  · simp [hk, hbp]
  · simp [hk, hbp]

variable [DecidableEq Q] [DecidableEq N]

/-! ## Initialisation -/

/-- All queues are as `pqueue_init` leaves a zeroed queue and all nodes as
`node_init` leaves a zeroed node: running the two again changes nothing. -/
structure Initialised (h : Heap Q N) : Prop where
  queues  : ∀ q, pqueueInit h q = h
  bitmaps : ∀ q, (h.pqueue q).bitmap = bitmapZero
  nodes   : ∀ n, nodeInit h n = h
  zeroed  : ∀ n, h.node n = nodeZero

theorem lnodeInit_self (h : Heap Q N) (e : LNode Q N) :
    (lnodeInit h e).links.next e = e ∧ (lnodeInit h e).links.prev e = e := by
  simp [lnodeInit]

theorem foldl_lnodeInit (q : Q) {p : Nat} (cnts : List Nat) (h : Heap Q N)
    (hp : p ∈ cnts ∨
      (h.links.next (.head q p) = .head q p ∧ h.links.prev (.head q p) = .head q p)) :
    let h' := cnts.foldl (fun h cnt => lnodeInit h (.head q cnt)) h
    h'.links.next (.head q p) = .head q p ∧ h'.links.prev (.head q p) = .head q p := by
  induction cnts generalizing h with
  | nil =>
    rcases hp with hp | hp
    · simp at hp
    · exact hp
  | cons cnt cnts ih =>
    refine ih _ ?_
    by_cases hcnt : p = cnt
    · subst hcnt
      exact Or.inr (lnodeInit_self h _)
    · rcases hp with hp | hp
      · exact Or.inl ((List.mem_cons.mp hp).resolve_left hcnt)
      · refine Or.inr ?_
        simpa [lnodeInit, hcnt] using hp

theorem foldl_lnodeInit_pqueue (q : Q) (cnts : List Nat) (h : Heap Q N) :
    (cnts.foldl (fun h cnt => lnodeInit h (.head q cnt)) h).pqueue = h.pqueue := by
  induction cnts generalizing h with
  | nil => rfl
  | cons cnt cnts ih => exact ih _

theorem Initialised.repr {h : Heap Q N} (hI : Initialised h) : Represents h fun _ _ => [] := by
  refine ⟨fun q p hp => ?_, ⟨fun q => ?_, fun q p => ?_⟩, ⟨fun q p n => ?_, fun n => ?_,
    fun n => ?_⟩⟩
  · rw [List.map_nil, IsRing.empty_iff]
    have hfold := foldl_lnodeInit q (List.range prioTotal) (h.setTotal q 0)
      (Or.inl (List.mem_range.mpr hp))
    have hself := hI.queues q
    rw [pqueueInit] at hself
    rwa [hself] at hfold
  · have hself := congrArg (fun h' => (h'.pqueue q).total) (hI.queues q)
    simp only [pqueueInit, foldl_lnodeInit_pqueue, Heap.setTotal, Heap.setPqueue,
      Function.update_self] at hself
    rw [← hself]
    simp [levelTotal]
  · simp [hI.bitmaps]
  · simp [hI.zeroed n, nodeZero]
  · simp [hI.zeroed n, nodeZero]
  · rw [hI.zeroed n]
    exact Nat.zero_lt_of_lt (Nat.lt_succ_self 139)

/-- A heap of initialised queues and nodes. -/
def initHeap : Heap Q N where
  links  := ⟨id, id⟩
  node   := fun _ => nodeZero
  pqueue := fun _ => ⟨0, bitmapZero⟩

theorem lnodeInit_initHeap (e : LNode Q N) : lnodeInit (initHeap : Heap Q N) e = initHeap := by
  have hid : Function.update (id : LNode Q N → LNode Q N) e e = id := Function.update_eq_self e id
  simp [lnodeInit, initHeap, Links.setNext, Links.setPrev, hid]

theorem initHeap_initialised : Initialised (initHeap : Heap Q N) := by
  refine ⟨fun q => ?_, fun _ => rfl, fun n => lnodeInit_initHeap _, fun _ => rfl⟩
  have hset : (initHeap : Heap Q N).setTotal q 0 = initHeap := by
    simp [Heap.setTotal, Heap.setPqueue, initHeap]
  have hfold : ∀ cnts : List Nat,
      cnts.foldl (fun h cnt => lnodeInit h (.head q cnt)) (initHeap : Heap Q N) = initHeap := by
    intro cnts
    induction cnts with
    | nil => rfl
    | cons cnt cnts ih => rw [List.foldl_cons, lnodeInit_initHeap, ih]
  rw [pqueueInit, hset, hfold]

/-! ## Runs -/

/-- A sequence of operations, each on a node. -/
def execAll (h : Heap Q N) (ops : List (N × Op Q)) : Heap Q N :=
  ops.foldl (fun h op => exec h op.1 op.2) h

theorem execAll_repr {h : Heap Q N} {L : Levels Q N} (hR : Represents h L) (ops : List (N × Op Q)) :
    ∃ L', Represents (execAll h ops) L' := by
  induction ops generalizing h L with
  | nil => exact ⟨L, hR⟩
  | cons op ops ih => exact ih (exec_repr hR op.1 op.2)

/--
**Runs keep the representation invariant.** Whatever operations are applied to
whatever nodes, in the right state or not, the links, the counter, the bitmap
and the back pointers of all queues agree on one list per level, and no node
is in two lists.
-/
theorem pqueue_runs_keep_repr (h : Heap Q N) (hInit : Initialised h) (ops : List (N × Op Q)) :
    ∃ L : Levels Q N, Represents (execAll h ops) L ∧ L.Apart := by
  obtain ⟨L, hR⟩ := execAll_repr hInit.repr ops
  exact ⟨L, hR, hR.placed.apart⟩

theorem pqueue_runs_keep_repr_two_queues :
    Initialised (initHeap : Heap Bool Nat) ∧
      ∃ L : Levels Bool Nat, Represents (execAll initHeap
        [(0, .append true), (1, .prioritySet ⟨7, by decide⟩), (1, .prepend true),
          (0, .append false),
          (0, .prioritySet ⟨7, by decide⟩), (1, .favor), (1, .delete)]) L ∧ L.Apart :=
  ⟨initHeap_initialised, pqueue_runs_keep_repr _ initHeap_initialised _⟩

/-- **Run queues refine lists per level.** Every operation on a node `n` leads from the lists
`L` to exactly `L.exec n … op`, with the order of all other nodes kept; setting the priority a
node already has changes nothing. -/
theorem pqueue_ops_refine_levels (h : Heap Q N) (L : Levels Q N) (hR : Represents h L) (n : N) :
    (∀ q, (h.node n).bp = some q ↔ n ∈ L q (h.node n).priority) ∧
    ((h.node n).bp = none ↔ ¬ L.Linked n) ∧
    (∀ op L', Represents (exec h n op) L' ↔ L' = L.exec n (h.node n).bp (h.node n).priority op) ∧
    (∀ op q p, others n (L.exec n (h.node n).bp (h.node n).priority op q p) =
      others n (L q p)) ∧
    (∀ new : Fin prioTotal, (h.node n).priority = new → exec h n (.prioritySet new) = h) := by
  refine ⟨fun q => ⟨hR.placed.mem_of_bp, fun hn => ((hR.placed.mem q _ n).mp hn).1⟩, ?_,
    fun op L' => ⟨fun hR' => ?_, ?_⟩, others_exec L n _ _,
    fun new => pqueueNodePrioritySet_eq new.1⟩
  · rw [hR.placed.linked_iff, not_not]
  · exact hR'.unique (exec_repr hR n op)
  · rintro rfl
    exact exec_repr hR n op

/-- Three nodes in two queues, of which the second one gets a higher priority. -/
theorem pqueue_ops_refine_levels_raise :
    ∃ L : Levels Bool Nat, L true 0 = [0, 1] ∧ L false 0 = [2] ∧
      let h := execAll initHeap [(0, .append true), (1, .append true), (2, .append false)]
      Represents h L ∧
        ∃ L', (∀ L₁, Represents (exec h 1 (.prioritySet ⟨7, by decide⟩)) L₁ ↔ L₁ = L') ∧
          L' true 0 = [0] ∧ L' true 7 = [1] ∧ L' false 0 = [2] := by
  have hR := exec_repr (exec_repr (exec_repr (initHeap_initialised (Q := Bool) (N := Nat)).repr
    0 (.append true)) 1 (.append true)) 2 (.append false)
  exact ⟨_, rfl, rfl, hR, _, (pqueue_ops_refine_levels _ _ hR 1).2.2.1 _, rfl, rfl, rfl⟩

/-! ## What an operation does to the place of a node -/

theorem Heap.Ok.exec (hO : h.Ok) (n : N) (op : Op Q) : (exec h n op).Ok := by
  obtain ⟨L, hR⟩ := hO
  exact ⟨_, exec_repr hR n op⟩

theorem pqueueAddNode_place {insert : Heap Q N → N → Q → Heap Q N} {q : Q}
    (hNode : ∀ h₁ : Heap Q N, (insert h₁ n q).node = (nodePqueueSet h₁ n (some q)).node)
    (hO : h.Ok) (hn : h.place n = none) (m : N) :
    (pqueueAddNode insert h q n).place m = if m = n then some q else h.place m := by
  obtain ⟨L, hR⟩ := hO
  have hcheck : nodeLtCheck h n .nowhere = false := by
    simp [nodeLtCheck, hR.placed.kind n, show (h.node n).bp = none from hn]
  simp only [pqueueAddNode, hcheck, Bool.false_eq_true, if_false, Heap.place, hNode]
  by_cases hm : m = n
  · subst hm
    simp [nodePqueueSet]
  · simp [nodePqueueSet, hm]

theorem pqueueAppendNode_place (hO : h.Ok) (hn : h.place n = none) (q : Q) (m : N) :
    (pqueueAppendNode h q n).place m = if m = n then some q else h.place m :=
  pqueueAddNode_place (fun _ => rfl) hO hn m

theorem pqueuePrependSecondNode_place (hO : h.Ok) (hn : h.place n = none) (q : Q) (m : N) :
    (pqueuePrependSecondNode h q n).place m = if m = n then some q else h.place m :=
  pqueueAddNode_place (fun _ => rfl) hO hn m

theorem pqueueDeleteNode_place (hO : h.Ok) (n m : N) :
    (pqueueDeleteNode h n).place m = if m = n then none else h.place m := by
  obtain ⟨L, hR⟩ := hO
  rcases hbp : (h.node n).bp with _ | q
  · rw [pqueueDeleteNode_unlinked hR hbp]
    split
    case isTrue he => rw [he, Heap.place, hbp]
    case isFalse => rfl
  · have hlt := ((hR.placed.mem q _ n).mp (hR.placed.mem_of_bp hbp)).2.1
    simp only [pqueueDeleteNode, nodeLtCheck, hlt, ne_eq, not_true_eq_false, decide_false,
      Bool.false_eq_true, if_false, hbp, Heap.place]
    by_cases hm : m = n
    · subst hm
      split <;> simp [pqueueDelete, nodePqueueSet]
    · split <;> simp [pqueueDelete, nodePqueueSet, hm]

theorem pqueueFavor_place (n m : N) : (pqueueFavor h n).place m = h.place m := by
  unfold pqueueFavor Heap.place
  split
  · rfl
  · simp only
    split_ifs <;> rfl

theorem pqueueNodePrioritySet_place (prio : Nat) (m : N) :
    (pqueueNodePrioritySet h n prio).place m = h.place m := by
  unfold pqueueNodePrioritySet Heap.place
  by_cases hm : m = n
  · subst hm
    simp only
    repeat' split
    all_goals simp
  · simp only
    repeat' split
    all_goals simp [hm]

theorem Heap.Ok.reset (hO : h.Ok) (hn : h.place n = none) :
    (nodeInit (h.setNode n nodeZero) n).Ok := by
  obtain ⟨L, hR⟩ := hO
  have hOut := hR.placed.not_linked hn
  refine ⟨L, ⟨fun q p hp => ?_, hR.counted, ⟨fun q p m => ?_, fun m => ?_, fun m => ?_⟩⟩⟩
  · have hne : ∀ a ∈ LNode.head q p :: (L q p).map .node, a ≠ .node n :=
      fun a ha he => notMem_ringNodes hOut q p (he ▸ ha)
    refine IsRing.congr (fun a ha => ?_) (fun a ha => ?_) (hR.rings q p hp)
    · simp [nodeInit, lnodeInit, hne a ha]
    · simp [nodeInit, lnodeInit, hne a ha]
  · by_cases hm : m = n
    · subst hm
      have hno : m ∉ L q p := fun hm => hOut ⟨q, p, hm⟩
      simp [nodeInit, lnodeInit, nodeZero, hno]
    · simpa [nodeInit, lnodeInit, hm] using hR.placed.mem q p m
  · by_cases hm : m = n
    · subst hm
      simp [nodeInit, lnodeInit, nodeZero]
    · simpa [nodeInit, lnodeInit, hm] using hR.placed.kind m
  · by_cases hm : m = n
    · subst hm
      simp [nodeInit, lnodeInit, nodeZero, prioTotal]
    · simpa [nodeInit, lnodeInit, hm] using hR.placed.priority m

theorem reset_place (m : N) :
    (nodeInit (h.setNode n nodeZero) n).place m = if m = n then none else h.place m := by
  by_cases hm : m = n
  · subst hm
    simp [nodeInit, lnodeInit, nodeZero, Heap.place]
  · simp [nodeInit, lnodeInit, Heap.place, hm]

end Ngpt.Queue
