import Mathlib.Algebra.BigOperators.Group.Finset.Basic
import Ngpt.Queue.Pqueue

/-!
# ngpt — run queues as lists per level

What a run queue is for: a list of nodes for each priority level. `Levels` is
that view for all queues at once, and `Represents h L` relates it to the heap of
`Ngpt.Queue.Pqueue`, whose four redundant representations must agree:

* `ring` — the links of every level form the circular list of its nodes;
* `total`, `bitmap` — the counter is the sum of the lengths, and a bit is set
  exactly for the non-empty levels;
* `mem` — a node is in level `p` of `q` exactly when its back pointer, list
  type and priority say so. Hence a node is in at most one list.

The abstract operations (`Levels.exec`) say what each operation does to the
lists. `Ngpt.Queue.Refine` proves that the code does it.
-/

namespace Ngpt.Queue

open LinkedRing

/-- The nodes of every level of every queue, first node first. -/
abbrev Levels (Q N : Type) := Q → Nat → List N

variable {Q N : Type} {h : Heap Q N} {node : N → Node Q} {L L' : Levels Q N}
  {n : N} {q q' : Q} {p p' : Nat}

/-- Some level of some queue holds the node. -/
def Levels.Linked (L : Levels Q N) (n : N) : Prop := ∃ q p, n ∈ L q p

/-! ## The representation invariant -/

/-- The list nodes of one level: its head and the nodes linked in it. -/
def ringNodes (L : Levels Q N) (q : Q) (p : Nat) : List (LNode Q N) :=
  .head q p :: (L q p).map .node

/-- Every level is a circular list of the nodes `L` gives it. -/
def Rings (l : Links (LNode Q N)) (L : Levels Q N) : Prop :=
  ∀ q p, p < prioTotal → IsRing l (.head q p) ((L q p).map .node)

/-- The number of nodes in all levels of a queue. -/
def levelTotal (L : Levels Q N) (q : Q) : Nat := ∑ p ∈ Finset.range prioTotal, (L q p).length

/-- The counter and the bitmap of every queue agree with its levels. -/
structure Counted (pq : Q → Pqueue) (L : Levels Q N) : Prop where
  total  : ∀ q, (pq q).total = levelTotal L q
  bitmap : ∀ q p, (pq q).bitmap.test p = true ↔ L q p ≠ []

/-- The fields of every node agree with the level it is in. -/
structure Placed (node : N → Node Q) (L : Levels Q N) : Prop where
  mem      : ∀ q p n, n ∈ L q p ↔
    (node n).bp = some q ∧ (node n).nodeLt = .pqueue ∧ (node n).priority = p
  kind     : ∀ n, (node n).nodeLt = if (node n).bp.isSome then .pqueue else .nowhere
  priority : ∀ n, (node n).priority < prioTotal

/-- **The run-queue representation invariant.** The heap `h` represents the
lists `L`. -/
structure Represents (h : Heap Q N) (L : Levels Q N) : Prop where
  rings   : Rings h.links L
  counted : Counted h.pqueue L
  placed  : Placed h.node L

/-! ## Where a node is -/

theorem Placed.mem_of_bp (hP : Placed node L) (h : (node n).bp = some q) :
    n ∈ L q (node n).priority := by
  refine (hP.mem q _ n).mpr ⟨h, ?_, rfl⟩
  rw [hP.kind n, h]
  rfl

theorem Placed.linked_iff (hP : Placed node L) :
    L.Linked n ↔ (node n).bp ≠ none := by
  constructor
  · rintro ⟨q, p, h⟩
    rw [((hP.mem q p n).mp h).1]
    simp
  · intro h
    obtain ⟨q, hq⟩ := Option.ne_none_iff_exists'.mp h
    exact ⟨q, _, hP.mem_of_bp hq⟩

/-- No node is in two levels. -/
def Levels.Apart (L : Levels Q N) : Prop :=
  ∀ ⦃n q q' p p'⦄, n ∈ L q p → n ∈ L q' p' → q = q' ∧ p = p'

theorem Placed.apart (hP : Placed node L) : L.Apart := by
  intro n q q' p p' h h'
  obtain ⟨hbp, -, hpr⟩ := (hP.mem q p n).mp h
  obtain ⟨hbp', -, hpr'⟩ := (hP.mem q' p' n).mp h'
  exact ⟨Option.some.inj (hbp.symm.trans hbp'), hpr.symm.trans hpr'⟩

theorem Levels.Apart.ringNodes (hA : L.Apart) {a : LNode Q N} (h : a ∈ ringNodes L q p)
    (h' : a ∈ ringNodes L q' p') : q = q' ∧ p = p' := by
  simp only [Queue.ringNodes, List.mem_cons, List.mem_map] at h h'
  rcases h with rfl | ⟨n, hn, rfl⟩
  · rcases h' with h' | ⟨m, -, h'⟩
    · cases h'
      exact ⟨rfl, rfl⟩
    · cases h'
  · rcases h' with h' | ⟨m, hm, h'⟩
    · cases h'
    · cases h'
      exact hA hn hm

theorem Represents.lt_prioTotal (hR : Represents h L) (hn : n ∈ L q p) : p < prioTotal := by
  rw [← ((hR.placed.mem q p n).mp hn).2.2]
  exact hR.placed.priority n

theorem Represents.eq_nil (hR : Represents h L) (hp : prioTotal ≤ p) : L q p = [] :=
  List.eq_nil_iff_forall_not_mem.mpr fun _ hn => Nat.not_lt.mpr hp (hR.lt_prioTotal hn)

theorem Represents.unique (hR : Represents h L) (hR' : Represents h L') : L = L' := by
  funext q p
  by_cases hp : p < prioTotal
  · have hmap := (hR.rings q p hp).unique (hR'.rings q p hp)
    exact List.map_injective_iff.mpr (fun _ _ hab => LNode.node.inj hab) hmap
  · rw [hR.eq_nil (by omega), hR'.eq_nil (by omega)]

/-! ## The operations on lists -/

variable [DecidableEq Q]

namespace Levels

/-- Replace one level. -/
def set (L : Levels Q N) (q : Q) (p : Nat) (xs : List N) : Levels Q N :=
  Function.update L q (Function.update (L q) p xs)

theorem set_apply (L : Levels Q N) (q q' : Q) (p p' : Nat) (xs : List N) :
    L.set q p xs q' p' = if q' = q ∧ p' = p then xs else L q' p' := by
  by_cases hq : q' = q
  · subst hq
    by_cases hp : p' = p <;> simp [set, hp]
  · simp [set, hq]

@[simp] theorem set_self (L : Levels Q N) (q : Q) (p : Nat) (xs : List N) :
    L.set q p xs q p = xs := by
  simp [set_apply]

@[simp] theorem set_set (L : Levels Q N) (q : Q) (p : Nat) (xs ys : List N) :
    (L.set q p xs).set q p ys = L.set q p ys := by
  funext q' p'
  simp only [set_apply]
  split <;> rfl

@[simp] theorem set_eq_self (L : Levels Q N) (q : Q) (p : Nat) : L.set q p (L q p) = L := by
  funext q' p'
  rw [set_apply]
  split
  case isTrue he => rw [he.1, he.2]
  case isFalse => rfl

/-- Insert a node at index 1, or at index 0 of an empty level. -/
def insertSecond (xs : List N) (n : N) : List N := xs.insertIdx (min 1 xs.length) n

variable [DecidableEq N]

/-- Move a node to index 1 unless it is at index 0 or 1 already. -/
def favored (xs : List N) (n : N) : List N :=
  if xs.idxOf n ≤ 1 then xs else insertSecond (xs.erase n) n

end Levels

variable [DecidableEq N]

/-- The operations of `pqueue.h` that change a queue, by the node they are
applied to. A priority is one of the `PRIO_TOTAL` levels. -/
inductive Op (Q : Type) where
  | append (q : Q)
  | prepend (q : Q)
  | prependSecond (q : Q)
  | delete
  | prioritySet (newPriority : Fin prioTotal)
  | favor

/-- One operation of the code. -/
def exec (h : Heap Q N) (n : N) : Op Q → Heap Q N
  | .append q => pqueueAppendNode h q n
  | .prepend q => pqueuePrependNode h q n
  | .prependSecond q => pqueuePrependSecondNode h q n
  | .delete => pqueueDeleteNode h n
  | .prioritySet newPriority => pqueueNodePrioritySet h n newPriority
  | .favor => pqueueFavor h n

/-- One operation on the lists. `at?` is where the node is linked, if it is,
and `prio` its priority: an unlinked node can only be added, a linked one only
be removed or moved. -/
def Levels.exec (L : Levels Q N) (n : N) (at? : Option Q) (prio : Nat) : Op Q → Levels Q N
  | .append q =>
    match at? with
    | some _ => L
    | none => L.set q prio (L q prio ++ [n])
  | .prepend q =>
    match at? with
    | some _ => L
    | none => L.set q prio (n :: L q prio)
  | .prependSecond q =>
    match at? with
    | some _ => L
    | none => L.set q prio (Levels.insertSecond (L q prio) n)
  | .delete =>
    match at? with
    | some q => L.set q prio ((L q prio).erase n)
    | none => L
  | .prioritySet newPriority =>
    match at? with
    | some q =>
      if prio = newPriority then L
      else if prio < newPriority then
        (L.set q prio ((L q prio).erase n)).set q newPriority (L q newPriority ++ [n])
      else
        (L.set q prio ((L q prio).erase n)).set q newPriority (n :: L q newPriority)
    | none => L
  | .favor =>
    match at? with
    | some q => L.set q prio (Levels.favored (L q prio) n)
    | none => L

theorem Levels.Apart.erase (hA : L.Apart) : (L.set q p ((L q p).erase n)).Apart := by
  intro m q₁ q₂ p₁ p₂ h₁ h₂
  have hsub : ∀ {q' p'}, m ∈ L.set q p ((L q p).erase n) q' p' → m ∈ L q' p' := by
    intro q' p' hm
    rw [Levels.set_apply] at hm
    split at hm
    case isTrue he =>
      rw [he.1, he.2]
      exact List.mem_of_mem_erase hm
    case isFalse => exact hm
  exact hA (hsub h₁) (hsub h₂)

theorem Levels.Apart.not_linked_erase (hA : L.Apart) (hn : n ∈ L q p) (hnd : (L q p).Nodup) :
    ¬ (L.set q p ((L q p).erase n)).Linked n := by
  rintro ⟨q', p', hm⟩
  rw [Levels.set_apply] at hm
  split at hm
  case isTrue => exact hnd.not_mem_erase hm
  case isFalse he =>
    obtain ⟨hq, hp⟩ := hA hn hm
    exact he ⟨hq.symm, hp.symm⟩

end Ngpt.Queue
