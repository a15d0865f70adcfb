import Ngpt.Lib.Ring
import Ngpt.Queue.Bitmap

/-!
# ngpt — run queues (`list.h`, `node.h`, `pqueue.h`)

The run queues of the library are arrays of intrusive circular lists, one list
per priority level, over nodes embedded in the thread control blocks. The model
keeps the pointers: a heap of list nodes (`lnode_st`) that are either a level
head inside a queue or the list node inside a `node_st`, the remaining fields
of every node and the counters of every queue.

`Q` names the queues and `N` the nodes; nothing depends on how many there are.
The functions with the prefix `__` in the source and their locking wrappers
have the same effect on the heap, so one definition stands for both. Debug
messages and stack dumps are left out.
-/

namespace Ngpt.Queue

open LinkedRing

/-- `PRIO_TOTAL`, which is `IPRIO_MAX`: the number of priority levels. -/
def prioTotal : Nat := 140

/-- The address of a `struct lnode_st`: the head of level `prio` of a queue, or
the list node inside a `node_st`. -/
inductive LNode (Q N : Type) where
  | head (q : Q) (prio : Nat)
  | node (n : N)
  deriving DecidableEq, Repr

/-- `enum node_lt_e`. -/
inductive NodeLt where
  | nowhere
  | queue
  | pqueue
  deriving DecidableEq, Repr

/-- `struct node_st` without its list node. `bp` is the union of back pointers
read as a `pqueue_st *`. -/
structure Node (Q : Type) where
  bp       : Option Q
  priority : Nat
  nodeLt   : NodeLt
  deriving DecidableEq, Repr

/-- `struct pqueue_st` without its level heads and its lock. `total` is a `size_t`; it counts the
nodes of the queue exactly because they are distinct objects in the address space. -/
structure Pqueue where
  total  : Nat
  bitmap : Bitmap

/-- All run queues and all nodes. -/
structure Heap (Q N : Type) where
  links  : Links (LNode Q N)
  node   : N → Node Q
  pqueue : Q → Pqueue

variable {Q N : Type}

section Functions

variable [DecidableEq Q] [DecidableEq N]

/-! ## list.h -/

/-- `lnode_init`. -/
def lnodeInit (h : Heap Q N) (e : LNode Q N) : Heap Q N :=
  { h with links := (h.links.setPrev e e).setNext e e }

/-- `list_insert`: insert `e` between `w` and `w->next`. -/
def listInsert (h : Heap Q N) (e w : LNode Q N) : Heap Q N :=
  { h with links := h.links.insertBetween e w (h.links.next w) }

/-- `list_insert_tail`: insert `e` between `w->prev` and `w`. -/
def listInsertTail (h : Heap Q N) (e w : LNode Q N) : Heap Q N :=
  { h with links := h.links.insertBetween e (h.links.prev w) w }

/-- `list_del`; the links of `e` itself stay as they are. -/
def listDel (h : Heap Q N) (e : LNode Q N) : Heap Q N :=
  { h with links := h.links.unlink (h.links.prev e) (h.links.next e) }

/-- `list_empty`. -/
def listEmpty (h : Heap Q N) (e : LNode Q N) : Bool := h.links.next e = e

/-! ## node.h -/

/-- A node in zeroed memory. -/
def nodeZero : Node Q := { bp := none, priority := 0, nodeLt := .nowhere }

/-- `node_init`. -/
def nodeInit (h : Heap Q N) (n : N) : Heap Q N := lnodeInit h (.node n)

/-- Write the fields of one node. -/
def Heap.setNode (h : Heap Q N) (n : N) (x : Node Q) : Heap Q N :=
  { h with node := Function.update h.node n x }

/-- `node_pqueue_set`; `none` is the null pointer. -/
def nodePqueueSet (h : Heap Q N) (n : N) (q : Option Q) : Heap Q N :=
  h.setNode n { h.node n with bp := q, nodeLt := if q.isSome then .pqueue else .nowhere }

/-- `node_lt_check`: true if the node is not in a list of the given type. -/
def nodeLtCheck (h : Heap Q N) (n : N) (lt : NodeLt) : Bool := (h.node n).nodeLt ≠ lt

/-! ## pqueue.h -/

/-- Write the counters of one queue. -/
def Heap.setPqueue (h : Heap Q N) (q : Q) (x : Pqueue) : Heap Q N :=
  { h with pqueue := Function.update h.pqueue q x }

def Heap.setTotal (h : Heap Q N) (q : Q) (total : Nat) : Heap Q N :=
  h.setPqueue q { h.pqueue q with total := total }

def Heap.setBit (h : Heap Q N) (q : Q) (prio : Nat) : Heap Q N :=
  h.setPqueue q { h.pqueue q with bitmap := bitmapSetBit (h.pqueue q).bitmap prio }

def Heap.resetBit (h : Heap Q N) (q : Q) (prio : Nat) : Heap Q N :=
  h.setPqueue q { h.pqueue q with bitmap := bitmapResetBit (h.pqueue q).bitmap prio }

/-- `pqueue_init` on a zeroed queue: `bitmap_init` does nothing. -/
def pqueueInit (h : Heap Q N) (q : Q) : Heap Q N :=
  (List.range prioTotal).foldl (fun h cnt => lnodeInit h (.head q cnt)) (h.setTotal q 0)

/-- `__pqueue_insert`. -/
def pqueueInsert (h : Heap Q N) (n : N) (q : Q) : Heap Q N :=
  nodePqueueSet (listInsert h (.node n) (.head q (h.node n).priority)) n (some q)

/-- `__pqueue_insert_second`. -/
def pqueueInsertSecond (h : Heap Q N) (n : N) (q : Q) : Heap Q N :=
  nodePqueueSet
    (listInsert h (.node n) (h.links.next (.head q (h.node n).priority))) n (some q)

/-- `__pqueue_insert_tail`. -/
def pqueueInsertTail (h : Heap Q N) (n : N) (q : Q) : Heap Q N :=
  nodePqueueSet (listInsertTail h (.node n) (.head q (h.node n).priority)) n (some q)

/-- `__pqueue_delete`. -/
def pqueueDelete (h : Heap Q N) (n : N) : Heap Q N :=
  nodePqueueSet (listDel h (.node n)) n none

/-- The common part of `__pqueue_append_node`, `__pqueue_prepend_node` and
`__pqueue_prepend_second_node`, which differ in the insertion only. -/
def pqueueAddNode (insert : Heap Q N → N → Q → Heap Q N) (h : Heap Q N) (q : Q) (n : N) :
    Heap Q N :=
  if nodeLtCheck h n .nowhere then h
  else
    let h := h.setTotal q ((h.pqueue q).total + 1)
    let h := h.setBit q (h.node n).priority
    insert h n q

/-- `__pqueue_append_node`. -/
def pqueueAppendNode (h : Heap Q N) (q : Q) (n : N) : Heap Q N :=
  pqueueAddNode pqueueInsertTail h q n

/-- `__pqueue_prepend_node`. -/
def pqueuePrependNode (h : Heap Q N) (q : Q) (n : N) : Heap Q N :=
  pqueueAddNode pqueueInsert h q n

/-- `__pqueue_prepend_second_node`. -/
def pqueuePrependSecondNode (h : Heap Q N) (q : Q) (n : N) : Heap Q N :=
  pqueueAddNode pqueueInsertSecond h q n

/-- `__pqueue_delete_node`. -/
def pqueueDeleteNode (h : Heap Q N) (n : N) : Heap Q N :=
  if nodeLtCheck h n .pqueue then h
  else
    match (h.node n).bp with
    | none => h
    | some q =>
      let h := h.setTotal q ((h.pqueue q).total - 1)
      let h := pqueueDelete h n
      if listEmpty h (.head q (h.node n).priority) then h.resetBit q (h.node n).priority else h

/-- `__pqueue_first_node`. A level head in the place of the first node is the
case the source reports as a bug and answers with `NULL`. -/
def pqueueFirstNode (h : Heap Q N) (q : Q) : Option N :=
  if (h.pqueue q).total ≠ 0 then
    match h.links.next (.head q (bitmapFfmsBitSet (h.pqueue q).bitmap)) with
    | .node n => some n
    | .head _ _ => none
  else none

/-- `__pqueue_node_priority_set`. -/
def pqueueNodePrioritySet (h : Heap Q N) (n : N) (newPriority : Nat) : Heap Q N :=
  let old := (h.node n).priority
  if old = newPriority then h
  else
    match (h.node n).bp with
    | none => h.setNode n { h.node n with priority := newPriority }
    | some q =>
      if nodeLtCheck h n .pqueue then h
      else
        let h := listDel h (.node n)
        let h := if listEmpty h (.head q old) then h.resetBit q old else h
        let h :=
          if old < newPriority then listInsertTail h (.node n) (.head q newPriority)
          else listInsert h (.node n) (.head q newPriority)
        let h := h.setBit q newPriority
        h.setNode n { h.node n with priority := newPriority }

/-- `__pqueue_total`. -/
def pqueueTotal (h : Heap Q N) (q : Q) : Nat := (h.pqueue q).total

/-- `__pqueue_contains`. -/
def pqueueContains (h : Heap Q N) (q : Q) (n : N) : Bool :=
  if nodeLtCheck h n .pqueue then false else (h.node n).bp = some q

/-- `__pqueue_favor`: make a node the second of its level. -/
def pqueueFavor (h : Heap Q N) (n : N) : Heap Q N :=
  match (h.node n).bp with
  | none => h
  | some q =>
    let head : LNode Q N := .head q (h.node n).priority
    if nodeLtCheck h n .pqueue then h
    else if listEmpty h head then h
    else if h.links.next head = .node n then h
    else if h.links.next (h.links.next head) = .node n then h
    else
      let h := listDel h (.node n)
      listInsert h (.node n) (h.links.next head)

end Functions

/-! ## What each helper leaves alone -/

section Fields

variable (h : Heap Q N) (n : N) (q : Q) (e w : LNode Q N) (prio t : Nat)

section

variable [DecidableEq N]

@[simp] theorem setNode_links (x : Node Q) : (h.setNode n x).links = h.links := rfl
@[simp] theorem setNode_pqueue (x : Node Q) : (h.setNode n x).pqueue = h.pqueue := rfl
@[simp] theorem setNode_node (x : Node Q) :
    (h.setNode n x).node = Function.update h.node n x := rfl

end

section

variable [DecidableEq Q]

@[simp] theorem setTotal_links : (h.setTotal q t).links = h.links := rfl
@[simp] theorem setTotal_node : (h.setTotal q t).node = h.node := rfl
@[simp] theorem setBit_links : (h.setBit q prio).links = h.links := rfl
@[simp] theorem setBit_node : (h.setBit q prio).node = h.node := rfl
@[simp] theorem resetBit_links : (h.resetBit q prio).links = h.links := rfl
@[simp] theorem resetBit_node : (h.resetBit q prio).node = h.node := rfl

end

variable [DecidableEq Q] [DecidableEq N]

@[simp] theorem listInsert_node : (listInsert h e w).node = h.node := rfl
@[simp] theorem listInsert_pqueue : (listInsert h e w).pqueue = h.pqueue := rfl
@[simp] theorem listInsertTail_node : (listInsertTail h e w).node = h.node := rfl
@[simp] theorem listInsertTail_pqueue : (listInsertTail h e w).pqueue = h.pqueue := rfl
@[simp] theorem listDel_node : (listDel h e).node = h.node := rfl
@[simp] theorem listDel_pqueue : (listDel h e).pqueue = h.pqueue := rfl

end Fields

end Ngpt.Queue
