import Ngpt.Data.RingSeq

/-!
# ngpt — the front of a ring (`pth_ring.c`)

`pth_ring_prepend` stores the new node in the hook before it looks at the hook. It never finds an
empty ring, links the node to the hook, which is the node itself, and loses the nodes that the ring
had. `pth_ring_push` and `pth_ring_enqueue` are other names of it, and `pth_ring_favorite` is a
`pth_ring_delete` followed by it.

Result: `ring_front_iff`.
-/

namespace Ngpt.RingFront

open LinkedRing Ngpt.Sync

variable {N : Type} [DecidableEq N]

/-- Every statement reads the links that the one before it has left. -/
def pthRingPrepend (l : Links (Option N)) (r : PthRing N) (rn : Option N) :
    Links (Option N) × PthRing N :=
  let r := { r with hook := rn }
  let l :=
    if r.hook = none then (l.setNext rn rn).setPrev rn rn
    else
      let l := l.setNext rn r.hook
      let l := l.setPrev rn (l.prev r.hook)
      let l := l.setPrev (l.next rn) rn
      l.setNext (l.prev rn) rn
  (l, { r with nodes := Unsigned.incr r.nodes })

def pthRingPush (l : Links (Option N)) (r : PthRing N) (rn : Option N) :
    Links (Option N) × PthRing N :=
  pthRingPrepend l r rn

def pthRingEnqueue (l : Links (Option N)) (r : PthRing N) (rn : Option N) :
    Links (Option N) × PthRing N :=
  pthRingPrepend l r rn

def pthRingFavorite (l : Links (Option N)) (r : PthRing N) (rn : Option N) :
    Bool × Links (Option N) × PthRing N :=
  if r.hook = none then (false, l, r)
  else if r.hook = rn then (true, l, r)
  else
    let d := pthRingDelete l r rn
    (true, pthRingPrepend d.1 d.2 rn)

variable {l : Links (Option N)} {r : PthRing N} {xs : List N} {x : N}

/-- The new node ends up linked to itself. -/
theorem pthRingPrepend_links (l : Links (Option N)) (r : PthRing N) (x : N) :
    (pthRingPrepend l r (some x)).1.next (some x) = some x ∧
      (pthRingPrepend l r (some x)).1.prev (some x) = some x := by
  simp [pthRingPrepend]

theorem pthRingPrepend_ring (l : Links (Option N)) (hr : r.nodes = xs.length % Unsigned.range) :
    RingOf (pthRingPrepend l r (some x)).1 (pthRingPrepend l r (some x)).2 (x :: xs) ↔ xs = [] := by
  obtain ⟨hnext, hprev⟩ := pthRingPrepend_links l r x
  constructor
  · intro hring
    cases xs with
    | nil => rfl
    | cons y ys =>
      have hclosed : IsRing _ (some x) (some y :: ys.map some) := hring.closed
      have hyx : some y = some x := hclosed.next_head_cons.symm.trans hnext
      have hnodup := hring.nodup
      simp [Option.some.inj hyx] at hnodup
  · rintro rfl
    refine ⟨rfl, ?_, IsRing.empty_iff.mpr ⟨hnext, hprev⟩⟩
    show Unsigned.incr r.nodes = _
    rw [hr, Unsigned.incr_mod]
    rfl

theorem pthRingFavorite_ring (hr : RingOf l r xs) (hx : x ∈ xs) :
    ((pthRingFavorite l r (some x)).1 = true ∧
      RingOf (pthRingFavorite l r (some x)).2.1 (pthRingFavorite l r (some x)).2.2
        (x :: xs.erase x)) ↔ xs.head? = some x := by
  obtain ⟨z, zs, rfl⟩ := List.exists_cons_of_ne_nil (List.ne_nil_of_mem hx)
  have hhook : r.hook = some z := hr.hook
  by_cases hzx : z = x
  · subst hzx
    simpa [pthRingFavorite, hhook] using hr
  · obtain ⟨as, bs, hsplit⟩ := List.append_of_mem hx
    rw [hsplit] at hr
    have herase : (z :: zs).erase x = as ++ bs := by
      rw [hsplit, List.erase_append_right _ hr.notMem_left, List.erase_cons_head]
    have hnodes := (pthRingDelete_ring hr).nodes
    have hne : as ++ bs ≠ [] := by
      intro hnil
      rw [← herase, List.erase_cons_tail (by simpa using hzx)] at hnil
      exact List.cons_ne_nil _ _ hnil
    simp only [pthRingFavorite, hhook, reduceCtorEq, if_false, Option.some_inj, hzx, herase,
      true_and, pthRingPrepend_ring _ hnodes, List.head?_cons, hne]

/-- **The front of a ring.** Prepending gives the ring with the node in front if and only if
the ring was empty, and `pth_ring_favorite` of a member if and only if it is there already. -/
theorem ring_front_iff (l : Links (Option N)) (r : PthRing N) (xs : List N) (x : N)
    (hr : RingOf l r xs) :
    (x ∉ xs → ∀ prepend ∈ [pthRingPrepend, pthRingPush, pthRingEnqueue],
      (RingOf (prepend l r (some x)).1 (prepend l r (some x)).2 (x :: xs) ↔ xs = [])) ∧
    (x ∈ xs →
      ((pthRingFavorite l r (some x)).1 = true ∧
        RingOf (pthRingFavorite l r (some x)).2.1 (pthRingFavorite l r (some x)).2.2
          (x :: xs.erase x) ↔ xs.head? = some x)) := by
  refine ⟨fun _ prepend hprepend => ?_, pthRingFavorite_ring hr⟩
  have heq : prepend = pthRingPrepend := by
    simp only [List.mem_cons, List.not_mem_nil, or_false] at hprepend
    rcases hprepend with rfl | rfl | rfl <;> rfl
  rw [heq]
  exact pthRingPrepend_ring l hr.nodes

/-- A ring that has one node, the node `x`. -/
def single (x : Bool) : Links (Option Bool) × PthRing Bool :=
  pthRingAppend ⟨id, id⟩ pthRingInit (some x)

theorem single_ring (x : Bool) : RingOf (single x).1 (single x).2 [x] :=
  pthRingAppend_ring (ringOf_init _) List.not_mem_nil

/-- The first node of a ring is put there, and is then made first. -/
theorem ring_front_iff_single :
    RingOf (pthRingPush ⟨id, id⟩ pthRingInit (some true)).1
      (pthRingPush ⟨id, id⟩ pthRingInit (some true)).2 [true] ∧
    RingOf (pthRingFavorite (single true).1 (single true).2 (some true)).2.1
      (pthRingFavorite (single true).1 (single true).2 (some true)).2.2 [true] := by
  have hpush := (ring_front_iff ⟨id, id⟩ pthRingInit [] true (ringOf_init _)).1 (by simp)
    pthRingPush (by simp)
  have hfavorite := (ring_front_iff (single true).1 (single true).2 [true] true
    (single_ring true)).2 (by simp)
  exact ⟨hpush.mpr rfl, (hfavorite.mpr rfl).2⟩

/-- A second node is put at the front: the ring counts two nodes, and has one. -/
theorem prepend_loses_node :
    RingOf (single false).1 (single false).2 [false] ∧
    (pthRingPrepend (single false).1 (single false).2 (some true)).2 = ⟨some true, 2⟩ ∧
    (pthRingPrepend (single false).1 (single false).2 (some true)).1.next (some true) =
      some true ∧
    ¬ RingOf (pthRingPrepend (single false).1 (single false).2 (some true)).1
      (pthRingPrepend (single false).1 (single false).2 (some true)).2 [true, false] := by
  refine ⟨single_ring false, ?_, (pthRingPrepend_links _ _ true).1, ?_⟩
  · have hone : Unsigned.incr 0 = 1 := Unsigned.incr_of_lt Unsigned.one_lt_range
    have htwo : Unsigned.incr 1 = 2 := by
      refine Unsigned.incr_of_lt ?_
      unfold Unsigned.range
      decide
    simp [pthRingPrepend, single, pthRingAppend, pthRingInit, hone, htwo]
  · rw [pthRingPrepend_ring _ (single_ring false).nodes]
    exact List.cons_ne_nil _ _

end Ngpt.RingFront
