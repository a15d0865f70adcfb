import Ngpt.Lib.Ring
import Ngpt.Lib.Unsigned

/-!
# ngpt — the ring of a thread's mutexes (`pth_ring.c`)

A `pth_ring_t` is a hook and a node count; the nodes are linked through fields
of their own, here the `mx_node` of the mutexes. A pointer to a node is an
`Option`, with `none` for `NULL`. Unlike the lists of `list.h` the ring has no
anchor: the hook is its first node.
-/

namespace Ngpt.Sync

open LinkedRing

/-- `pth_ring_t`: `r_hook` and `r_nodes`, an `unsigned int`. -/
structure PthRing (N : Type) where
  hook  : Option N
  nodes : Nat
  deriving DecidableEq, Repr

variable {N : Type}

def pthRingInit : PthRing N := ⟨none, 0⟩

def pthRingFirst (r : PthRing N) : Option N := r.hook

/-! ## What a ring represents -/

/-- The links of the nodes `ps`: the first one is the anchor of the others. -/
def Closed (l : Links (Option N)) : List (Option N) → Prop
  | [] => True
  | p :: ps => IsRing l p ps

/-- The ring `r` has the nodes `xs`, starting at its hook. -/
structure RingOf (l : Links (Option N)) (r : PthRing N) (xs : List N) : Prop where
  hook   : r.hook = xs.head?
  nodes  : r.nodes = xs.length % Unsigned.range
  closed : Closed l (xs.map some)

theorem ringOf_init (l : Links (Option N)) : RingOf l (pthRingInit : PthRing N) [] :=
  ⟨rfl, rfl, trivial⟩

namespace RingOf

variable {l l' : Links (Option N)} {r : PthRing N} {xs ys : List N} {x : N}

theorem nodup (hr : RingOf l r xs) : xs.Nodup := by
  cases xs with
  | nil => exact List.nodup_nil
  | cons x xs =>
    have hc : IsRing l (some x) (xs.map some) := hr.closed
    exact List.Nodup.of_map some hc.nodup

theorem congr (hr : RingOf l r xs) (hNext : ∀ y ∈ xs, l'.next (some y) = l.next (some y))
    (hPrev : ∀ y ∈ xs, l'.prev (some y) = l.prev (some y)) : RingOf l' r xs := by
  refine ⟨hr.hook, hr.nodes, ?_⟩
  cases xs with
  | nil => exact trivial
  | cons x xs =>
    have hc : IsRing l (some x) (xs.map some) := hr.closed
    have hmem : ∀ a ∈ some x :: xs.map some, ∃ y ∈ x :: xs, some y = a := by
      intro a ha
      exact List.mem_map.mp (show a ∈ (x :: xs).map some from ha)
    refine hc.congr ?_ ?_
    · intro a ha
      obtain ⟨y, hy, rfl⟩ := hmem a ha
      exact hNext y hy
    · intro a ha
      obtain ⟨y, hy, rfl⟩ := hmem a ha
      exact hPrev y hy

theorem neighbours (hr : RingOf l r xs) (hx : x ∈ xs) :
    (∃ y ∈ xs, l.next (some x) = some y) ∧ (∃ y ∈ xs, l.prev (some x) = some y) := by
  cases xs with
  | nil => exact absurd hx List.not_mem_nil
  | cons z zs =>
    have hc : IsRing l (some z) (zs.map some) := hr.closed
    have hm : some x ∈ some z :: zs.map some := List.mem_map_of_mem hx
    obtain ⟨hn, hp⟩ := hc.next_prev_mem hm
    rw [← List.map_cons, List.mem_map] at hn hp
    obtain ⟨y, hy, hyn⟩ := hn
    obtain ⟨w, hw, hwp⟩ := hp
    exact ⟨⟨y, hy, hyn.symm⟩, ⟨w, hw, hwp.symm⟩⟩

end RingOf

/-! ## Several rings -/

/-- Rings that share one heap of links and have no node in common. -/
structure Sequences {I : Type} (l : Links (Option N)) (ring : I → PthRing N) (c : I → List N) :
    Prop where
  ring  : ∀ i, RingOf l (ring i) (c i)
  apart : ∀ i j y, y ∈ c i → y ∈ c j → i = j

/-- An operation on one of several rings keeps the others. -/
theorem Sequences.update {I : Type} [DecidableEq I] {l l' : Links (Option N)} {ring : I → PthRing N}
    {c : I → List N} (h : Sequences l ring c) {i : I} {r : PthRing N} {xs : List N}
    (hring : RingOf l' r xs)
    (hframe : ∀ y j, j ≠ i → y ∈ c j →
      l'.next (some y) = l.next (some y) ∧ l'.prev (some y) = l.prev (some y))
    (hapart : ∀ y j, j ≠ i → y ∈ c j → y ∉ xs) :
    Sequences l' (Function.update ring i r) (Function.update c i xs) := by
  refine ⟨fun k => ?_, fun k k' y hy hy' => ?_⟩
  · by_cases hk : k = i
    · subst hk
      simpa using hring
    · simp only [Function.update_of_ne hk]
      exact (h.ring k).congr (fun y hy => (hframe y k hk hy).1) fun y hy => (hframe y k hk hy).2
  · -- a node of two rings would be in the changed one and in another
    by_cases hk : k = i <;> by_cases hk' : k' = i
    · rw [hk, hk']
    · subst hk
      rw [Function.update_self] at hy
      rw [Function.update_of_ne hk'] at hy'
      exact absurd hy (hapart y k' hk' hy')
    · subst hk'
      rw [Function.update_self] at hy'
      rw [Function.update_of_ne hk] at hy
      exact absurd hy' (hapart y k hk hy)
    · rw [Function.update_of_ne hk] at hy
      rw [Function.update_of_ne hk'] at hy'
      exact h.apart k k' y hy hy'

/-! ## The operations -/

variable [DecidableEq N]

def pthRingNext (l : Links (Option N)) (r : PthRing N) (rn : Option N) : Option N :=
  if l.next rn = r.hook then none else l.next rn

def pthRingAppend (l : Links (Option N)) (r : PthRing N) (rn : Option N) :
    Links (Option N) × PthRing N :=
  let nodes := Unsigned.incr r.nodes
  if r.hook = none then ((l.setNext rn rn).setPrev rn rn, ⟨rn, nodes⟩)
  else (l.insertBetween rn (l.prev r.hook) r.hook, ⟨r.hook, nodes⟩)

def pthRingDelete (l : Links (Option N)) (r : PthRing N) (rn : Option N) :
    Links (Option N) × PthRing N :=
  let nodes := Unsigned.decr r.nodes
  if r.hook = rn ∧ l.prev rn = rn ∧ l.next rn = rn then (l, ⟨none, nodes⟩)
  else
    (l.unlink (l.prev rn) (l.next rn), ⟨if r.hook = rn then l.next rn else r.hook, nodes⟩)

variable {l : Links (Option N)} {r : PthRing N} {xs ys : List N} {x : N}

/-- `pth_ring_append` on the list of nodes that a ring represents. -/
theorem pthRingAppend_ring (hr : RingOf l r xs) (hx : x ∉ xs) :
    RingOf (pthRingAppend l r (some x)).1 (pthRingAppend l r (some x)).2 (xs ++ [x]) := by
  have hnodes : Unsigned.incr r.nodes = (xs ++ [x]).length % Unsigned.range := by
    rw [hr.nodes, List.length_append, List.length_singleton, Unsigned.incr_mod]
  cases xs with
  | nil =>
    have hh : r.hook = none := hr.hook
    simp only [pthRingAppend, hh, if_true]
    refine ⟨rfl, hnodes, ?_⟩
    exact IsRing.empty_iff.mpr ⟨by simp, by simp⟩
  | cons z zs =>
    have hh : r.hook = some z := hr.hook
    have hc : IsRing l (some z) (zs.map some) := hr.closed
    have hne : some x ∉ some z :: zs.map some := by
      intro hm
      rw [← List.map_cons, List.mem_map] at hm
      obtain ⟨y, hy, hyx⟩ := hm
      exact hx (Option.some.inj hyx ▸ hy)
    simp only [pthRingAppend, hh, reduceCtorEq, if_false]
    refine ⟨rfl, hnodes, ?_⟩
    have happ := hc.insertTail hne
    simpa [Closed] using happ

/-- `pth_ring_delete` on the list of nodes that a ring represents. -/
theorem pthRingDelete_ring (hr : RingOf l r (xs ++ x :: ys)) :
    RingOf (pthRingDelete l r (some x)).1 (pthRingDelete l r (some x)).2 (xs ++ ys) := by
  have hnodes : Unsigned.decr r.nodes = (xs ++ ys).length % Unsigned.range := by
    rw [hr.nodes, Unsigned.decr_mod (by simp; omega)]
    simp [← Nat.add_assoc]
  have hnd := hr.nodup
  cases xs with
  | nil =>
    have hh : r.hook = some x := hr.hook
    have hc : IsRing l (some x) (ys.map some) := hr.closed
    cases ys with
    | nil =>
      obtain ⟨hn, hp⟩ := IsRing.empty_iff.mp hc
      simp only [pthRingDelete, hh, hn, hp, and_self, if_true]
      exact ⟨rfl, hnodes, trivial⟩
    | cons y ys =>
      -- the hook itself leaves: its successor becomes the anchor
      have hn : l.next (some x) = some y := hc.next_head_cons
      have hxy : y ≠ x := by
        rintro rfl
        simp at hnd
      have hrot : IsRing l (some y) (ys.map some ++ some x :: []) := hc.rotate
      have hun := hrot.unlink
      rw [hn, List.append_nil] at hun
      simp only [pthRingDelete, hh, hn, Option.some.injEq, hxy, and_false, if_false, if_true]
      exact ⟨rfl, hnodes, hun⟩
  | cons z zs =>
    have hh : r.hook = some z := hr.hook
    have hzx : z ≠ x := by
      rintro rfl
      simp at hnd
    have hc : IsRing l (some z) (zs.map some ++ some x :: ys.map some) := by
      have hcl := hr.closed
      simpa [Closed] using hcl
    have hcond : ¬ (some z = some x ∧ l.prev (some x) = some x ∧ l.next (some x) = some x) := by
      simp [hzx]
    simp only [pthRingDelete, hh, if_neg hcond]
    rw [if_neg (by simpa using hzx)]
    refine ⟨rfl, hnodes, ?_⟩
    have hun := hc.unlink
    simpa [Closed] using hun

theorem pthRingAppend_frame (hr : RingOf l r xs) {y : N} (hyx : y ≠ x) (hy : y ∉ xs) :
    (pthRingAppend l r (some x)).1.next (some y) = l.next (some y) ∧
      (pthRingAppend l r (some x)).1.prev (some y) = l.prev (some y) := by
  unfold pthRingAppend
  split
  · simp [hyx]
  next hh =>
    cases xs with
    | nil => exact absurd hr.hook hh
    | cons z zs =>
      have hz : r.hook = some z := hr.hook
      obtain ⟨-, w, hw, hprev⟩ := hr.neighbours List.mem_cons_self
      have hyw : y ≠ w := fun h => hy (h ▸ hw)
      have hyz : y ≠ z := fun h => hy (h ▸ List.mem_cons_self)
      simp [Links.insertBetween_next, Links.insertBetween_prev, hz, hprev, hyw, hyz, hyx]

theorem pthRingDelete_frame (hr : RingOf l r xs) (hx : x ∈ xs) {y : N} (hy : y ∉ xs) :
    (pthRingDelete l r (some x)).1.next (some y) = l.next (some y) ∧
      (pthRingDelete l r (some x)).1.prev (some y) = l.prev (some y) := by
  obtain ⟨⟨n, hn, hnext⟩, ⟨p, hp, hprev⟩⟩ := hr.neighbours hx
  have hyn : y ≠ n := fun h => hy (h ▸ hn)
  have hyp : y ≠ p := fun h => hy (h ▸ hp)
  unfold pthRingDelete
  split
  · exact ⟨rfl, rfl⟩
  · simp [Links.unlink_next, Links.unlink_prev, hnext, hprev, hyn, hyp]

/-- What the walk over a ring finds after it has deleted the first node. -/
theorem pthRingNext_hook (hr : RingOf l r (x :: ys)) :
    pthRingNext (pthRingDelete l r (some x)).1 (pthRingDelete l r (some x)).2 (some x) =
      if ys = [] then some x else none := by
  have hh : r.hook = some x := hr.hook
  have hc : IsRing l (some x) (ys.map some) := hr.closed
  cases ys with
  | nil =>
    obtain ⟨hn, hp⟩ := IsRing.empty_iff.mp hc
    simp [pthRingNext, pthRingDelete, hh, hn, hp]
  | cons y ys =>
    have hn : l.next (some x) = some y := hc.next_head_cons
    have hnd := hr.nodup
    have hxy : y ≠ x := by
      rintro rfl
      simp at hnd
    have hprev : l.prev (some x) ≠ some x := by
      intro hp
      obtain ⟨ps, q, hq⟩ := List.eq_nil_or_concat (y :: ys) |>.resolve_left (by simp)
      rw [List.concat_eq_append] at hq
      have hqx : q ≠ x := by
        rintro rfl
        rw [hq] at hnd
        simp at hnd
      rw [hq, List.map_append] at hc
      rw [hc.prev_head_concat] at hp
      exact hqx (Option.some.inj hp)
    -- the deleted node still points at its successor, which is the new hook
    simp [pthRingNext, pthRingDelete, hh, hn, hxy, Links.unlink_next, Ne.symm hprev]

end Ngpt.Sync
