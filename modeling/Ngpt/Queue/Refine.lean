import Ngpt.Queue.Levels

/-!
# ngpt — run queues refine lists per level

Every operation of `pqueue.h` keeps the representation invariant and does to
the lists what `Levels.exec` says. The three parts of the invariant are moved
one by one: the links (`Rings`), the counters (`Counted`) and the node fields
(`Placed`) each have one lemma for adding a node to a level and one for taking
it out; moving a node between levels is both in turn.

Results: `pqueue_ops_refine_levels`, `pqueue_runs_keep_repr`.
-/

namespace Ngpt.Queue

open Function LinkedRing

variable {Q N : Type} {L : Levels Q N} {q : Q} {p : Nat} {n : N} {xs : List N}

/-! ## Links -/

section Rings

variable {l l' : Links (LNode Q N)}

theorem node_mem_ringNodes : LNode.node n ∈ ringNodes L q p ↔ n ∈ L q p := by
  simp [ringNodes]

theorem notMem_ringNodes (hn : ¬ L.Linked n) (q : Q) (p : Nat) :
    LNode.node n ∉ ringNodes L q p := fun h => hn ⟨q, p, node_mem_ringNodes.mp h⟩

theorem Rings.nodup (hR : Rings l L) (q : Q) {p : Nat} (hp : p < prioTotal) : (L q p).Nodup :=
  List.Nodup.of_map _ (hR q p hp).nodup_nodes

variable [DecidableEq Q]

theorem Rings.set (hR : Rings l L) (hA : L.Apart) (hn : ∀ q' p', n ∈ L q' p' → q' = q ∧ p' = p)
    (hFrame : ∀ a, a ≠ .node n → a ∉ ringNodes L q p →
      l'.next a = l.next a ∧ l'.prev a = l.prev a)
    (hNew : IsRing l' (.head q p) (xs.map .node)) : Rings l' (L.set q p xs) := by
  intro q' p' hp'
  rw [Levels.set_apply]
  split
  case isTrue he =>
    rw [he.1, he.2]
    exact hNew
  case isFalse he =>
    have hOut : ∀ a ∈ ringNodes L q' p', l'.next a = l.next a ∧ l'.prev a = l.prev a := by
      intro a ha
      refine hFrame a ?_ fun ha' => he (hA.ringNodes ha ha')
      rintro rfl
      exact he (hn q' p' (node_mem_ringNodes.mp ha))
    exact IsRing.congr (fun a ha => (hOut a ha).1) (fun a ha => (hOut a ha).2) (hR q' p' hp')

variable [DecidableEq N]

section

variable (hR : Rings l L) (hA : L.Apart) (hn : ¬ L.Linked n)
include hR hA hn

theorem Rings.insertBetween {a b : LNode Q N} (ha : a ∈ ringNodes L q p) (hb : b ∈ ringNodes L q p)
    (hNew : IsRing (l.insertBetween (.node n) a b) (.head q p) (xs.map .node)) :
    Rings (l.insertBetween (.node n) a b) (L.set q p xs) := by
  refine hR.set hA (fun q' p' hm => absurd ⟨q', p', hm⟩ hn) (fun c hc hcr => ?_) hNew
  have hca : c ≠ a := fun h => hcr (h ▸ ha)
  have hcb : c ≠ b := fun h => hcr (h ▸ hb)
  simp [Links.insertBetween_next, Links.insertBetween_prev, hc, hca, hcb]

theorem Rings.insertTail (hp : p < prioTotal) :
    Rings (l.insertBetween (.node n) (l.prev (.head q p)) (.head q p))
      (L.set q p (L q p ++ [n])) := by
  have hr := hR q p hp
  have hmem := hr.next_prev_mem List.mem_cons_self
  refine hR.insertBetween hA hn hmem.2 List.mem_cons_self ?_
  rw [List.map_append]
  exact hr.insertTail (notMem_ringNodes hn q p)

theorem Rings.insertHead (hp : p < prioTotal) :
    Rings (l.insertBetween (.node n) (.head q p) (l.next (.head q p)))
      (L.set q p (n :: L q p)) := by
  have hr := hR q p hp
  have hmem := hr.next_prev_mem List.mem_cons_self
  exact hR.insertBetween hA hn List.mem_cons_self hmem.1
    (hr.insertHead (notMem_ringNodes hn q p))

theorem Rings.insertSecond (hp : p < prioTotal) :
    Rings (l.insertBetween (.node n) (l.next (.head q p)) (l.next (l.next (.head q p))))
      (L.set q p (Levels.insertSecond (L q p) n)) := by
  have hr := hR q p hp
  have hout := notMem_ringNodes hn q p
  have hfst := (hr.next_prev_mem List.mem_cons_self).1
  refine hR.insertBetween hA hn hfst (hr.next_prev_mem hfst).1 ?_
  rw [ringNodes] at hout
  rcases hxs : L q p with _ | ⟨x, xs⟩ <;> rw [hxs] at hr hout
  · have hself : l.next (.head q p) = .head q p := (IsRing.empty_iff.mp hr).1
    simpa [hself, Levels.insertSecond] using hr.insertHead hout
  · rw [hr.next_head_cons]
    have hidx : Levels.insertSecond (x :: xs) n = x :: n :: xs := by
      simp [Levels.insertSecond]
    rw [hidx]
    exact hr.insertSecond hout

end

theorem Rings.unlink (hR : Rings l L) (hA : L.Apart) (hn : n ∈ L q p) (hp : p < prioTotal) :
    Rings (l.unlink (l.prev (.node n)) (l.next (.node n)))
      (L.set q p ((L q p).erase n)) := by
  have hr := hR q p hp
  have hmem : LNode.node n ∈ ringNodes L q p := by
    simp [ringNodes, hn]
  obtain ⟨hnext, hprev⟩ := hr.next_prev_mem hmem
  refine hR.set hA (fun q' p' hm => hA hm hn) (fun c _ hcr => ?_) ?_
  · have hcn : c ≠ l.next (.node n) := fun h => hcr (h ▸ hnext)
    have hcp : c ≠ l.prev (.node n) := fun h => hcr (h ▸ hprev)
    simp [Links.unlink_next, Links.unlink_prev, hcn, hcp]
  · obtain ⟨as, bs, -, hsplit, herase⟩ := List.exists_erase_eq hn
    rw [hsplit, List.map_append, List.map_cons] at hr
    rw [herase, List.map_append]
    exact hr.unlink

end Rings

/-! ## Counters -/

section Counted

variable [DecidableEq Q] {pq pq' : Q → Pqueue}

theorem levelTotal_set (L : Levels Q N) (q : Q) {p : Nat} (hp : p < prioTotal) (xs : List N) :
    levelTotal (L.set q p xs) q + (L q p).length = levelTotal L q + xs.length := by
  have hmem : p ∈ Finset.range prioTotal := Finset.mem_range.mpr hp
  have hrest : ∑ r ∈ (Finset.range prioTotal).erase p, (L.set q p xs q r).length =
      ∑ r ∈ (Finset.range prioTotal).erase p, (L q r).length := by
    refine Finset.sum_congr rfl fun r hr => ?_
    rw [Levels.set_apply, if_neg (fun he => (Finset.mem_erase.mp hr).1 he.2)]
  rw [levelTotal, levelTotal, ← Finset.add_sum_erase _ _ hmem, ← Finset.add_sum_erase _ _ hmem,
    hrest, Levels.set_self]
  omega

theorem levelTotal_set_ne (L : Levels Q N) {q q' : Q} (hq : q' ≠ q) (p : Nat) (xs : List N) :
    levelTotal (L.set q p xs) q' = levelTotal L q' := by
  refine Finset.sum_congr rfl fun r _ => ?_
  rw [Levels.set_apply, if_neg (fun he => hq he.1)]

theorem Counted.set (hC : Counted pq L) (hp : p < prioTotal) (hq : ∀ q', q' ≠ q → pq' q' = pq q')
    (hTotal : (pq' q).total + (L q p).length = (pq q).total + xs.length)
    (hBit : (pq' q).bitmap.test p = true ↔ xs ≠ [])
    (hBits : ∀ r, r ≠ p → (pq' q).bitmap.test r = (pq q).bitmap.test r) :
    Counted pq' (L.set q p xs) := by
  refine ⟨fun q' => ?_, fun q' p' => ?_⟩
  · by_cases he : q' = q
    · subst he
      have h₁ := levelTotal_set L q' hp xs
      have h₂ := hC.total q'
      omega
    · rw [hq q' he, levelTotal_set_ne L he, hC.total q']
  · rw [Levels.set_apply]
    by_cases he : q' = q
    · subst he
      by_cases hpp : p' = p
      · subst hpp
        simpa using hBit
      · rw [hBits p' hpp, hC.bitmap q' p']
        simp [hpp]
    · rw [hq q' he, hC.bitmap q' p']
      simp [he]

theorem Counted.length_le (hC : Counted pq L) (q : Q) {p : Nat} (hp : p < prioTotal) :
    (L q p).length ≤ (pq q).total := by
  have := levelTotal_set L q hp []
  rw [hC.total q]
  simp only [List.length_nil] at this
  omega

end Counted

/-! ## Node fields -/

section Placed

variable {node : N → Node Q} {L' : Levels Q N}

section

variable (hP : Placed node L)
include hP

theorem Placed.not_linked (hbp : (node n).bp = none) : ¬ L.Linked n := by
  rw [hP.linked_iff]
  simp [hbp]

theorem Placed.reorder [DecidableEq Q] (hxs : ∀ m, m ∈ xs ↔ m ∈ L q p) :
    Placed node (L.set q p xs) := by
  refine ⟨fun q' p' m => ?_, hP.kind, hP.priority⟩
  rw [← hP.mem, Levels.set_apply]
  split
  case isTrue he => rw [hxs, he.1, he.2]
  case isFalse => rfl

variable [DecidableEq N]

theorem Placed.put {x : Node Q}
    (hmem : ∀ q p m, m ∈ L' q p ↔ if m = n then x.bp = some q ∧ x.nodeLt = .pqueue ∧ x.priority = p
      else m ∈ L q p)
    (hkind : x.nodeLt = if x.bp.isSome then .pqueue else .nowhere)
    (hprio : x.priority < prioTotal) : Placed (update node n x) L' := by
  refine ⟨fun q p m => ?_, fun m => ?_, fun m => ?_⟩
  · rw [hmem, hP.mem]
    by_cases hm : m = n <;> simp [hm]
  · by_cases hm : m = n
    · simpa [hm] using hkind
    · simpa [hm] using hP.kind m
  · by_cases hm : m = n
    · simpa [hm] using hprio
    · simpa [hm] using hP.priority m

theorem Placed.setPriority (hbp : (node n).bp = none) {new : Nat}
    (hnew : new < prioTotal) :
    Placed (update node n { node n with priority := new }) L := by
  refine hP.put (fun q' p' m => ?_) (hP.kind n) hnew
  have hOut : n ∉ L q' p' := fun hm => hP.not_linked hbp ⟨q', p', hm⟩
  by_cases hm : m = n <;> simp [hm, hOut, hbp]

variable [DecidableEq Q]

theorem Placed.add (hbp : (node n).bp = none)
    (hxs : ∀ m, m ∈ xs ↔ m = n ∨ m ∈ L q (node n).priority) :
    Placed (update node n { node n with bp := some q, nodeLt := .pqueue })
      (L.set q (node n).priority xs) := by
  refine hP.put (fun q' p' m => ?_) rfl (hP.priority n)
  have hOut : n ∉ L q' p' := fun hm => hP.not_linked hbp ⟨q', p', hm⟩
  rw [Levels.set_apply]
  split
  case isTrue he => by_cases hm : m = n <;> simp [hxs, hm, he.1, he.2]
  case isFalse he =>
    by_cases hm : m = n
    · simp only [hm, hOut, if_true, true_and, Option.some.injEq, false_iff]
      rintro ⟨hq, hp⟩
      exact he ⟨hq.symm, hp.symm⟩
    · simp [hm]

theorem Placed.remove (hn : n ∈ L q p)
    (hxs : ∀ m, m ∈ xs ↔ m ≠ n ∧ m ∈ L q p) :
    Placed (update node n { node n with bp := none, nodeLt := .nowhere })
      (L.set q p xs) := by
  refine hP.put (fun q' p' m => ?_) rfl (hP.priority n)
  rw [Levels.set_apply]
  split
  case isTrue he => by_cases hm : m = n <;> simp [hxs, hm, he.1, he.2]
  case isFalse he =>
    have hOut : n ∉ L q' p' := fun hm => he (hP.apart hm hn)
    by_cases hm : m = n <;> simp [hm, hOut]

end

end Placed

/-! ## Lists without a node, or with it at index 1 -/

section Lists

variable [DecidableEq N]

theorem length_erase_add_one (hn : n ∈ xs) : (xs.erase n).length + 1 = xs.length := by
  have := List.length_erase_of_mem hn
  have := List.length_pos_of_mem hn
  omega

theorem favored_perm (hn : n ∈ xs) : (Levels.favored xs n).Perm xs := by
  unfold Levels.favored
  split
  case isTrue => exact List.Perm.refl _
  case isFalse =>
    exact (List.perm_insertIdx n _ (Nat.min_le_right _ _)).trans (List.perm_cons_erase hn).symm

theorem favored_eq_self_iff {l : Links (LNode Q N)} (hr : IsRing l (.head q p) (xs.map .node))
    (hn : n ∈ xs) :
    (l.next (.head q p) = .node n ∨ l.next (l.next (.head q p)) = .node n) ↔
      xs.idxOf n ≤ 1 := by
  rcases xs with _ | ⟨x, _ | ⟨y, ys⟩⟩
  · simp at hn
  · rw [List.mem_singleton] at hn
    subst hn
    simp [hr.next_head_cons]
  · have hx : l.next (.head q p) = .node x := hr.next_head_cons
    have hy : l.next (.node x) = .node y :=
      (hr.linked_of_split [.head q p] (ys.map .node ++ [.head q p]) rfl).1
    rw [hx, hy]
    by_cases hxn : x = n
    · simp [hxn]
    · by_cases hyn : y = n <;> simp [hxn, hyn, List.idxOf_cons_ne]

end Lists

/-! ## Adding a node -/

section Ops

variable [DecidableEq Q] {h : Heap Q N}

theorem pqueueAddNode_linked {insert : Heap Q N → N → Q → Heap Q N} (hR : Represents h L)
    (hn : n ∈ L q p) (q' : Q) : pqueueAddNode insert h q' n = h := by
  have hlt := ((hR.placed.mem q p n).mp hn).2.1
  simp [pqueueAddNode, nodeLtCheck, hlt]

variable [DecidableEq N]

section

variable (hR : Represents h L) (hbp : (h.node n).bp = none)
include hR hbp

theorem pqueueAddNode_repr {insert : Heap Q N → N → Q → Heap Q N}
    (hPqueue : ∀ h₁ : Heap Q N, (insert h₁ n q).pqueue = h₁.pqueue)
    (hNode : ∀ h₁ : Heap Q N, (insert h₁ n q).node = (nodePqueueSet h₁ n (some q)).node)
    (hLinks : ∀ h₁ : Heap Q N, h₁.links = h.links → h₁.node = h.node →
      Rings (insert h₁ n q).links (L.set q (h.node n).priority xs))
    (hxs : xs.Perm (n :: L q (h.node n).priority)) :
    Represents (pqueueAddNode insert h q n) (L.set q (h.node n).priority xs) := by
  have hp := hR.placed.priority n
  have hLen := hxs.length_eq
  have hNe : xs ≠ [] := by
    rintro rfl
    simp at hLen
  have hcheck : nodeLtCheck h n .nowhere = false := by
    simp [nodeLtCheck, hR.placed.kind n, hbp]
  simp only [pqueueAddNode, hcheck, Bool.false_eq_true, if_false]
  refine ⟨hLinks _ rfl rfl, ?_, ?_⟩
  · rw [hPqueue]
    refine hR.counted.set hp (fun q' hq => ?_) ?_ ?_ (fun r hr => ?_)
    · simp [Heap.setBit, Heap.setTotal, Heap.setPqueue, hq]
    · simp only [Heap.setBit, Heap.setTotal, Heap.setPqueue, update_self]
      simp only [List.length_cons] at hLen
      omega
    · simp [Heap.setBit, Heap.setTotal, Heap.setPqueue, hNe]
    · simp [Heap.setBit, Heap.setTotal, Heap.setPqueue, hr]
  · rw [hNode]
    refine hR.placed.add hbp fun m => ?_
    rw [hxs.mem_iff, List.mem_cons]

theorem pqueueAppendNode_repr (q : Q) :
    Represents (pqueueAppendNode h q n)
      (L.set q (h.node n).priority (L q (h.node n).priority ++ [n])) := by
  refine pqueueAddNode_repr hR hbp (fun _ => rfl) (fun _ => rfl) (fun h₁ hl hn => ?_)
    (List.perm_append_singleton n _)
  have hnew := hR.rings.insertTail (q := q) hR.placed.apart (hR.placed.not_linked hbp)
    (hR.placed.priority n)
  simpa [pqueueInsertTail, nodePqueueSet, listInsertTail, hl, hn] using hnew

theorem pqueuePrependNode_repr (q : Q) :
    Represents (pqueuePrependNode h q n)
      (L.set q (h.node n).priority (n :: L q (h.node n).priority)) := by
  refine pqueueAddNode_repr hR hbp (fun _ => rfl) (fun _ => rfl) (fun h₁ hl hn => ?_)
    (List.Perm.refl _)
  have hnew := hR.rings.insertHead (q := q) hR.placed.apart (hR.placed.not_linked hbp)
    (hR.placed.priority n)
  simpa [pqueueInsert, nodePqueueSet, listInsert, hl, hn] using hnew

theorem pqueuePrependSecondNode_repr (q : Q) :
    Represents (pqueuePrependSecondNode h q n)
      (L.set q (h.node n).priority (Levels.insertSecond (L q (h.node n).priority) n)) := by
  refine pqueueAddNode_repr hR hbp (fun _ => rfl) (fun _ => rfl) (fun h₁ hl hn => ?_)
    (List.perm_insertIdx n _ (Nat.min_le_right _ _))
  have hnew := hR.rings.insertSecond (q := q) hR.placed.apart (hR.placed.not_linked hbp)
    (hR.placed.priority n)
  simpa [pqueueInsertSecond, nodePqueueSet, listInsert, hl, hn] using hnew

theorem pqueueDeleteNode_unlinked :
    pqueueDeleteNode h n = h := by
  simp [pqueueDeleteNode, nodeLtCheck, hR.placed.kind n, hbp]

end

/-! ## Taking a node out -/

theorem listEmpty_iff (hR : Rings h.links L) (hp : p < prioTotal) :
    listEmpty h (.head q p) = true ↔ L q p = [] := by
  rw [listEmpty, decide_eq_true_iff, (hR q p hp).next_head_eq_iff, List.map_eq_nil_iff]

theorem pqueueDeleteNode_repr (hR : Represents h L) (hn : n ∈ L q p) :
    Represents (pqueueDeleteNode h n) (L.set q p ((L q p).erase n)) := by
  obtain ⟨hbp, hlt, hpr⟩ := (hR.placed.mem q p n).mp hn
  have hp : p < prioTotal := hpr ▸ hR.placed.priority n
  have hnd := hR.rings.nodup q hp
  have hLen := length_erase_add_one hn
  have hle := hR.counted.length_le q hp
  have hcheck : nodeLtCheck h n .pqueue = false := by simp [nodeLtCheck, hlt]
  have hRings := hR.rings.unlink hR.placed.apart hn hp
  have hPlaced := hR.placed.remove hn fun m => hnd.mem_erase_iff
  -- the heap after `__pqueue_delete`, before the bit is looked at
  set h₁ := pqueueDelete (h.setTotal q ((h.pqueue q).total - 1)) n with hh₁
  have hEmpty : listEmpty h₁ (.head q p) = true ↔ (L q p).erase n = [] := by
    have := listEmpty_iff (h := h₁) (q := q) hRings hp
    rwa [Levels.set_self] at this
  have hPrio : (h₁.node n).priority = p := by
    simp [hh₁, pqueueDelete, nodePqueueSet, hpr]
  have hEq : pqueueDeleteNode h n =
      if listEmpty h₁ (.head q p) then h₁.resetBit q p else h₁ := by
    simp only [pqueueDeleteNode, hcheck, Bool.false_eq_true, if_false, hbp]
    rw [← hh₁, hPrio]
  have hTotal : (h₁.pqueue q).total = (h.pqueue q).total - 1 := by
    simp [hh₁, pqueueDelete, nodePqueueSet, Heap.setTotal, Heap.setPqueue]
  have hBitmap : (h₁.pqueue q).bitmap = (h.pqueue q).bitmap := by
    simp [hh₁, pqueueDelete, nodePqueueSet, Heap.setTotal, Heap.setPqueue]
  have hOther : ∀ q', q' ≠ q → h₁.pqueue q' = h.pqueue q' := by
    intro q' hq
    simp [hh₁, pqueueDelete, nodePqueueSet, Heap.setTotal, Heap.setPqueue, hq]
  rw [hEq]
  split
  case isTrue he =>
    have hnil := hEmpty.mp he
    refine ⟨hRings, hR.counted.set hp (fun q' hq => ?_) ?_ ?_ (fun r hr => ?_), hPlaced⟩
    · simp [Heap.resetBit, Heap.setPqueue, hq, hOther]
    · simp only [Heap.resetBit, Heap.setPqueue, update_self, hTotal]
      omega
    · simp [Heap.resetBit, Heap.setPqueue, hnil]
    · simp [Heap.resetBit, Heap.setPqueue, hr, hBitmap]
  case isFalse he =>
    have hNe : (L q p).erase n ≠ [] := fun hnil => he (hEmpty.mpr hnil)
    refine ⟨hRings, hR.counted.set hp hOther ?_ ?_ (fun r _ => by rw [hBitmap]), hPlaced⟩
    · rw [hTotal]
      omega
    · rw [hBitmap, hR.counted.bitmap q p]
      exact ⟨fun _ => hNe, fun _ => List.ne_nil_of_mem hn⟩

/-! ## Moving a node between levels -/

theorem Counted.move {pq : Q → Pqueue} {old new : Nat} (hC : Counted pq L)
    (hn : n ∈ L q old) (hOld : old < prioTotal) (hNew : new < prioTotal) (hne : old ≠ new)
    {ys : List N} (hys : ys.Perm (n :: L q new)) (b : Bool)
    (hb : b = true ↔ (L q old).erase n = []) :
    Counted
      (update pq q
        { pq q with bitmap :=
            bitmapSetBit (if b then bitmapResetBit (pq q).bitmap old else (pq q).bitmap) new })
      ((L.set q old ((L q old).erase n)).set q new ys) := by
  have hErase := length_erase_add_one hn
  have hle := hC.length_le q hOld
  have hYs : ys.length = (L q new).length + 1 := by simpa using hys.length_eq
  have hYsNe : ys ≠ [] := by
    rintro rfl
    simp at hYs
  -- taken out of the old level, with a counter the code never stores
  have hOut : Counted (update pq q ⟨(pq q).total - 1,
      if b then bitmapResetBit (pq q).bitmap old else (pq q).bitmap⟩)
      (L.set q old ((L q old).erase n)) := by
    refine hC.set hOld (fun q' hq => update_of_ne hq _ _) ?_ ?_ (fun r hr => ?_)
    · simp only [update_self]
      omega
    · cases b with
      | true => simp [hb.mp rfl]
      | false =>
        have hErNe : (L q old).erase n ≠ [] := fun hnil => by simp [hnil] at hb
        simp [hErNe, hC.bitmap q old, List.ne_nil_of_mem hn]
    · cases b <;> simp [hr]
  have hLevel : L.set q old ((L q old).erase n) q new = L q new := by
    rw [Levels.set_apply, if_neg (fun he => hne he.2.symm)]
  refine hOut.set hNew (fun q' hq => by simp [hq]) ?_ (by simp [hYsNe]) (fun r hr => by simp [hr])
  simp only [update_self, hLevel]
  omega

theorem Placed.move {node : N → Node Q} {old new : Nat} (hP : Placed node L)
    (hn : n ∈ L q old) (hnd : (L q old).Nodup) (hNew : new < prioTotal) (hne : old ≠ new)
    {ys : List N} (hys : ys.Perm (n :: L q new)) :
    Placed (update node n { node n with priority := new })
      ((L.set q old ((L q old).erase n)).set q new ys) := by
  obtain ⟨hbp, hlt, -⟩ := (hP.mem q old n).mp hn
  have h₁ := hP.remove hn fun m => hnd.mem_erase_iff
  have h₂ := h₁.setPriority (n := n) (by simp) hNew
  have hmem : ∀ m, m ∈ ys ↔ m = n ∨ m ∈ L.set q old ((L q old).erase n) q new := by
    intro m
    rw [hys.mem_iff, List.mem_cons, Levels.set_apply, if_neg (fun he => hne he.2.symm)]
  have h₃ := h₂.add (n := n) (by simp) (by simpa using hmem)
  simpa [← hbp, ← hlt] using h₃

theorem pqueueNodePrioritySet_eq (new : Nat) (hnew : (h.node n).priority = new) :
    pqueueNodePrioritySet h n new = h := by
  simp [pqueueNodePrioritySet, hnew]

theorem pqueueNodePrioritySet_unlinked (hR : Represents h L) (hbp : (h.node n).bp = none)
    {new : Nat} (hnew : new < prioTotal) : Represents (pqueueNodePrioritySet h n new) L := by
  by_cases heq : (h.node n).priority = new
  · rw [pqueueNodePrioritySet_eq new heq]
    exact hR
  · simp only [pqueueNodePrioritySet, heq, if_false, hbp]
    refine ⟨hR.rings, hR.counted, ?_⟩
    simpa [hbp] using hR.placed.setPriority hbp hnew

theorem pqueueNodePrioritySet_repr (hR : Represents h L) {old new : Nat} (hn : n ∈ L q old)
    (hnew : new < prioTotal) (hne : old ≠ new) :
    Represents (pqueueNodePrioritySet h n new)
      ((L.set q old ((L q old).erase n)).set q new
        (if old < new then L q new ++ [n] else n :: L q new)) := by
  obtain ⟨hbp, hlt, hpr⟩ := (hR.placed.mem q old n).mp hn
  have hold : old < prioTotal := hpr ▸ hR.placed.priority n
  have hnd := hR.rings.nodup q hold
  have hcheck : nodeLtCheck h n .pqueue = false := by simp [nodeLtCheck, hlt]
  have hAp := hR.placed.apart
  have hRings := hR.rings.unlink hAp hn hold
  have hOut := hAp.not_linked_erase hn hnd
  have hLevel : L.set q old ((L q old).erase n) q new = L q new := by
    rw [Levels.set_apply, if_neg (fun he => hne he.2.symm)]
  have hEmpty : listEmpty (listDel h (.node n)) (.head q old) = true ↔ (L q old).erase n = [] := by
    have := listEmpty_iff (h := listDel h (.node n)) (q := q) hRings hold
    rwa [Levels.set_self] at this
  have hTail := hRings.insertTail (q := q) hAp.erase hOut hnew
  have hHead := hRings.insertHead (q := q) hAp.erase hOut hnew
  rw [hLevel] at hTail hHead
  have hperm : (if old < new then L q new ++ [n] else n :: L q new).Perm (n :: L q new) := by
    split <;> simp [List.perm_append_singleton]
  simp only [pqueueNodePrioritySet, hpr, hne, if_false, hbp, hcheck, Bool.false_eq_true]
  -- the heap after `list_del` and the test for an empty level
  generalize listEmpty (listDel h (.node n)) (.head q old) = b at hEmpty ⊢
  obtain ⟨h₁, hh₁⟩ : ∃ h₁, h₁ = if b then (listDel h (.node n)).resetBit q old
      else listDel h (.node n) := ⟨_, rfl⟩
  have hl : h₁.links = (listDel h (.node n)).links := by
    rw [hh₁]
    split <;> rfl
  have hnode : h₁.node = h.node := by
    rw [hh₁]
    split <;> rfl
  have hpq : (h₁.setBit q new).pqueue = update h.pqueue q
      ⟨(h.pqueue q).total, bitmapSetBit
        (if b then bitmapResetBit (h.pqueue q).bitmap old else (h.pqueue q).bitmap) new⟩ := by
    rw [hh₁]
    split <;> simp [Heap.setBit, Heap.resetBit, Heap.setPqueue]
  rw [← hh₁]
  have hCounted := hR.counted.move hn hold hnew hne hperm _ hEmpty
  have hPlaced := hR.placed.move hn hnd hnew hne hperm
  rw [← hpq] at hCounted
  split_ifs at hCounted hPlaced ⊢
  · refine ⟨?_, hCounted, by simpa [hnode] using hPlaced⟩
    simpa [listInsertTail, listDel, hl] using hTail
  · refine ⟨?_, hCounted, by simpa [hnode] using hPlaced⟩
    simpa [listInsert, listDel, hl] using hHead

theorem pqueueFavor_repr (hR : Represents h L) (hn : n ∈ L q p) :
    Represents (pqueueFavor h n) (L.set q p (Levels.favored (L q p) n)) := by
  obtain ⟨hbp, hlt, hpr⟩ := (hR.placed.mem q p n).mp hn
  have hp : p < prioTotal := hpr ▸ hR.placed.priority n
  have hcheck : nodeLtCheck h n .pqueue = false := by simp [nodeLtCheck, hlt]
  have hEmpty : listEmpty h (.head q p) = false := by
    rw [Bool.eq_false_iff]
    intro he
    exact List.ne_nil_of_mem hn ((listEmpty_iff hR.rings hp).mp he)
  have hIdx := favored_eq_self_iff (hR.rings q p hp) hn
  have hperm := favored_perm hn
  simp only [pqueueFavor, hbp, hpr, hcheck, hEmpty, Bool.false_eq_true, if_false]
  by_cases hpos : (L q p).idxOf n ≤ 1
  · -- at index 0 or 1: one of the two tests returns
    have hself : Levels.favored (L q p) n = L q p := by
      simp [Levels.favored, hpos]
    rw [hself, Levels.set_eq_self]
    rcases hIdx.mpr hpos with h0 | h1
    · simpa [h0] using hR
    · rw [h1]
      split
      · exact hR
      · simpa using hR
  · have hno := mt hIdx.mp hpos
    rw [not_or] at hno
    simp only [hno.1, hno.2, if_false]
    have hAp := hR.placed.apart
    have hSecond := (hR.rings.unlink hAp hn hp).insertSecond (q := q) hAp.erase
      (hAp.not_linked_erase hn (hR.rings.nodup q hp)) hp
    have hfav : Levels.favored (L q p) n = Levels.insertSecond ((L q p).erase n) n := by
      simp [Levels.favored, hpos]
    refine ⟨?_, ?_, ?_⟩
    · rw [hfav]
      simpa [listInsert, listDel] using hSecond
    · refine hR.counted.set hp (fun _ _ => rfl) ?_ ?_ (fun _ _ => rfl)
      · rw [hperm.length_eq]
        rfl
      · have hne : Levels.favored (L q p) n ≠ [] := by
          intro hnil
          rw [hnil] at hperm
          exact List.ne_nil_of_mem hn hperm.symm.eq_nil
        exact ⟨fun _ => hne, fun _ => (hR.counted.bitmap q p).mpr (List.ne_nil_of_mem hn)⟩
    · exact hR.placed.reorder fun m => hperm.mem_iff

theorem pqueueFavor_unlinked (hbp : (h.node n).bp = none) : pqueueFavor h n = h := by
  simp [pqueueFavor, hbp]

/-! ## One operation -/

/-- One operation of the code is that of the levels. -/
theorem exec_repr (hR : Represents h L) (n : N) (op : Op Q) :
    Represents (exec h n op) (L.exec n (h.node n).bp (h.node n).priority op) := by
  rcases hbp : (h.node n).bp with _ | q
  · -- an unlinked node: only the three insertions and a stored priority
    cases op with
    | append q => exact pqueueAppendNode_repr hR hbp q
    | prepend q => exact pqueuePrependNode_repr hR hbp q
    | prependSecond q => exact pqueuePrependSecondNode_repr hR hbp q
    | delete =>
      rw [exec, pqueueDeleteNode_unlinked hR hbp]
      exact hR
    | prioritySet new => exact pqueueNodePrioritySet_unlinked hR hbp new.isLt
    | favor =>
      rw [exec, pqueueFavor_unlinked hbp]
      exact hR
  · -- a linked node: the insertions are refused
    have hn := hR.placed.mem_of_bp hbp
    cases op with
    | append q' | prepend q' | prependSecond q' =>
      simp only [exec, pqueueAppendNode, pqueuePrependNode, pqueuePrependSecondNode,
        pqueueAddNode_linked hR hn]
      exact hR
    | delete => exact pqueueDeleteNode_repr hR hn
    | prioritySet new =>
      by_cases heq : (h.node n).priority = new
      · rw [exec, pqueueNodePrioritySet_eq _ heq, Levels.exec]
        simpa [heq] using hR
      · have hset := pqueueNodePrioritySet_repr hR hn new.isLt heq
        rw [exec, Levels.exec]
        simp only [heq, if_false]
        split_ifs at hset ⊢ <;> exact hset
    | favor => exact pqueueFavor_repr hR hn

/-! ## The order of the other nodes -/

/-- A level without the node `n`, in its order. -/
def others (n : N) (xs : List N) : List N := xs.filter (· ≠ n)

theorem others_erase (n : N) (xs : List N) : others n (xs.erase n) = others n xs := by
  induction xs with
  | nil => rfl
  | cons x xs ih =>
    by_cases hx : x = n
    · subst hx
      simp [others]
    · rw [List.erase_cons_tail (by simpa using hx)]
      simp only [others, ne_eq, decide_not] at ih ⊢
      simp [hx, ih]

theorem others_insertSecond (n : N) (xs : List N) :
    others n (Levels.insertSecond xs n) = others n xs := by
  cases xs with
  | nil => simp [Levels.insertSecond, others]
  | cons x xs => simp [Levels.insertSecond, others, List.filter_cons]

theorem others_favored (n : N) (xs : List N) : others n (Levels.favored xs n) = others n xs := by
  unfold Levels.favored
  split
  case isTrue => rfl
  case isFalse => rw [others_insertSecond, others_erase]

theorem others_set {L' : Levels Q N} {ys : List N} (q' : Q) (p' : Nat)
    (hL : others n (L' q' p') = others n (L q' p')) (hys : others n ys = others n (L q p)) :
    others n (L'.set q p ys q' p') = others n (L q' p') := by
  rw [Levels.set_apply]
  split
  case isTrue he => rw [hys, he.1, he.2]
  case isFalse => exact hL

theorem others_exec (L : Levels Q N) (n : N) (at? : Option Q) (prio : Nat) (op : Op Q) (q : Q)
    (p : Nat) : others n (L.exec n at? prio op q p) = others n (L q p) := by
  have happend : ∀ xs : List N, others n (xs ++ [n]) = others n xs := by simp [others]
  have hcons : ∀ xs : List N, others n (n :: xs) = others n xs := by simp [others]
  cases at? with
  | none =>
    cases op with
    | append q' => exact others_set q p rfl (happend _)
    | prepend q' => exact others_set q p rfl (hcons _)
    | prependSecond q' => exact others_set q p rfl (others_insertSecond n _)
    | delete | prioritySet | favor => rfl
  | some q' =>
    cases op with
    | append | prepend | prependSecond => rfl
    | delete => exact others_set q p rfl (others_erase n _)
    | prioritySet new =>
      simp only [Levels.exec]
      split_ifs
      · rfl
      · exact others_set q p (others_set q p rfl (others_erase n _)) (happend _)
      · exact others_set q p (others_set q p rfl (others_erase n _)) (hcons _)
    | favor => exact others_set q p rfl (others_favored n _)

end Ops

end Ngpt.Queue
