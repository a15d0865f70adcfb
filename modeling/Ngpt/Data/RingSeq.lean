import Ngpt.Data.MsgPort

/-!
# ngpt — rings as sequences (`pth_ring.c`)

The remaining operations on a ring: taking the last node off, linking a node in next to
another one, the walk in both directions and the search. Any number of rings share one heap
of links, and a node is in one of them at most.

`pth_ring_prepend` is not among them: it stores the hook before it reads it.

Result: `rings_are_sequences`.
-/

namespace Ngpt.Sync

open Function LinkedRing WordMemory

variable {N : Type} {l l' : Links (Option N)} {r : PthRing N} {xs as bs : List N} {x y : N}

/-- `sizeof (pth_ringnode_t)`: two pointers. -/
def ringnodeSize : Nat := 8

def pthRingLast (l : Links (Option N)) (r : PthRing N) : Option N :=
  if r.hook = none then none else l.prev r.hook

/-! ## Reading a ring -/

/-- A ring may be read from any of its nodes. -/
theorem closed_comm {ps qs : List (Option N)} (h : Closed l (ps ++ qs)) :
    Closed l (qs ++ ps) := by
  cases ps with
  | nil => simpa using h
  | cons p ps =>
    cases qs with
    | nil => simpa using h
    | cons q qs =>
      have hring : IsRing l p (ps ++ q :: qs) := h
      exact hring.rotateTo

namespace RingOf

theorem around (hr : RingOf l r (as ++ x :: bs)) : IsRing l (some x) ((bs ++ as).map some) := by
  have hcl := hr.closed
  rw [List.map_append] at hcl
  have hrot := closed_comm hcl
  rw [← List.map_append] at hrot
  exact hrot

theorem next_cons (hr : RingOf l r (as ++ x :: y :: bs)) : l.next (some x) = some y := by
  have har := hr.around
  exact har.next_head_cons

theorem next_last (hr : RingOf l r (as ++ [x])) : l.next (some x) = r.hook := by
  have har := hr.around
  rw [hr.hook]
  cases as with
  | nil => exact (IsRing.empty_iff.mp har).1
  | cons a as => exact har.next_head_cons

theorem prev_concat (hr : RingOf l r (as ++ [y] ++ x :: bs)) : l.prev (some x) = some y := by
  have har := hr.around
  rw [← List.append_assoc, List.map_append] at har
  exact har.prev_head_concat

theorem prev_hook (hr : RingOf l r (as ++ [x])) : l.prev r.hook = some x := by
  rw [hr.hook]
  cases as with
  | nil => exact (IsRing.empty_iff.mp hr.closed).2
  | cons a as =>
    have hcl : IsRing l (some a) ((as ++ [x]).map some) := hr.closed
    rw [List.map_append] at hcl
    exact hcl.prev_head_concat

theorem notMem_left (hr : RingOf l r (as ++ x :: bs)) : x ∉ as := by
  intro hx
  exact (List.nodup_append.mp hr.nodup).2.2 x hx x List.mem_cons_self rfl

theorem hook_eq_none_iff (hr : RingOf l r xs) : r.hook = none ↔ xs = [] := by
  rw [hr.hook, List.head?_eq_none_iff]

theorem ne_hook (hr : RingOf l r (as ++ x :: y :: bs)) : some y ≠ r.hook := by
  have hnd := hr.nodup
  rw [hr.hook]
  cases as with
  | nil =>
    simp at hnd
    simpa using Ne.symm hnd.1.1
  | cons a as =>
    simp at hnd
    simpa using Ne.symm hnd.1.2.2.1

theorem pthRingLast_eq (hr : RingOf l r xs) : pthRingLast l r = xs.getLast? := by
  unfold pthRingLast
  rcases List.eq_nil_or_concat xs with rfl | ⟨as, x, rfl⟩
  · rw [if_pos (hr.hook_eq_none_iff.mpr rfl), List.getLast?_nil]
  · rw [List.concat_eq_append] at hr ⊢
    rw [if_neg (fun h => by simpa using hr.hook_eq_none_iff.mp h), hr.prev_hook]
    simp

theorem nodes_eq (hr : RingOf l r xs) (A : Placement N Unsigned.range ringnodeSize) :
    r.nodes = xs.length := by
  have hmul : xs.length * ringnodeSize ≤ Unsigned.range := A.length_mul_le (by decide) hr.nodup
  have hpos : 0 < Unsigned.range := Nat.zero_lt_of_lt Unsigned.one_lt_range
  unfold ringnodeSize at hmul
  rw [hr.nodes]
  exact Nat.mod_eq_of_lt (by omega)

theorem prev_ne (hr : RingOf l r xs) (hy : y ∈ xs) (hx : x ∉ xs) :
    l.prev (some y) ≠ some x := by
  obtain ⟨-, w, hw, hprev⟩ := hr.neighbours hy
  rw [hprev]
  intro hwx
  exact hx (Option.some.inj hwx ▸ hw)

end RingOf

variable [DecidableEq N]

def pthRingPrev (l : Links (Option N)) (r : PthRing N) (rn : Option N) : Option N :=
  if l.prev rn = l.prev r.hook then none else l.prev rn

def pthRingInsertAfter (l : Links (Option N)) (r : PthRing N) (rn1 rn2 : Option N) :
    Links (Option N) × PthRing N :=
  let l := l.setPrev rn2 rn1
  let l := l.setNext rn2 (l.next rn1)
  let l := l.setNext (l.prev rn2) rn2
  let l := l.setPrev (l.next rn2) rn2
  (l, { r with nodes := Unsigned.incr r.nodes })

def pthRingInsertBefore (l : Links (Option N)) (r : PthRing N) (rn1 rn2 : Option N) :
    Links (Option N) × PthRing N :=
  let l := l.setNext rn2 rn1
  let l := l.setPrev rn2 (l.prev rn1)
  let l := l.setNext (l.prev rn2) rn2
  let l := l.setPrev (l.next rn2) rn2
  (l, { r with nodes := Unsigned.incr r.nodes })

def pthRingDequeue (l : Links (Option N)) (r : PthRing N) :
    Option N × Links (Option N) × PthRing N :=
  match pthRingLast l r with
  | none => (none, l, r)
  | some rn => (some rn, pthRingDelete l r (some rn))

/-- The loop of `pth_ring_contains`; `none` if it has not ended within `fuel` rounds. -/
def containsFrom (l : Links (Option N)) (r : PthRing N) (rns : Option N) :
    Nat → Option N → Option Bool
  | 0, _ => none
  | fuel + 1, rn =>
    if rn = rns then some true
    else if l.next rn = r.hook then some false
    else containsFrom l r rns fuel (l.next rn)

def pthRingContains (l : Links (Option N)) (r : PthRing N) (fuel : Nat) (rns : Option N) :
    Option Bool :=
  if r.hook = none then some false else containsFrom l r rns fuel r.hook

namespace RingOf

theorem pthRingNext_eq (hr : RingOf l r (as ++ x :: bs)) :
    pthRingNext l r (some x) = bs.head? := by
  unfold pthRingNext
  cases bs with
  | nil => rw [if_pos hr.next_last, List.head?_nil]
  | cons y bs => rw [hr.next_cons, if_neg hr.ne_hook, List.head?_cons]

theorem pthRingPrev_eq (hr : RingOf l r (as ++ x :: bs)) :
    pthRingPrev l r (some x) = as.getLast? := by
  unfold pthRingPrev
  rcases List.eq_nil_or_concat as with rfl | ⟨as', y, rfl⟩
  · have hhook : r.hook = some x := hr.hook
    rw [hhook, if_pos rfl, List.getLast?_nil]
  · rw [List.concat_eq_append] at hr ⊢
    -- the node before `x` is not the last one, which is before the hook
    obtain ⟨zs, w, hw⟩ := List.eq_nil_or_concat (x :: bs) |>.resolve_left (by simp)
    rw [List.concat_eq_append] at hw
    have hlast : l.prev r.hook = some w := by
      have hr' := hr
      rw [hw, ← List.append_assoc] at hr'
      exact hr'.prev_hook
    have hne : y ≠ w := by
      have hnd := hr.nodup
      rw [List.nodup_append] at hnd
      refine hnd.2.2 y (by simp) w ?_
      rw [hw]
      simp
    rw [hr.prev_concat, hlast, if_neg (by simpa using hne)]
    simp

theorem containsFrom_eq (hr : RingOf l r (as ++ x :: bs)) (y : N) {fuel : Nat}
    (hfuel : bs.length < fuel) :
    containsFrom l r (some y) fuel (some x) = some (decide (y ∈ x :: bs)) := by
  induction bs generalizing as x fuel with
  | nil =>
    obtain ⟨fuel, rfl⟩ := Nat.exists_eq_succ_of_ne_zero (Nat.ne_of_gt hfuel)
    rw [containsFrom, hr.next_last, if_pos rfl]
    by_cases hxy : x = y
    · simp [hxy]
    · simp [hxy, Ne.symm hxy]
  | cons b bs ih =>
    obtain ⟨fuel, rfl⟩ := Nat.exists_eq_succ_of_ne_zero (Nat.ne_of_gt (Nat.zero_lt_of_lt hfuel))
    rw [containsFrom, hr.next_cons, if_neg hr.ne_hook]
    have hrest : RingOf l r ((as ++ [x]) ++ b :: bs) := by simpa using hr
    rw [ih hrest (by simpa using hfuel)]
    by_cases hxy : x = y
    · simp [hxy]
    · simp [hxy, Ne.symm hxy]

theorem pthRingContains_eq (hr : RingOf l r xs) (y : N) {fuel : Nat} (hfuel : xs.length ≤ fuel) :
    pthRingContains l r fuel (some y) = some (decide (y ∈ xs)) := by
  unfold pthRingContains
  cases xs with
  | nil =>
    rw [if_pos (hr.hook_eq_none_iff.mpr rfl)]
    simp
  | cons x xs =>
    have hhook : r.hook = some x := hr.hook
    rw [hhook, if_neg (by simp)]
    have hfirst : RingOf l r ([] ++ x :: xs) := hr
    exact hfirst.containsFrom_eq y hfuel

end RingOf

/-! ## The operations -/

theorem pthRingInsertAfter_links (hxy : x ≠ y) :
    (pthRingInsertAfter l r (some y) (some x)).1 =
      l.insertBetween (some x) (some y) (l.next (some y)) := by
  have hprev : ((l.setPrev (some x) (some y)).setNext (some x) (l.next (some y))).prev (some x) =
      some y := by simp
  have hnext : (((l.setPrev (some x) (some y)).setNext (some x) (l.next (some y))).setNext
      (some y) (some x)).next (some x) = l.next (some y) := by simp [hxy]
  simp only [pthRingInsertAfter, Links.setPrev_next, hprev, hnext]
  rfl

theorem pthRingInsertBefore_links (hxy : l.prev (some y) ≠ some x) :
    (pthRingInsertBefore l r (some y) (some x)).1 =
      l.insertBetween (some x) (l.prev (some y)) (some y) := by
  have hprev : ((l.setNext (some x) (some y)).setPrev (some x) (l.prev (some y))).prev (some x) =
      l.prev (some y) := by simp
  have hnext : (((l.setNext (some x) (some y)).setPrev (some x) (l.prev (some y))).setNext
      (l.prev (some y)) (some x)).next (some x) = some y := by simp [Ne.symm hxy]
  simp only [pthRingInsertBefore, Links.setNext_prev, hprev, hnext]
  rfl

/-- `pth_ring_insert_after` on the list of nodes. -/
theorem pthRingInsertAfter_ring (hr : RingOf l r (as ++ y :: bs)) (hx : x ∉ as ++ y :: bs) :
    RingOf (pthRingInsertAfter l r (some y) (some x)).1
      (pthRingInsertAfter l r (some y) (some x)).2 (as ++ y :: x :: bs) := by
  have hxy : x ≠ y := by
    rintro rfl
    simp at hx
  have hnot : some x ∉ some y :: (bs ++ as).map some := by
    simp at hx ⊢
    tauto
  have hins := hr.around.insertHead hnot
  rw [pthRingInsertAfter_links hxy]
  refine ⟨?_, ?_, ?_⟩
  · show r.hook = _
    rw [hr.hook]
    cases as <;> simp
  · show Unsigned.incr r.nodes = _
    rw [hr.nodes, Unsigned.incr_mod]
    simp [Nat.add_assoc]
  · rw [List.map_append]
    refine closed_comm ?_
    simpa [Closed] using hins

/-- `pth_ring_insert_before` on the list of nodes: in front of the hook the new node is the last. -/
theorem pthRingInsertBefore_ring (hr : RingOf l r (as ++ y :: bs)) (hx : x ∉ as ++ y :: bs) :
    RingOf (pthRingInsertBefore l r (some y) (some x)).1
      (pthRingInsertBefore l r (some y) (some x)).2
      (if as = [] then y :: (bs ++ [x]) else as ++ x :: y :: bs) := by
  have hnot : some x ∉ some y :: (bs ++ as).map some := by
    simp at hx ⊢
    tauto
  have hins := hr.around.insertTail hnot
  rw [pthRingInsertBefore_links (hr.prev_ne (by simp) hx)]
  refine ⟨?_, ?_, ?_⟩
  · show r.hook = _
    rw [hr.hook]
    cases as <;> simp
  · show Unsigned.incr r.nodes = _
    rw [hr.nodes, Unsigned.incr_mod]
    split
    · simp_all
    · simp [Nat.add_assoc]
  · split
    · simpa [Closed, ‹as = []›] using hins
    · have hcl : Closed (l.insertBetween (some x) (l.prev (some y)) (some y))
          ((y :: bs).map some ++ (as ++ [x]).map some) := by simpa [Closed] using hins
      simpa using closed_comm hcl

/-- `pth_ring_dequeue` takes the last node. -/
theorem pthRingDequeue_ring (hr : RingOf l r xs) :
    (pthRingDequeue l r).1 = xs.getLast? ∧
      RingOf (pthRingDequeue l r).2.1 (pthRingDequeue l r).2.2 xs.dropLast := by
  have hlast := hr.pthRingLast_eq
  rcases List.eq_nil_or_concat xs with rfl | ⟨as, x, rfl⟩
  · simp only [List.getLast?_nil] at hlast
    simp only [pthRingDequeue, hlast]
    exact ⟨rfl, hr⟩
  · rw [List.concat_eq_append] at hr hlast ⊢
    simp only [List.getLast?_append, List.getLast?_singleton, Option.some_or] at hlast
    simp only [pthRingDequeue, hlast]
    have hdel := pthRingDelete_ring hr
    simpa using hdel

theorem pthRingPop_ring (hr : RingOf l r xs) :
    (MsgPort.pthRingPop l r).1 = xs.head? ∧
      RingOf (MsgPort.pthRingPop l r).2.1 (MsgPort.pthRingPop l r).2.2 xs.tail := by
  have hhook : pthRingFirst r = xs.head? := hr.hook
  cases xs with
  | nil =>
    simp only [MsgPort.pthRingPop, hhook, List.head?_nil, true_and]
    exact hr
  | cons x xs =>
    simp only [MsgPort.pthRingPop, hhook, List.head?_cons, true_and]
    have hfirst : RingOf l r ([] ++ x :: xs) := hr
    exact pthRingDelete_ring hfirst

variable {z : N}

theorem pthRingPop_frame (hr : RingOf l r xs) (hz : z ∉ xs) :
    (MsgPort.pthRingPop l r).2.1.next (some z) = l.next (some z) ∧
      (MsgPort.pthRingPop l r).2.1.prev (some z) = l.prev (some z) := by
  have hhook : pthRingFirst r = xs.head? := hr.hook
  cases xs with
  | nil => simp [MsgPort.pthRingPop, hhook]
  | cons x xs =>
    simp only [MsgPort.pthRingPop, hhook, List.head?_cons]
    exact pthRingDelete_frame hr List.mem_cons_self hz

theorem pthRingDequeue_frame (hr : RingOf l r xs) (hz : z ∉ xs) :
    (pthRingDequeue l r).2.1.next (some z) = l.next (some z) ∧
      (pthRingDequeue l r).2.1.prev (some z) = l.prev (some z) := by
  unfold pthRingDequeue
  rw [hr.pthRingLast_eq]
  cases hlast : xs.getLast? with
  | none => exact ⟨rfl, rfl⟩
  | some x => exact pthRingDelete_frame hr (List.mem_of_getLast? hlast) hz

theorem insertBetween_frame {p n : N} (hz : z ≠ x) (hp : z ≠ p) (hn : z ≠ n) :
    (l.insertBetween (some x) (some p) (some n)).next (some z) = l.next (some z) ∧
      (l.insertBetween (some x) (some p) (some n)).prev (some z) = l.prev (some z) := by
  simp [Links.insertBetween_next, Links.insertBetween_prev, hz, hp, hn]

theorem pthRingInsertAfter_frame (hr : RingOf l r xs) (hy : y ∈ xs) (hx : x ∉ xs)
    (hzx : z ≠ x) (hz : z ∉ xs) :
    (pthRingInsertAfter l r (some y) (some x)).1.next (some z) = l.next (some z) ∧
      (pthRingInsertAfter l r (some y) (some x)).1.prev (some z) = l.prev (some z) := by
  obtain ⟨n, hn, hnext⟩ := (hr.neighbours hy).1
  have hxy : x ≠ y := fun h => hx (h ▸ hy)
  rw [pthRingInsertAfter_links hxy, hnext]
  exact insertBetween_frame hzx (fun h => hz (h ▸ hy)) (fun h => hz (h ▸ hn))

theorem pthRingInsertBefore_frame (hr : RingOf l r xs) (hy : y ∈ xs) (hx : x ∉ xs)
    (hzx : z ≠ x) (hz : z ∉ xs) :
    (pthRingInsertBefore l r (some y) (some x)).1.next (some z) = l.next (some z) ∧
      (pthRingInsertBefore l r (some y) (some x)).1.prev (some z) = l.prev (some z) := by
  obtain ⟨p, hp, hprev⟩ := (hr.neighbours hy).2
  rw [pthRingInsertBefore_links (hr.prev_ne hy hx), hprev]
  exact insertBetween_frame hzx (fun h => hz (h ▸ hp)) (fun h => hz (h ▸ hy))

end Ngpt.Sync

namespace Ngpt.RingSeq

open Function LinkedRing WordMemory Ngpt.Sync

/-- The rings `I` with the links of the nodes. -/
structure State (I N : Type) where
  rn   : Links (Option N)
  ring : I → PthRing N

inductive Op (I N : Type) where
  | append (r : I) (rn : N)
  | delete (r : I) (rn : N)
  | pop (r : I)
  | dequeue (r : I)
  | insertAfter (r : I) (rn1 rn2 : N)
  | insertBefore (r : I) (rn1 rn2 : N)
  deriving DecidableEq, Repr

variable {I N : Type} [DecidableEq I] {s : State I N} {c : I → List N}

def State.put (s : State I N) (r : I) (p : Links (Option N) × PthRing N) : State I N :=
  ⟨p.1, update s.ring r p.2⟩

section

variable {i : I} {p : Links (Option N) × PthRing N} {xs : List N}
  (h : Sequences s.rn s.ring c) (hring : RingOf p.1 p.2 xs)
include h hring

theorem put_sequences
    (hnew : ∀ y ∈ xs, y ∈ c i ∨ ∀ j, y ∉ c j)
    (hframe : ∀ z, z ∉ xs → z ∉ c i →
      p.1.next (some z) = s.rn.next (some z) ∧ p.1.prev (some z) = s.rn.prev (some z)) :
    Sequences (s.put i p).rn (s.put i p).ring (update c i xs) := by
  have hapart : ∀ y j, j ≠ i → y ∈ c j → y ∉ xs := by
    intro y j hj hy hyx
    rcases hnew y hyx with hi | hnone
    · exact hj (h.apart j i y hy hi)
    · exact hnone j hy
  refine h.update hring (fun y j hj hy => ?_) hapart
  exact hframe y (hapart y j hj hy) fun hyi => hj (h.apart j i y hy hyi)

theorem put_inserted {x : N} (hx : ∀ j, x ∉ c j) (hperm : xs.Perm (x :: c i))
    (hframe : ∀ z, z ≠ x → z ∉ c i →
      p.1.next (some z) = s.rn.next (some z) ∧ p.1.prev (some z) = s.rn.prev (some z)) :
    Sequences (s.put i p).rn (s.put i p).ring (update c i xs) := by
  refine put_sequences h hring (fun z hz => ?_) (fun z hz hzi => ?_)
  · rcases List.mem_cons.mp (hperm.mem_iff.mp hz) with rfl | hz
    · exact Or.inr hx
    · exact Or.inl hz
  · refine hframe z ?_ hzi
    rintro rfl
    exact hz (hperm.mem_iff.mpr List.mem_cons_self)

theorem put_removed (hsub : xs ⊆ c i)
    (hframe : ∀ z, z ∉ c i →
      p.1.next (some z) = s.rn.next (some z) ∧ p.1.prev (some z) = s.rn.prev (some z)) :
    Sequences (s.put i p).rn (s.put i p).ring (update c i xs) :=
  put_sequences h hring (fun _ hz => Or.inl (hsub hz)) (fun z _ hzi => hframe z hzi)

end

variable [DecidableEq N]

/-- An operation with the node it returns, `none` for those that return nothing. -/
def State.exec (s : State I N) : Op I N → Option N × State I N
  | .append r rn => (none, s.put r (pthRingAppend s.rn (s.ring r) (some rn)))
  | .delete r rn => (none, s.put r (pthRingDelete s.rn (s.ring r) (some rn)))
  | .pop r =>
    ((MsgPort.pthRingPop s.rn (s.ring r)).1, s.put r (MsgPort.pthRingPop s.rn (s.ring r)).2)
  | .dequeue r => ((pthRingDequeue s.rn (s.ring r)).1, s.put r (pthRingDequeue s.rn (s.ring r)).2)
  | .insertAfter r rn1 rn2 =>
    (none, s.put r (pthRingInsertAfter s.rn (s.ring r) (some rn1) (some rn2)))
  | .insertBefore r rn1 rn2 =>
    (none, s.put r (pthRingInsertBefore s.rn (s.ring r) (some rn1) (some rn2)))

/-! ## The operations on sequences -/

/-- `x` right after `y`. -/
def placeAfter (y x : N) : List N → List N
  | [] => []
  | z :: zs => if z = y then z :: x :: zs else z :: placeAfter y x zs

/-- `x` right before `y`. -/
def placeBefore (y x : N) : List N → List N
  | [] => []
  | z :: zs => if z = y then x :: z :: zs else z :: placeBefore y x zs

/-- `x` right before `y` in cyclic order: before the first node is after the last one. -/
def placeBeforeCyclic (y x : N) (zs : List N) : List N :=
  if zs.head? = some y then zs ++ [x] else placeBefore y x zs

/-- The same operation on sequences. -/
def spec (c : I → List N) : Op I N → Option N × (I → List N)
  | .append r rn => (none, update c r (c r ++ [rn]))
  | .delete r rn => (none, update c r ((c r).erase rn))
  | .pop r => ((c r).head?, update c r (c r).tail)
  | .dequeue r => ((c r).getLast?, update c r (c r).dropLast)
  | .insertAfter r rn1 rn2 => (none, update c r (placeAfter rn1 rn2 (c r)))
  | .insertBefore r rn1 rn2 => (none, update c r (placeBeforeCyclic rn1 rn2 (c r)))

/-- Only nodes in no ring are inserted, and only members are deleted or inserted next to. -/
def Permitted (c : I → List N) : Op I N → Prop
  | .append _ rn => ∀ i, rn ∉ c i
  | .delete r rn => rn ∈ c r
  | .pop _ | .dequeue _ => True
  | .insertAfter r rn1 rn2 | .insertBefore r rn1 rn2 => rn1 ∈ c r ∧ ∀ i, rn2 ∉ c i

theorem placeAfter_mid {x y : N} {as bs : List N} (hy : y ∉ as) :
    placeAfter y x (as ++ y :: bs) = as ++ y :: x :: bs := by
  induction as with
  | nil => simp [placeAfter]
  | cons a as ih =>
    simp only [List.mem_cons, not_or] at hy
    simp [placeAfter, Ne.symm hy.1, ih hy.2]

theorem placeBefore_mid {x y : N} {as bs : List N} (hy : y ∉ as) :
    placeBefore y x (as ++ y :: bs) = as ++ x :: y :: bs := by
  induction as with
  | nil => simp [placeBefore]
  | cons a as ih =>
    simp only [List.mem_cons, not_or] at hy
    simp [placeBefore, Ne.symm hy.1, ih hy.2]

theorem placeBeforeCyclic_mid {x y : N} {as bs : List N} (hy : y ∉ as) :
    placeBeforeCyclic y x (as ++ y :: bs) =
      if as = [] then y :: (bs ++ [x]) else as ++ x :: y :: bs := by
  cases as with
  | nil => simp [placeBeforeCyclic]
  | cons a as =>
    have hay : a ≠ y := by
      rintro rfl
      simp at hy
    have hmid : placeBefore y x ((a :: as) ++ y :: bs) = (a :: as) ++ x :: y :: bs :=
      placeBefore_mid hy
    simp only [placeBeforeCyclic, List.cons_append, List.head?_cons, Option.some.injEq, hay,
      if_false, reduceCtorEq]
    exact hmid

variable {zs : List N}

theorem placeAfter_perm {x y : N} (hy : y ∈ zs) : (placeAfter y x zs).Perm (x :: zs) := by
  induction zs with
  | nil => simp at hy
  | cons z zs ih =>
    unfold placeAfter
    split
    · exact List.Perm.swap x z zs
    next hz =>
      have hmem : y ∈ zs := (List.mem_cons.mp hy).resolve_left (Ne.symm hz)
      exact ((ih hmem).cons z).trans (List.Perm.swap x z zs)

theorem placeBefore_perm {x y : N} (hy : y ∈ zs) : (placeBefore y x zs).Perm (x :: zs) := by
  induction zs with
  | nil => simp at hy
  | cons z zs ih =>
    unfold placeBefore
    split
    · exact List.Perm.refl _
    next hz =>
      have hmem : y ∈ zs := (List.mem_cons.mp hy).resolve_left (Ne.symm hz)
      exact ((ih hmem).cons z).trans (List.Perm.swap x z zs)

theorem placeBeforeCyclic_perm {x y : N} (hy : y ∈ zs) :
    (placeBeforeCyclic y x zs).Perm (x :: zs) := by
  unfold placeBeforeCyclic
  split
  · exact List.perm_append_singleton x zs
  · exact placeBefore_perm hy

/-! ## One operation -/

/-- One operation, on one of many rings. -/
theorem exec_sequences (h : Sequences s.rn s.ring c) {op : Op I N} (hok : Permitted c op) :
    (s.exec op).1 = (spec c op).1 ∧
      Sequences (s.exec op).2.rn (s.exec op).2.ring (spec c op).2 := by
  cases op with
  | append i x =>
    refine ⟨rfl, put_inserted h (pthRingAppend_ring (h.ring i) (hok i)) hok ?_ ?_⟩
    · exact List.perm_append_singleton x (c i)
    · intro z hzx hzi
      exact pthRingAppend_frame (h.ring i) hzx hzi
  | delete i x =>
    obtain ⟨as, bs, hsplit⟩ := List.append_of_mem hok
    have hring := h.ring i
    rw [hsplit] at hring
    have herase : (c i).erase x = as ++ bs := by
      rw [hsplit, List.erase_append_right _ hring.notMem_left, List.erase_cons_head]
    refine ⟨rfl, put_removed h (herase ▸ pthRingDelete_ring hring) List.erase_subset ?_⟩
    intro z hz
    exact pthRingDelete_frame (h.ring i) hok hz
  | pop i =>
    obtain ⟨hret, hring⟩ := pthRingPop_ring (h.ring i)
    refine ⟨hret, put_removed h hring (fun _ => List.mem_of_mem_tail) ?_⟩
    intro z hz
    exact pthRingPop_frame (h.ring i) hz
  | dequeue i =>
    obtain ⟨hret, hring⟩ := pthRingDequeue_ring (h.ring i)
    refine ⟨hret, put_removed h hring (List.dropLast_subset _) ?_⟩
    intro z hz
    exact pthRingDequeue_frame (h.ring i) hz
  | insertAfter i y x =>
    obtain ⟨hy, hx⟩ := hok
    obtain ⟨as, bs, hsplit⟩ := List.append_of_mem hy
    have hring := h.ring i
    rw [hsplit] at hring
    have hplace : placeAfter y x (c i) = as ++ y :: x :: bs := by
      rw [hsplit, placeAfter_mid hring.notMem_left]
    have hins := pthRingInsertAfter_ring hring (hsplit ▸ hx i)
    refine ⟨rfl, put_inserted h (hplace ▸ hins) hx (placeAfter_perm hy) ?_⟩
    intro z hzx hzi
    exact pthRingInsertAfter_frame (h.ring i) hy (hx i) hzx hzi
  | insertBefore i y x =>
    obtain ⟨hy, hx⟩ := hok
    obtain ⟨as, bs, hsplit⟩ := List.append_of_mem hy
    have hring := h.ring i
    rw [hsplit] at hring
    have hplace : placeBeforeCyclic y x (c i) =
        if as = [] then y :: (bs ++ [x]) else as ++ x :: y :: bs := by
      rw [hsplit, placeBeforeCyclic_mid hring.notMem_left]
    have hins := pthRingInsertBefore_ring hring (hsplit ▸ hx i)
    refine ⟨rfl, put_inserted h (hplace ▸ hins) hx (placeBeforeCyclic_perm hy) ?_⟩
    intro z hzx hzi
    exact pthRingInsertBefore_frame (h.ring i) hy (hx i) hzx hzi

/-! ## Runs -/

/-- A sequence of operations, with what they return. -/
def State.execAll (s : State I N) : List (Op I N) → List (Option N) × State I N
  | [] => ([], s)
  | op :: ops => ((s.exec op).1 :: ((s.exec op).2.execAll ops).1, ((s.exec op).2.execAll ops).2)

def specAll (c : I → List N) : List (Op I N) → List (Option N) × (I → List N)
  | [] => ([], c)
  | op :: ops => ((spec c op).1 :: (specAll (spec c op).2 ops).1, (specAll (spec c op).2 ops).2)

/-- Each operation is permitted when its turn comes. -/
def PermittedAll (c : I → List N) : List (Op I N) → Prop
  | [] => True
  | op :: ops => Permitted c op ∧ PermittedAll (spec c op).2 ops

theorem execAll_sequences (h : Sequences s.rn s.ring c) {ops : List (Op I N)}
    (hok : PermittedAll c ops) :
    (s.execAll ops).1 = (specAll c ops).1 ∧
      Sequences (s.execAll ops).2.rn (s.execAll ops).2.ring (specAll c ops).2 := by
  induction ops generalizing s c with
  | nil => exact ⟨rfl, h⟩
  | cons op ops ih =>
    obtain ⟨hret, hstep⟩ := exec_sequences h hok.1
    obtain ⟨hrets, hrest⟩ := ih hstep hok.2
    exact ⟨congrArg₂ List.cons hret hrets, hrest⟩

/-- How a ring reads: it is linked in a circle in both directions, starting at the hook; the
hook is NULL if it is empty; `r_nodes` is its length; the walks and the search. -/
structure Reads (l : Links (Option N)) (r : PthRing N) (xs : List N) : Prop where
  circle   : Closed l (xs.map some)
  nodup    : xs.Nodup
  hook     : r.hook = xs.head?
  empty    : r.hook = none ↔ xs = []
  nodes    : r.nodes = xs.length
  next     : ∀ as x bs, xs = as ++ x :: bs → pthRingNext l r (some x) = bs.head?
  prev     : ∀ as x bs, xs = as ++ x :: bs → pthRingPrev l r (some x) = as.getLast?
  contains : ∀ x fuel, xs.length ≤ fuel →
    pthRingContains l r fuel (some x) = some (decide (x ∈ xs))

/-- **Rings are sequences.** Of any rings and any sequence of operations that insert only nodes
in no ring and delete only members: the operations return what the same ones on sequences
return, and in the end each ring reads as its sequence. -/
theorem rings_are_sequences (A : Placement N Unsigned.range ringnodeSize) (l : Links (Option N))
    (ops : List (Op I N)) (hok : PermittedAll (fun _ => []) ops) :
    ((⟨l, fun _ => pthRingInit⟩ : State I N).execAll ops).1 = (specAll (fun _ => []) ops).1 ∧
    ∀ r, Reads ((⟨l, fun _ => pthRingInit⟩ : State I N).execAll ops).2.rn
      (((⟨l, fun _ => pthRingInit⟩ : State I N).execAll ops).2.ring r)
      ((specAll (fun _ => []) ops).2 r) := by
  have hinit : Sequences l (fun _ : I => (pthRingInit : PthRing N)) fun _ => [] :=
    ⟨fun _ => ringOf_init l, fun _ _ _ hy => absurd hy List.not_mem_nil⟩
  obtain ⟨hret, hseq⟩ := execAll_sequences (s := ⟨l, fun _ => pthRingInit⟩) hinit hok
  refine ⟨hret, fun r => ?_⟩
  have hr := hseq.ring r
  refine ⟨hr.closed, hr.nodup, hr.hook, hr.hook_eq_none_iff, hr.nodes_eq A, ?_, ?_, ?_⟩
  · intro as x bs hxs
    exact (hxs ▸ hr).pthRingNext_eq
  · intro as x bs hxs
    exact (hxs ▸ hr).pthRingPrev_eq
  · intro x fuel hfuel
    exact hr.pthRingContains_eq x hfuel

/-- Nodes side by side. -/
def threeNodes : Placement (Fin 3) Unsigned.range ringnodeSize where
  base rn := 8 * rn + 8
  inside rn := by
    unfold Unsigned.range ringnodeSize
    omega
  apart a b h := by
    unfold Span.Apart ringnodeSize
    simp only
    omega

instance (c : Fin 2 → List (Fin 3)) (op : Op (Fin 2) (Fin 3)) : Decidable (Permitted c op) := by
  cases op <;> dsimp only [Permitted] <;> infer_instance

instance decidablePermittedAll (c : Fin 2 → List (Fin 3)) :
    (ops : List (Op (Fin 2) (Fin 3))) → Decidable (PermittedAll c ops)
  | [] => inferInstanceAs (Decidable True)
  | op :: ops =>
    have := decidablePermittedAll (spec c op).2 ops
    inferInstanceAs (Decidable (Permitted c op ∧ PermittedAll (spec c op).2 ops))

/-- `z` goes before the first node of the ring `r`, and so to its end; `y` is taken off the front
of the ring and put on the ring `q`. -/
def movedNodes (r q : I) (x y z : N) : List (Op I N) :=
  [.append r x, .insertBefore r x z, .insertAfter r x y, .delete r x, .pop r, .append q y]

theorem rings_are_sequences_moved :
    ∃ ops : List (Op (Fin 2) (Fin 3)), ops = movedNodes 0 1 0 1 2 ∧
    PermittedAll (fun _ => []) ops ∧
    (specAll (fun _ => []) ops).1 = [none, none, none, none, some 1, none] ∧
    ((⟨⟨id, id⟩, fun _ => pthRingInit⟩ : State (Fin 2) (Fin 3)).execAll ops).1 =
      (specAll (fun _ => []) ops).1 ∧
    ∀ r, Reads ((⟨⟨id, id⟩, fun _ => pthRingInit⟩ : State (Fin 2) (Fin 3)).execAll ops).2.rn
      (((⟨⟨id, id⟩, fun _ => pthRingInit⟩ : State (Fin 2) (Fin 3)).execAll ops).2.ring r)
      ((specAll (fun _ => []) ops).2 r) := by
  have hok : PermittedAll (fun _ => []) (movedNodes (0 : Fin 2) 1 (0 : Fin 3) 1 2) := by decide
  exact ⟨_, rfl, hok, by decide, rings_are_sequences threeNodes ⟨id, id⟩ _ hok⟩

end Ngpt.RingSeq
