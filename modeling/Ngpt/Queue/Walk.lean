import Ngpt.Queue.Runs

/-!
# ngpt — reading a run queue (`pqueue.h`)

`__pqueue_first_node` scans the bitmap for the highest level, and `__pqueue_get_next_node`
goes on from a node: to the next one of its level, or to the first one of the next level
below that is not empty. The event manager walks a wait queue with the two, and takes a
node off the queue after it has asked for the next one.

A pointer that the code turns into a node with `list_entry` is kept as the list node it was
made from, so that a level head taken for a node does not look like the end of a walk.

Results: `pqueue_first_highest`, `pqueue_walk_in_order`.
-/

namespace Ngpt.Queue

open LinkedRing

variable {Q N : Type} {h : Heap Q N} {L : Levels Q N} {q : Q} {n : N} {p : Nat} {del : N → Bool}
  {pre post : List N} {fuel : Nat}

/-! ## The nodes from the highest level down -/

/-- The nodes of the levels below `p`, from the highest level down. -/
def below (L : Levels Q N) (q : Q) : Nat → List N
  | 0 => []
  | p + 1 => L q p ++ below L q p

/-- The nodes of a queue from the highest level down. -/
def inOrder (L : Levels Q N) (q : Q) : List N := below L q prioTotal

theorem below_congr {M : Levels Q N} (hM : ∀ p' < p, M q p' = L q p') :
    below M q p = below L q p := by
  induction p with
  | zero => rfl
  | succ p ih => rw [below, below, hM p (Nat.lt_succ_self p), ih fun p' hp' => hM p' (by omega)]

theorem mem_below : n ∈ below L q p ↔ ∃ p' < p, n ∈ L q p' := by
  induction p with
  | zero => simp [below]
  | succ p ih =>
    rw [below, List.mem_append, ih]
    constructor
    · rintro (hn | ⟨p', hlt, hn⟩)
      · exact ⟨p, Nat.lt_succ_self p, hn⟩
      · exact ⟨p', by omega, hn⟩
    · rintro ⟨p', hlt, hn⟩
      rcases Nat.lt_succ_iff_lt_or_eq.mp hlt with hlt | rfl
      · exact Or.inr ⟨p', hlt, hn⟩
      · exact Or.inl hn

theorem exists_level_of_below {rest : List N} (hb : below L q p = n :: rest) :
    ∃ p' < p, ∃ post, L q p' = n :: post ∧ rest = post ++ below L q p' ∧
      ∀ k, p' < k → k < p → L q k = [] := by
  induction p with
  | zero => cases hb
  | succ p ih =>
    rw [below] at hb
    rcases hL : L q p with _ | ⟨m, post⟩
    · rw [hL, List.nil_append] at hb
      obtain ⟨p', hlt, post, hp', hrest, hbetween⟩ := ih hb
      refine ⟨p', by omega, post, hp', hrest, fun k hk hkp => ?_⟩
      by_cases hkp' : k = p
      · rw [hkp', hL]
      · exact hbetween k hk (by omega)
    · rw [hL, List.cons_append, List.cons.injEq] at hb
      obtain ⟨rfl, rfl⟩ := hb
      exact ⟨p, Nat.lt_succ_self p, post, hL, rfl, fun k hk hkp => by omega⟩

theorem below_of_empty {k : Nat} (hpk : p ≤ k) (hempty : ∀ p', p ≤ p' → L q p' = []) :
    below L q k = below L q p := by
  induction k, hpk using Nat.le_induction with
  | base => rfl
  | succ k hpk ih => rw [below, hempty k hpk, List.nil_append, ih]

theorem length_below : (below L q p).length = ∑ k ∈ Finset.range p, (L q k).length := by
  induction p with
  | zero => rfl
  | succ p ih => rw [below, List.length_append, Finset.sum_range_succ, ih, Nat.add_comm]

theorem nodup_below (hR : Represents h L) (q : Q) (hp : p ≤ prioTotal) : (below L q p).Nodup := by
  induction p with
  | zero => exact List.nodup_nil
  | succ p ih =>
    have hlevel : (L q p).Nodup := (hR.rings q p hp).nodup_nodes.of_map
    refine List.nodup_append.mpr ⟨hlevel, ih (by omega), ?_⟩
    rintro n hn m hm rfl
    obtain ⟨p', hlt, hn'⟩ := mem_below.mp hm
    have := (hR.placed.apart hn hn').2
    omega

theorem sorted_below (hR : Represents h L) :
    (below L q p).Pairwise fun n m => (h.node m).priority ≤ (h.node n).priority := by
  have hprio : ∀ {p n}, n ∈ L q p → (h.node n).priority = p := fun hn =>
    ((hR.placed.mem q _ _).mp hn).2.2
  induction p with
  | zero => exact List.Pairwise.nil
  | succ p ih =>
    refine List.pairwise_append.mpr ⟨?_, ih, ?_⟩
    · refine List.pairwise_of_forall_mem_list ?_
      intro n hn m hm
      exact (hprio hm).trans_le (hprio hn).ge
    · intro n hn m hm
      obtain ⟨p', hlt, hm'⟩ := mem_below.mp hm
      rw [hprio hn, hprio hm']
      exact hlt.le

theorem mem_inOrder (hR : Represents h L) : n ∈ inOrder L q ↔ h.place n = some q := by
  rw [inOrder, mem_below, hR.place_iff]
  constructor
  · rintro ⟨p, -, hn⟩
    exact ⟨p, hn⟩
  · rintro ⟨p, hn⟩
    exact ⟨p, hR.lt_prioTotal hn, hn⟩

variable [DecidableEq Q]

/-- What a walk leaves of the levels of `q` when it starts at the node after `pre` in level
`p`. -/
structure Swept (del : N → Bool) (L : Levels Q N) (q : Q) (p : Nat) (pre todo : List N)
    (L' : Levels Q N) : Prop where
  other : ∀ q', q' ≠ q → L' q' = L q'
  above : ∀ p', p < p' → L' q p' = L q p'
  level : L' q p = pre ++ todo.filter (!del ·)
  below : ∀ p' < p, L' q p' = (L q p').filter (!del ·)

theorem set_queue_ne {q' : Q} (hq : q' ≠ q) (xs : List N) : L.set q p xs q' = L q' := by
  funext k
  simp [Levels.set_apply, hq]

theorem set_level_ne {k : Nat} (hk : k ≠ p) (xs : List N) : L.set q p xs q k = L q k := by
  simp [Levels.set_apply, hk]

theorem Swept.outside {p' : Nat} {xs todo : List N} {L' : Levels Q N}
    (hs : Swept del (L.set q p xs) q p' pre todo L') (hle : p' ≤ p) :
    (∀ q', q' ≠ q → L' q' = L q') ∧ ∀ k, p < k → L' q k = L q k := by
  refine ⟨fun q' hq' => ?_, fun k hk => ?_⟩
  · rw [hs.other q' hq', set_queue_ne hq']
  · rw [hs.above k (by omega), set_level_ne (Nat.ne_of_gt hk)]

-- What one round and the rest of the walk leave together: the node was the last one of the
-- queue, or the walk goes on in a level below, or it goes on in the same level.

theorem swept_last (del : N → Bool) (n : N) (hbelow : below L q p = []) :
    Swept del L q p pre [n] (L.set q p (pre ++ [n].filter (!del ·) ++ [])) := by
  refine ⟨fun q' hq' => set_queue_ne hq' _, fun p' hp' => set_level_ne (Nat.ne_of_gt hp') _,
    by simp, fun p' hp' => ?_⟩
  have hempty : L q p' = [] := by
    refine List.eq_nil_iff_forall_not_mem.mpr fun m hm => ?_
    have hmem : m ∈ below L q p := mem_below.mpr ⟨p', hp', hm⟩
    rw [hbelow] at hmem
    cases hmem
  rw [set_level_ne (Nat.ne_of_lt hp'), hempty]
  rfl

theorem Swept.descend {p' : Nat} {L' : Levels Q N}
    (hs : Swept del (L.set q p (pre ++ [n].filter (!del ·) ++ [])) q p' [] post L')
    (hlt : p' < p) (hp' : L q p' = post) (hbetween : ∀ k, p' < k → k < p → L q k = []) :
    Swept del L q p pre [n] L' := by
  obtain ⟨hother, habove⟩ := hs.outside hlt.le
  have hlow : ∀ k < p, L.set q p (pre ++ [n].filter (!del ·) ++ []) q k = L q k :=
    fun k hk => set_level_ne (Nat.ne_of_lt hk) _
  refine ⟨hother, habove, ?_, fun k hk => ?_⟩
  · rw [hs.above p hlt, Levels.set_self]
    simp
  · rcases Nat.lt_trichotomy k p' with h₁ | rfl | h₁
    · rw [hs.below k h₁, hlow k hk]
    · rw [hs.level, hp', List.nil_append]
    · rw [hs.above k h₁, hlow k hk, hbetween k h₁ hk]
      rfl

theorem Swept.follow {L' : Levels Q N}
    (hs : Swept del (L.set q p (pre ++ [n].filter (!del ·) ++ post)) q p
      (pre ++ [n].filter (!del ·)) post L') :
    Swept del L q p pre (n :: post) L' := by
  obtain ⟨hother, habove⟩ := hs.outside le_rfl
  refine ⟨hother, habove, ?_, fun k hk => ?_⟩
  · rw [hs.level, List.append_assoc, ← List.filter_append]
    rfl
  · rw [hs.below k hk, set_level_ne (Nat.ne_of_lt hk)]

variable [DecidableEq N]

/-! ## The first node -/

/-- What `__pqueue_first_node` does: it finds no nodes, takes the branch that reports a
bug, or returns the node of a list node. -/
inductive First (Q N : Type) where
  | empty
  | bug
  | found (lnode : LNode Q N)
  deriving DecidableEq, Repr

/-- `__pqueue_first_node` over a given `find_first_ms_bit`, with the branch it takes and the
heap it leaves. -/
def pqueueFirst (ffms : BitVec 32 → Nat) (h : Heap Q N) (q : Q) : First Q N × Heap Q N :=
  if (h.pqueue q).total ≠ 0 then
    let head : LNode Q N := .head q (scanSlots ffms (h.pqueue q).bitmap)
    let lnode := h.links.next head
    if lnode = head then (.bug, h) else (.found lnode, h)
  else (.empty, h)

/--
**Highest priority first.** On a queue that is not empty, `__pqueue_first_node` returns the
first node of the highest level that is not empty: it reads a level head of the queue, does
not take the branch for a bug, and changes nothing.
-/
theorem pqueue_first_highest (ffms : BitVec 32 → Nat)
    (hffms : ∀ w, w ≠ 0 → ffms w = w.toNat.log2) (h : Heap Q N) (L : Levels Q N)
    (hR : Represents h L) (q : Q) (htotal : 0 < (h.pqueue q).total) :
    ∃ p n rest, L q p = n :: rest ∧ (∀ p', p < p' → L q p' = []) ∧
      scanSlots ffms (h.pqueue q).bitmap = p ∧ p < prioTotal ∧
      pqueueFirst ffms h q = (.found (.node n), h) := by
  have hne : (h.pqueue q).total ≠ 0 := Nat.ne_of_gt htotal
  rcases pqueueFirstNode_spec hR q with ⟨-, hempty⟩ | ⟨n, hfirst, p, rest, hp, hhigh⟩
  · -- no node in any level, so the counter is zero
    refine absurd ?_ hne
    rw [hR.counted.total q]
    exact levelTotal_eq_zero_iff.mpr fun p _ => hempty p
  · have hlt : p < prioTotal := hR.lt_prioTotal (by rw [hp]; exact List.mem_cons_self)
    have hset : (h.pqueue q).bitmap.test p = true := by
      rw [hR.counted.bitmap q p, hp]
      simp
    have hbits : p < bitmapBits := hlt.trans (by decide)
    have hscan : scanSlots ffms (h.pqueue q).bitmap = p := by
      obtain ⟨⟨-, htop⟩, hmax⟩ := scanSlots_isGreatest hffms hbits hset
      have hle := hmax ⟨hbits, hset⟩
      by_contra hne'
      exact (hR.counted.bitmap q _).mp htop (hhigh _ (by omega))
    have hring := hR.rings q p hlt
    rw [hp, List.map_cons] at hring
    refine ⟨p, n, rest, hp, hhigh, hscan, hlt, ?_⟩
    simp [pqueueFirst, hne, hscan, hring.next_head_cons]

theorem pqueue_first_highest_three :
    ∃ (h : Heap Unit Nat) (L : Levels Unit Nat), Represents h L ∧ 0 < (h.pqueue ()).total ∧
      ∃ p n rest, L () p = n :: rest ∧ (∀ p', p < p' → L () p' = []) ∧
        scanSlots (fun w => w.toNat.log2) (h.pqueue ()).bitmap = p ∧ p < prioTotal ∧
        pqueueFirst (fun w => w.toNat.log2) h () = (.found (.node n), h) := by
  obtain ⟨L, hR⟩ := execAll_repr (initHeap_initialised (Q := Unit) (N := Nat)).repr
    [(0, .append ()), (1, .prioritySet ⟨139, by decide⟩), (1, .append ()), (2, .append ())]
  have htotal : 0 < ((execAll (initHeap : Heap Unit Nat) [(0, .append ()),
      (1, .prioritySet ⟨139, by decide⟩), (1, .append ()), (2, .append ())]).pqueue ()).total := by
    decide +kernel
  exact ⟨_, L, hR, htotal, pqueue_first_highest _ (fun _ _ => rfl) _ L hR () htotal⟩

/-! ## The next node -/

/-- The loop of `__pqueue_get_next_node` over the levels below `cnt`. -/
def firstBelow (h : Heap Q N) (q : Q) : Nat → Option (LNode Q N)
  | 0 => none
  | cnt + 1 =>
    if listEmpty h (.head q cnt) then firstBelow h q cnt else some (h.links.next (.head q cnt))

/-- `__pqueue_get_next_node`; `none` is the null pointer. -/
def pqueueGetNextNode (h : Heap Q N) (n : N) : Option (LNode Q N) :=
  match (h.node n).bp with
  | none => none
  | some q =>
    if nodeLtCheck h n .pqueue then none
    else if h.links.next (.node n) ≠ .head q (h.node n).priority then some (h.links.next (.node n))
    else if (h.node n).priority > 0 then firstBelow h q (h.node n).priority
    else none

theorem firstBelow_eq (hR : Represents h L) (q : Q) (hp : p ≤ prioTotal) :
    firstBelow h q p = (below L q p).head?.map .node := by
  induction p with
  | zero => rfl
  | succ p ih =>
    have hring := hR.rings q p hp
    have hempty : listEmpty h (.head q p) = true ↔ L q p = [] := by
      rw [listEmpty, decide_eq_true_eq, hring.next_head_eq_iff, List.map_eq_nil_iff]
    rw [firstBelow, below]
    cases hL : L q p with
    | nil =>
      rw [if_pos (hempty.mpr hL), List.nil_append]
      exact ih (by omega)
    | cons n rest =>
      rw [if_neg (by rw [hempty, hL]; simp)]
      rw [hL, List.map_cons] at hring
      rw [hring.next_head_cons]
      rfl

theorem pqueueGetNextNode_eq (hR : Represents h L) (hp : L q p = pre ++ n :: post) :
    pqueueGetNextNode h n = (post ++ below L q p).head?.map .node := by
  have hn : n ∈ L q p := by rw [hp]; simp
  obtain ⟨hbp, hlt, hprio⟩ := (hR.placed.mem q p n).mp hn
  have hlevel := hR.lt_prioTotal hn
  have hnext : h.links.next (.node n) = (post.map LNode.node).head?.getD (.head q p) := by
    have hring := hR.rings q p hlevel
    rw [hp, List.map_append, List.map_cons] at hring
    exact hring.next_mid
  have hcheck : nodeLtCheck h n .pqueue = false := by simp [nodeLtCheck, hlt]
  simp only [pqueueGetNextNode, hbp, hcheck, Bool.false_eq_true, if_false, hprio, hnext]
  cases post with
  | nil =>
    -- the last of its level: the loop, which a node of level 0 does not reach
    simp only [List.map_nil, List.head?_nil, Option.getD_none, ne_eq, not_true_eq_false, if_false,
      List.nil_append, firstBelow_eq hR q hlevel.le]
    split
    · rfl
    · have hzero : p = 0 := by omega
      rw [hzero]
      rfl
  | cons m post => simp

/-! ## The walk -/

/-- A walk from a pointer on, as the event manager makes it: the next node is read before the
current one is deleted, if `del` says so. The nodes visited and the heap at the end; `none`
if the walk does not end within `fuel` rounds or comes to a list node that is in no node. -/
def walk (del : N → Bool) : Nat → Heap Q N → Option (LNode Q N) → Option (List N × Heap Q N)
  | _, h, none => some ([], h)
  | 0, _, some _ => none
  | fuel + 1, h, some (.node n) =>
    let next := pqueueGetNextNode h n
    let h := if del n then pqueueDeleteNode h n else h
    (walk del fuel h next).map fun r => (n :: r.1, r.2)
  | _ + 1, _, some (.head _ _) => none

/-- Take the nodes that `del` names out of one queue. -/
def Levels.without (L : Levels Q N) (q : Q) (del : N → Bool) : Levels Q N :=
  fun q' p => if q' = q then (L q p).filter (!del ·) else L q' p

theorem round_repr (del : N → Bool) (hR : Represents h L) (hp : L q p = pre ++ n :: post) :
    Represents (if del n then pqueueDeleteNode h n else h)
      (L.set q p (pre ++ [n].filter (!del ·) ++ post)) := by
  cases hdel : del n with
  | false =>
    have hkeep : pre ++ [n].filter (!del ·) ++ post = L q p := by simp [hdel, hp]
    rw [hkeep, Levels.set_eq_self]
    exact hR
  | true =>
    have hn : n ∈ L q p := by rw [hp]; simp
    obtain ⟨hbp, -, hprio⟩ := (hR.placed.mem q p n).mp hn
    have hnot : n ∉ pre := by
      have hnd : ((L q p).map (LNode.node)).Nodup :=
        (hR.rings q p (hR.lt_prioTotal hn)).nodup_nodes
      rw [hp] at hnd
      intro hpre
      exact (List.nodup_append.mp hnd.of_map).2.2 n hpre n List.mem_cons_self rfl
    have herase : (L q p).erase n = pre ++ [n].filter (!del ·) ++ post := by
      rw [hp, List.erase_append_right _ hnot]
      simp [hdel]
    have hdeleted := exec_repr hR n .delete
    rw [hbp, hprio] at hdeleted
    rw [← herase]
    exact hdeleted

theorem walk_round {m : N} {todo : List N} {h' : Heap Q N}
    (hnext : pqueueGetNextNode h n = some (.node m))
    (hw : walk del fuel (if del n then pqueueDeleteNode h n else h) (some (.node m)) =
      some (todo, h')) :
    walk del (fuel + 1) h (some (.node n)) = some (n :: todo, h') := by
  rw [walk, hnext]
  simp only [hw, Option.map_some]

theorem walk_from (del : N → Bool) (todo : List N)
    (hR : Represents h L) (hp : L q p = pre ++ n :: post) (htodo : todo = post ++ below L q p)
    (hfuel : todo.length < fuel) :
    ∃ h' L', walk del fuel h (some (.node n)) = some (n :: todo, h') ∧ Represents h' L' ∧
      Swept del L q p pre (n :: post) L' := by
  induction todo generalizing h L p pre n post fuel with
  | nil =>
    obtain ⟨rfl, hbelow⟩ := List.append_eq_nil_iff.mp htodo.symm
    obtain ⟨fuel, rfl⟩ : ∃ k, fuel = k + 1 := ⟨fuel - 1, by simp at hfuel; omega⟩
    refine ⟨_, _, ?_, round_repr del hR hp, swept_last del n hbelow⟩
    simp [walk, pqueueGetNextNode_eq hR hp, hbelow]
  | cons m todo ih =>
    obtain ⟨fuel, rfl⟩ : ∃ k, fuel = k + 1 := ⟨fuel - 1, by omega⟩
    have hround := round_repr del hR hp
    have hnext : pqueueGetNextNode h n = some (.node m) := by
      rw [pqueueGetNextNode_eq hR hp, ← htodo]
      rfl
    have hlow : ∀ p' < p, L.set q p (pre ++ [n].filter (!del ·) ++ post) q p' = L q p' :=
      fun p' hp' => set_level_ne (Nat.ne_of_lt hp') _
    rcases post with _ | ⟨m', post⟩
    · -- the next node is in a level below
      rw [List.nil_append] at htodo
      obtain ⟨p', hlt, post', hp', rfl, hbetween⟩ := exists_level_of_below htodo.symm
      have hlevel : L.set q p (pre ++ [n].filter (!del ·) ++ []) q p' = [] ++ m :: post' := by
        rw [hlow p' hlt, List.nil_append]
        exact hp'
      have hrest := below_congr fun k (hk : k < p') => hlow k (hk.trans hlt)
      obtain ⟨h', L', hw, hR', hs⟩ := ih hround hlevel (by rw [hrest]) (by simpa using hfuel)
      exact ⟨h', L', walk_round hnext hw, hR', hs.descend hlt hp' hbetween⟩
    · -- the next node is in the same level
      rw [List.cons_append, List.cons.injEq] at htodo
      obtain ⟨rfl, rfl⟩ := htodo
      have hlevel : L.set q p (pre ++ [n].filter (!del ·) ++ m :: post) q p =
          pre ++ [n].filter (!del ·) ++ m :: post := Levels.set_self L q p _
      obtain ⟨h', L', hw, hR', hs⟩ := ih hround hlevel (by rw [below_congr hlow])
        (by simpa using hfuel)
      exact ⟨h', L', walk_round hnext hw, hR', hs.follow⟩

/-! ## The whole queue -/

theorem walk_first (del : N → Bool) (hR : Represents h L) (q : Q)
    (hfuel : (inOrder L q).length ≤ fuel) :
    ∃ h', walk del fuel h ((pqueueFirstNode h q).map .node) = some (inOrder L q, h') ∧
      Represents h' (L.without q del) := by
  rcases pqueueFirstNode_spec hR q with ⟨hnone, hempty⟩ | ⟨n, hsome, p, post, hp, hhigh⟩
  · have hnil : inOrder L q = [] := below_of_empty (Nat.zero_le _) fun p _ => hempty p
    have hsame : L.without q del = L := by
      funext q' p
      by_cases hq : q' = q
      · simp [Levels.without, hq, hempty]
      · simp [Levels.without, hq]
    rw [hnone, hnil, hsame]
    exact ⟨h, by cases fuel <;> rfl, hR⟩
  · have hlt : p < prioTotal := hR.lt_prioTotal (by rw [hp]; exact List.mem_cons_self)
    have horder : inOrder L q = n :: (post ++ below L q p) := by
      rw [inOrder, below_of_empty hlt fun p' hp' => hhigh p' hp', below, hp]
      rfl
    rw [horder] at hfuel ⊢
    have hlevel : L q p = [] ++ n :: post := hp
    obtain ⟨h', L', hw, hR', hs⟩ := walk_from del (post ++ below L q p) hR hlevel rfl hfuel
    have hL' : L' = L.without q del := by
      funext q' k
      by_cases hq : q' = q
      · subst hq
        simp only [Levels.without, if_true]
        rcases Nat.lt_trichotomy k p with hk | rfl | hk
        · exact hs.below k hk
        · rw [hs.level, hp, List.nil_append]
        · rw [hs.above k hk, hhigh k hk]
          rfl
      · simp [Levels.without, hq, hs.other q' hq]
    rw [hsome, ← hL']
    exact ⟨h', hw, hR'⟩

/-- **Iteration with deletion.** The walk along `__pqueue_get_next_node`, with any nodes
deleted as soon as their successor is known, ends. It has visited each node once, by falling
priority and in the order of the lists, and the deleted ones are gone. -/
theorem pqueue_walk_in_order (h : Heap Q N) (L : Levels Q N) (hR : Represents h L) (q : Q)
    (del : N → Bool) :
    (∀ fuel, (h.pqueue q).total ≤ fuel →
      ∃ h', walk del fuel h ((pqueueFirstNode h q).map .node) = some (inOrder L q, h') ∧
        Represents h' (L.without q del)) ∧
    (inOrder L q).length = (h.pqueue q).total ∧
    (∀ n, (inOrder L q).count n = if h.place n = some q then 1 else 0) ∧
    (inOrder L q).Pairwise fun n m => (h.node m).priority ≤ (h.node n).priority := by
  have hlen : (inOrder L q).length = (h.pqueue q).total := by
    rw [hR.counted.total q]
    exact length_below
  have hnodup : (inOrder L q).Nodup := nodup_below hR q le_rfl
  refine ⟨fun fuel hfuel => walk_first del hR q (hlen.trans_le hfuel), hlen, fun n => ?_,
    sorted_below hR⟩
  rw [hnodup.count]
  exact if_congr (mem_inOrder hR) rfl rfl

/-- Nodes 0 and 2 on one level and 1 above them; the walk deletes 0 and 1. -/
theorem pqueue_walk_in_order_three :
    ∃ (h : Heap Unit Nat) (L : Levels Unit Nat), Represents h L ∧ (h.pqueue ()).total = 3 ∧
      (inOrder L ()).length = 3 ∧
      ∃ h', walk (· ≠ 2) 3 h ((pqueueFirstNode h ()).map .node) = some (inOrder L (), h') ∧
        Represents h' (L.without () (· ≠ 2)) := by
  obtain ⟨L, hR⟩ := execAll_repr (initHeap_initialised (Q := Unit) (N := Nat)).repr
    [(0, .append ()), (1, .prioritySet ⟨139, by decide⟩), (1, .append ()), (2, .append ())]
  have htotal : ((execAll (initHeap : Heap Unit Nat) [(0, .append ()),
      (1, .prioritySet ⟨139, by decide⟩), (1, .append ()), (2, .append ())]).pqueue ()).total
        = 3 := by
    decide +kernel
  obtain ⟨hwalk, hlen, -, -⟩ := pqueue_walk_in_order _ L hR () (· ≠ 2)
  exact ⟨_, L, hR, htotal, hlen.trans htotal, hwalk 3 htotal.le⟩

end Ngpt.Queue
