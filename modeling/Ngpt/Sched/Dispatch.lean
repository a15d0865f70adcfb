import Ngpt.Queue.Runs

/-!
# ngpt — the selection loop of the scheduler (`pth_sched.c`)

A native thread picks the next thread to run from its ready queue. The head is
unlinked before its binding is looked at; a head that is bound to some other
native thread is meant to be put back ("we, therefore, need to put it back in
the ready queue"). For the first native thread that is done with
`pqueue_prepend_second_node`. For any other native thread the code calls
`__pqueue_favor` on the node it has just unlinked, and that function returns at
once for a node without a back pointer: the thread is in no queue any more.

`selectThread_keeps_ready_iff` says exactly when no ready thread is lost.
-/

namespace Ngpt.Sched

open Ngpt.Queue

/-- The `pqueue_st`s of the library: three in the descriptor of each native
thread `d`, and the process-wide ones. -/
inductive QName (D : Type) where
  | newQueue (d : D)
  | readyQueue (d : D)
  | waitQueue (d : D)
  | pthNQ
  | pthRQ
  | pthWQ
  | pthSQ
  | pthDQ
  deriving DecidableEq, Repr

/-- The queues of threads that are ready to run. -/
def QName.isReady {D : Type} : QName D → Bool
  | .readyQueue _ => true
  | .pthRQ => true
  | _ => false

variable {D T : Type} {pthFirstNative descr : D} {boundnative : T → Option D}
  {RQ q : QName D} {h : Heap (QName D) T} {L : Levels (QName D) T} {t : T} {p : Nat}

/-- The thread is linked in this queue. -/
def LinkedIn (L : Levels (QName D) T) (q : QName D) (t : T) : Prop := ∃ p, t ∈ L q p

theorem existsUnique_of_linkedIn (hA : L.Apart) (hq : q.isReady) (ht : LinkedIn L q t) :
    ∃! q : QName D, q.isReady ∧ LinkedIn L q t := by
  refine ⟨q, ⟨hq, ht⟩, ?_⟩
  rintro q' ⟨-, p', ht'⟩
  obtain ⟨p, hp⟩ := ht
  exact (hA ht' hp).1

variable [DecidableEq D] [DecidableEq T]

/-- The queue a scheduler takes threads from: its own for a bounded native
thread and for the group leader (`pth_first_native`), else the shared one. -/
def schedRQ (pthFirstNative descr : D) (isBounded : Bool) : QName D :=
  if isBounded || descr = pthFirstNative then .readyQueue descr else .pthRQ

/-- What one pass of the loop leaves: the queues, the thread to switch to, and
the native thread that a byte is sent to. -/
structure Selection (D T : Type) where
  heap    : Heap (QName D) T
  current : Option T
  woken   : Option D

/-- The `while(TRUE)` loop that finds the next thread; every branch leaves it,
so it is one pass. -/
def selectThread (pthFirstNative descr : D) (boundnative : T → Option D) (RQ : QName D)
    (h : Heap (QName D) T) : Selection D T :=
  match if pqueueTotal h RQ > 0 then pqueueFirstNode h RQ else none with
  | none => ⟨h, none, none⟩
  | some current =>
    let h := pqueueDeleteNode h current
    match boundnative current with
    | none => ⟨h, some current, none⟩
    | some ds =>
      if ds = descr then ⟨h, some current, none⟩
      else if ds = pthFirstNative then
        ⟨pqueuePrependSecondNode h (.readyQueue pthFirstNative) current, none, some ds⟩
      else ⟨pqueueFavor h current, none, some ds⟩

/-! ## What happens to ready threads -/

/-- Every thread that was in a ready queue is selected, or it is linked in
exactly one ready queue afterwards. -/
def KeepsReady (L : Levels (QName D) T) (s : Selection D T) : Prop :=
  ∃ L', Represents s.heap L' ∧ ∀ t, (∃ q, q.isReady ∧ LinkedIn L q t) →
    s.current = some t ∨ ∃! q : QName D, q.isReady ∧ LinkedIn L' q t

theorem schedRQ_isReady (pthFirstNative descr : D) (isBounded : Bool) :
    (schedRQ pthFirstNative descr isBounded).isReady = true := by
  unfold schedRQ
  split <;> rfl

theorem selectThread_of_empty (hempty : pqueueFirstNode h RQ = none) :
    selectThread pthFirstNative descr boundnative RQ h = ⟨h, none, none⟩ := by
  simp [selectThread, hempty]

theorem selectThread_of_first (hfirst : pqueueFirstNode h RQ = some t) :
    selectThread pthFirstNative descr boundnative RQ h =
      match boundnative t with
      | none => ⟨pqueueDeleteNode h t, some t, none⟩
      | some ds =>
        if ds = descr then ⟨pqueueDeleteNode h t, some t, none⟩
        else if ds = pthFirstNative then
          ⟨pqueuePrependSecondNode (pqueueDeleteNode h t) (.readyQueue pthFirstNative) t,
            none, some ds⟩
        else ⟨pqueueFavor (pqueueDeleteNode h t) t, none, some ds⟩ := by
  have hpos : pqueueTotal h RQ > 0 := by
    by_contra hz
    have hz' : (h.pqueue RQ).total = 0 := by
      unfold pqueueTotal at hz
      omega
    simp [pqueueFirstNode, hz'] at hfirst
  simp [selectThread, hpos, hfirst]

/-! ## The three ways out -/

theorem linkedIn_erase {t' : T} (hne : t' ≠ t) (ht' : LinkedIn L q t') (q' : QName D) (p : Nat) :
    LinkedIn (L.set q' p ((L q' p).erase t)) q t' := by
  obtain ⟨p', hp'⟩ := ht'
  refine ⟨p', ?_⟩
  rw [Levels.set_apply]
  split
  case isTrue he =>
    rw [← he.1, ← he.2]
    exact (List.mem_erase_of_ne hne).mpr hp'
  case isFalse => exact hp'

theorem bp_pqueueDeleteNode (hR : Represents h L) (hn : t ∈ L q p) :
    ((pqueueDeleteNode h t).node t).bp = none := by
  have hR' := pqueueDeleteNode_repr hR hn
  have hp : p < prioTotal := by
    rw [← ((hR.placed.mem q p t).mp hn).2.2]
    exact hR.placed.priority t
  have hOut := hR.placed.apart.not_linked_erase hn (hR.rings.nodup q hp)
  rwa [hR'.placed.linked_iff, not_not] at hOut

theorem keepsReady_of_selected (hR : Represents h L) (hn : t ∈ L q p) (w : Option D) :
    KeepsReady L ⟨pqueueDeleteNode h t, some t, w⟩ := by
  have hR' := pqueueDeleteNode_repr hR hn
  refine ⟨_, hR', ?_⟩
  rintro t' ⟨q', hq', ht'⟩
  by_cases hne : t' = t
  · exact Or.inl (congrArg some hne.symm)
  · exact Or.inr (existsUnique_of_linkedIn hR'.placed.apart hq' (linkedIn_erase hne ht' q p))

theorem keepsReady_of_prepended (hR : Represents h L) (hn : t ∈ L q p) (d : D) (w : Option D) :
    KeepsReady L ⟨pqueuePrependSecondNode (pqueueDeleteNode h t) (.readyQueue d) t, none, w⟩ := by
  have hR' := pqueuePrependSecondNode_repr (pqueueDeleteNode_repr hR hn)
    (bp_pqueueDeleteNode hR hn) (QName.readyQueue d)
  refine ⟨_, hR', ?_⟩
  rintro t' ⟨q', hq', ht'⟩
  right
  by_cases hne : t' = t
  · subst hne
    refine existsUnique_of_linkedIn hR'.placed.apart (q := .readyQueue d) rfl
      ⟨((pqueueDeleteNode h t').node t').priority, ?_⟩
    rw [Levels.set_self, Levels.insertSecond,
      (List.perm_insertIdx t' _ (Nat.min_le_right _ _)).mem_iff]
    exact List.mem_cons_self
  · refine existsUnique_of_linkedIn hR'.placed.apart hq' ?_
    obtain ⟨p', hp'⟩ := linkedIn_erase hne ht' q p
    refine ⟨p', ?_⟩
    rw [Levels.set_apply]
    split
    case isTrue he =>
      rw [Levels.insertSecond, (List.perm_insertIdx t _ (Nat.min_le_right _ _)).mem_iff,
        ← he.1, ← he.2]
      exact List.mem_cons_of_mem _ hp'
    case isFalse => exact hp'

theorem not_keepsReady_of_favored (hR : Represents h L) (hq : q.isReady) (hn : t ∈ L q p)
    (w : Option D) : ¬ KeepsReady L ⟨pqueueFavor (pqueueDeleteNode h t) t, none, w⟩ := by
  rw [pqueueFavor_unlinked (bp_pqueueDeleteNode hR hn)]
  rintro ⟨L', hR', hkeep⟩
  rcases hkeep t ⟨q, hq, p, hn⟩ with hcur | ⟨q', ⟨-, p', hm⟩, -⟩
  · cases hcur
  · have hbp := bp_pqueueDeleteNode hR hn
    rw [((hR'.placed.mem q' p' t).mp hm).1] at hbp
    cases hbp

theorem selectThread_keepsReady_of_isFirst (hR : Represents h L) (hq : RQ.isReady)
    (ht : IsFirst L RQ t) :
    KeepsReady L (selectThread pthFirstNative descr boundnative RQ h) ↔
      boundnative t = none ∨ boundnative t = some descr ∨
        boundnative t = some pthFirstNative := by
  rw [selectThread_of_first (pqueueFirstNode_of_isFirst hR ht)]
  obtain ⟨p, rest, hp, -⟩ := ht
  have hn : t ∈ L RQ p := by
    rw [hp]
    exact List.mem_cons_self
  rcases hb : boundnative t with _ | ds
  · exact iff_of_true (keepsReady_of_selected hR hn none) (by simp)
  · by_cases hd : ds = descr
    · simp only [hd, if_true]
      exact iff_of_true (keepsReady_of_selected hR hn none) (by simp)
    · by_cases hf : ds = pthFirstNative
      · subst hf
        simp only [hd, if_false, if_true]
        exact iff_of_true (keepsReady_of_prepended hR hn _ _) (by simp)
      · simp only [hd, hf, if_false]
        exact iff_of_false (not_keepsReady_of_favored hR hq hn _) (by simp [hd, hf])

/--
**When dispatch loses no thread.** One pass of the selection loop keeps every
ready thread exactly when the head of the ready queue, if there is one, is
unbound, bound to this native thread or bound to the first native thread.
-/
theorem selectThread_keeps_ready_iff (pthFirstNative descr : D) (isBounded : Bool)
    (boundnative : T → Option D) (h : Heap (QName D) T) (L : Levels (QName D) T)
    (hR : Represents h L) :
    KeepsReady L
        (selectThread pthFirstNative descr boundnative
          (schedRQ pthFirstNative descr isBounded) h) ↔
      ∀ t, IsFirst L (schedRQ pthFirstNative descr isBounded) t →
        boundnative t = none ∨ boundnative t = some descr ∨
          boundnative t = some pthFirstNative := by
  have hReady := schedRQ_isReady pthFirstNative descr isBounded
  rcases pqueueFirstNode_spec hR (schedRQ pthFirstNative descr isBounded) with
    ⟨hnone, hempty⟩ | ⟨t, -, hfirst⟩
  · -- an empty ready queue: nothing is unlinked
    rw [selectThread_of_empty hnone]
    refine iff_of_true ⟨L, hR, ?_⟩ ?_
    · rintro t ⟨q, hq, ht⟩
      exact Or.inr (existsUnique_of_linkedIn hR.placed.apart hq ht)
    · rintro t ⟨p, rest, hp, -⟩
      rw [hempty p] at hp
      cases hp
  · rw [selectThread_keepsReady_of_isFirst hR hReady hfirst]
    constructor
    · intro hb t' ht'
      rwa [isFirst_unique hfirst ht']
    · intro hall
      exact hall t hfirst

/-- Three native threads, numbered from the first; thread 7 is ready. -/
def oneReady : Heap (QName Nat) Nat := pqueueAppendNode initHeap .pthRQ 7

def oneReadyLevels : Levels (QName Nat) Nat := Levels.set (fun _ _ => []) .pthRQ 0 [7]

theorem oneReady_represents : Represents oneReady oneReadyLevels := by
  have hInit : Represents (initHeap : Heap (QName Nat) Nat) fun _ _ => [] :=
    initHeap_initialised.repr
  have hprio : ((initHeap : Heap (QName Nat) Nat).node 7).priority = 0 := rfl
  have hR := pqueueAppendNode_repr (n := 7) hInit rfl .pthRQ
  rw [hprio] at hR
  exact hR

theorem oneReady_isFirst : IsFirst oneReadyLevels .pthRQ 7 := by
  refine ⟨0, [], by simp [oneReadyLevels], fun p hp => ?_⟩
  have hp' : p ≠ 0 := by omega
  simp [oneReadyLevels, Levels.set_apply, hp']

theorem selectThread_keeps_ready_iff_unbound :
    Represents oneReady oneReadyLevels ∧
      (KeepsReady oneReadyLevels
          (selectThread 0 1 (fun _ => none) (schedRQ 0 1 false) oneReady) ↔
        ∀ t, IsFirst oneReadyLevels (schedRQ 0 1 false) t →
          (none : Option Nat) = none ∨ (none : Option Nat) = some 1 ∨
            (none : Option Nat) = some 0) :=
  ⟨oneReady_represents,
    selectThread_keeps_ready_iff 0 1 false (fun _ => none) _ _ oneReady_represents⟩

/-- Native thread 1 finds thread 7, which is bound to native thread 2: the
thread is unlinked and put back nowhere. -/
theorem selectThread_loses_bound_thread :
    Represents oneReady oneReadyLevels ∧
      ¬ KeepsReady oneReadyLevels
        (selectThread 0 1 (fun _ => some 2) (schedRQ 0 1 false) oneReady) := by
  refine ⟨oneReady_represents, ?_⟩
  have hRQ : schedRQ 0 1 false = .pthRQ := rfl
  rw [hRQ, selectThread_keepsReady_of_isFirst oneReady_represents rfl oneReady_isFirst]
  decide

end Ngpt.Sched
