import Ngpt.Lib.Transition
import Mathlib.Algebra.Group.Int.Defs
import Mathlib.Algebra.Group.Nat.Defs

/-!
# ngpt — the area of shared objects (`pth_sync.c`, `ngptc.c`)

The mutexes and condition variables that processes share live in the slots of a mapped
file. An object remembers the number of its slot in `mx_index` or `cn_index`, and its
destruction marks the slot with that number unused. `cn_index` is an `int` and `mx_index`
is a `short`, while `ngptc` accepts up to 64000 objects.

Of a slot the model has the `used` word and the two indices. The objects are a union:
on the machines that ngpt runs on `mx_index` lies within `cn_state`, and `cn_index` within
`mx_owner`. `o[i]` is defined for every integer `i`; outside the area it is memory of
somebody else. `live` is not in the code: the objects that have been handed out and not
destroyed.

Result: `slots_own_iff`.
-/

namespace Ngpt.Sync.Area

open Function Transition

/-- `MAX_SHARED_OBJECTS` of `ngptc`. -/
def maxSharedObjects : Nat := 64000

/-- The test of `ngptc` on the number of objects. -/
def ngptcAccepts (num : Nat) : Bool := !(num > maxSharedObjects)

/-- `PTH_SHARED_TYPE_MUTEX` and `PTH_SHARED_TYPE_COND`. -/
inductive Kind where
  | mutex
  | cond
  deriving DecidableEq, Repr

/-- `pth_shared_sync_t`. -/
structure Slot where
  used    : Bool
  mxIndex : Int
  cnIndex : Int
  deriving DecidableEq, Repr

/-- The array `o` and the memory around it. -/
abbrev Memory := Int → Slot

/-- The value of an `int` stored in a `short`. -/
def toShort (x : Int) : Int := (x + 2 ^ 15) % 2 ^ 16 - 2 ^ 15

/-- The number of slots that a `short` can hold. -/
def shortRange : Nat := 2 ^ 15

/-- `mx_index` or `cn_index`. -/
def Slot.index (x : Slot) : Kind → Int
  | .mutex => x.mxIndex
  | .cond => x.cnIndex

/-- `rmx->mx_index = indx` or `rcn->cn_index = indx`. -/
def Slot.setIndex (x : Slot) (k : Kind) (indx : Int) : Slot :=
  match k with
  | .mutex => { x with mxIndex := toShort indx }
  | .cond => { x with cnIndex := indx }

def Slot.setUsed (x : Slot) (used : Bool) : Slot := { x with used := used }

/-- The first store into the union after the mark: `mx_index = 0` or `cn_state = 0`. -/
def Slot.wipeFirst (x : Slot) : Slot := { x with mxIndex := 0 }

/-- The next one: `mx_owner = 0` or `cn_index = 0`. -/
def Slot.wipeSecond (x : Slot) : Slot := { x with cnIndex := 0 }

/-- Change one slot. -/
def Memory.modify (o : Memory) (i : Int) (f : Slot → Slot) : Memory := update o i (f (o i))

/-- The search for an unused slot, with `left` slots still to look at from `indx` on. -/
def search (o : Memory) : (left indx : Nat) → Option Nat
  | 0, _ => none
  | left + 1, indx => if (o indx).used then search o left (indx + 1) else some indx

/-- `pth_alloc_shared_mutex` and `pth_alloc_shared_cond` on `num` slots. -/
def pthAllocShared (num : Nat) (o : Memory) (k : Kind) : Memory × Option Nat :=
  match search o num 0 with
  | none => (o, none)
  | some indx => ((o.modify indx (·.setIndex k indx)).modify indx (·.setUsed true), some indx)

/-- `pth_mutex_destroy` and `pth_cond_destroy` of the shared object in slot `i`. -/
def pthDestroy (o : Memory) (k : Kind) (i : Nat) : Memory :=
  let o := o.modify ((o i).index k) (·.setUsed false)
  let o := o.modify i Slot.wipeFirst
  o.modify i Slot.wipeSecond

@[simp] theorem modify_self (o : Memory) (i : Int) (f : Slot → Slot) : o.modify i f i = f (o i) :=
  update_self ..

theorem modify_of_ne {i j : Int} (o : Memory) (f : Slot → Slot) (h : j ≠ i) :
    o.modify i f j = o j :=
  update_of_ne h ..

/-! ## Numbers in a short -/

theorem toShort_of_lt {i : Nat} (h : i < shortRange) : toShort i = i := by
  unfold shortRange at h
  unfold toShort
  omega

theorem toShort_ne_of_le {i : Nat} (h : shortRange ≤ i) : toShort i ≠ i := by
  unfold shortRange at h
  unfold toShort
  omega

theorem setIndex_index_mutex (x : Slot) (i : Int) :
    (x.setIndex .mutex i).index .mutex = toShort i := by
  -- left to the kernel, the comparison would count up to the powers in `toShort`
  generalize hy : toShort i = y
  unfold Slot.setIndex
  rw [hy]
  rfl

theorem setIndex_index {i : Nat} (x : Slot) (k : Kind) (h : k = .mutex → i < shortRange) :
    (x.setIndex k i).index k = i := by
  rcases k with _ | _
  · rw [setIndex_index_mutex]
    exact toShort_of_lt (h rfl)
  · rfl

/-! ## One call -/

variable {o : Memory}

theorem search_eq_some {left indx i : Nat} (h : search o left indx = some i) :
    indx ≤ i ∧ i < indx + left ∧ (o i).used = false ∧
      ∀ j, indx ≤ j → j < i → (o j).used = true := by
  induction left generalizing indx with
  | zero => cases h
  | succ left ih =>
    unfold search at h
    split at h
    case isTrue hused =>
      obtain ⟨hle, hlt, hfree, hbefore⟩ := ih h
      refine ⟨by omega, by omega, hfree, fun j hj hji => ?_⟩
      by_cases hj' : j = indx
      · rw [hj']
        exact hused
      · exact hbefore j (by omega) hji
    case isFalse hused =>
      cases h
      exact ⟨Nat.le_refl _, by omega, by simpa using hused, fun j hj hji => by omega⟩

theorem search_eq_none {left indx : Nat} (h : search o left indx = none) :
    ∀ j : Nat, indx ≤ j → j < indx + left → (o j).used = true := by
  induction left generalizing indx with
  | zero =>
    intro j hj hj'
    omega
  | succ left ih =>
    unfold search at h
    split at h
    case isTrue hused =>
      intro j hj hj'
      by_cases hji : j = indx
      · rw [hji]
        exact hused
      · exact ih h j (by omega) (by omega)
    case isFalse => cases h

/-- A destruction changes its own slot only, and the slot is unused then. -/
def DestroysOwn (o : Memory) (k : Kind) (i : Nat) : Prop :=
  (pthDestroy o k i i).used = false ∧ ∀ j : Int, j ≠ i → pthDestroy o k i j = o j

theorem destroysOwn_of_index {k : Kind} {i : Nat} (h : (o i).index k = i) : DestroysOwn o k i := by
  unfold DestroysOwn pthDestroy
  rw [h]
  refine ⟨?_, fun j hj => ?_⟩
  · simp only [modify_self]
    rfl
  · simp only [modify_of_ne _ _ hj]

theorem not_destroysOwn_of_index {k : Kind} {i : Nat} (hused : (o i).used = true)
    (h : (o i).index k ≠ i) : ¬ DestroysOwn o k i := by
  rintro ⟨hmark, -⟩
  have hkept : (pthDestroy o k i i).used = (o i).used := by
    unfold pthDestroy
    simp only [modify_self]
    show (o.modify ((o i).index k) _ (i : Int)).used = _
    rw [modify_of_ne _ _ (Ne.symm h)]
  rw [hkept, hused] at hmark
  cases hmark

/-! ## Sequences of calls -/

structure State where
  memory : Memory
  live   : Nat → Option Kind

inductive Action where
  | alloc (k : Kind)
  /-- destroy the object in slot `i` -/
  | destroy (i : Nat)
  deriving DecidableEq, Repr

def State.step (num : Nat) (s : State) : Action → Option State
  | .alloc k =>
    match pthAllocShared num s.memory k with
    | (o, none) => some { s with memory := o }
    | (o, some i) => some ⟨o, update s.live i (some k)⟩
  | .destroy i =>
    match s.live i with
    | none => none
    | some k => some ⟨pthDestroy s.memory k i, update s.live i none⟩

/-- The file as `ngptc` writes it, before any call. -/
structure Initial (num : Nat) (s : State) : Prop where
  unused : ∀ i : Nat, i < num → (s.memory i).used = false
  none   : ∀ i, s.live i = none

/-- Every live object has the number of its slot, and its destruction hits that slot. -/
def Own (s : State) : Prop :=
  ∀ i k, s.live i = some k → (s.memory i).index k = i ∧ DestroysOwn s.memory k i

/-- The invariant of a small area. -/
def Indexed (s : State) : Prop := ∀ i k, s.live i = some k → (s.memory i).index k = i

variable {num : Nat} {s s' : State} {a : Action}

theorem pthAllocShared_cases (num : Nat) (o : Memory) (k : Kind) :
    (search o num 0 = none ∧ pthAllocShared num o k = (o, none)) ∨
      ∃ i o', search o num 0 = some i ∧ pthAllocShared num o k = (o', some i) ∧
        o' i = ((o i).setIndex k i).setUsed true ∧ ∀ j : Int, j ≠ i → o' j = o j := by
  unfold pthAllocShared
  split
  case h_1 hnone => exact Or.inl ⟨hnone, rfl⟩
  case h_2 i hsome =>
    refine Or.inr ⟨i, _, hsome, rfl, ?_, fun j hj => ?_⟩
    · simp only [modify_self]
    · simp only [modify_of_ne _ _ hj]

theorem setIndex_used (x : Slot) (k : Kind) (indx : Int) : (x.setIndex k indx).used = x.used := by
  rcases k with _ | _ <;> simp only [Slot.setIndex]

theorem setUsed_index (x : Slot) (b : Bool) (k : Kind) : (x.setUsed b).index k = x.index k := by
  rcases k with _ | _ <;> rfl

theorem Indexed.step (hnum : num ≤ shortRange) (h : Indexed s) (hs : s.step num a = some s') :
    Indexed s' := by
  intro j k' hlive
  cases a with
  | alloc k =>
    simp only [State.step] at hs
    rcases pthAllocShared_cases num s.memory k with ⟨-, heq⟩ | ⟨i, o', hfound, heq, hself, hother⟩
    · simp only [heq, Option.some.injEq] at hs
      subst hs
      exact h j k' hlive
    · simp only [heq, Option.some.injEq] at hs
      subst hs
      show (o' j).index k' = j
      by_cases hji : j = i
      · subst hji
        have hk : k' = k := by simpa using hlive.symm
        have hj : j < shortRange := by
          have := (search_eq_some hfound).2.1
          omega
        rw [hself, setUsed_index, hk]
        exact setIndex_index _ k fun _ => hj
      · rw [hother j (by omega)]
        exact h j k' ((update_of_ne hji _ _).symm.trans hlive)
  | destroy i =>
    simp only [State.step] at hs
    split at hs
    case h_1 => cases hs
    case h_2 k hk =>
      cases hs
      have hji : j ≠ i := by
        rintro rfl
        simp at hlive
      have hown := destroysOwn_of_index (h i k hk)
      show (pthDestroy s.memory k i j).index k' = j
      rw [hown.2 j (by omega)]
      exact h j k' ((update_of_ne hji _ _).symm.trans hlive)

theorem Initial.indexed (h : Initial num s) : Indexed s := by
  intro i k hlive
  rw [h.none i] at hlive
  cases hlive

/-! ## A large area -/

/-- The first `m` slots are in use. -/
def Filled (num m : Nat) (o : Memory) : Prop :=
  ∀ j : Nat, j < num → ((o j).used = true ↔ j < m)

theorem Filled.search {m : Nat} (h : Filled num m o) (hm : m < num) :
    Area.search o num 0 = some m := by
  rcases hs : Area.search o num 0 with _ | i
  · have hused := search_eq_none hs m (Nat.zero_le m) (by omega)
    exact absurd ((h m hm).mp hused) (Nat.lt_irrefl m)
  · obtain ⟨-, hlt, hfree, hbefore⟩ := search_eq_some hs
    have hi : ¬ i < m := by
      rw [← h i (by omega), hfree]
      exact Bool.false_ne_true
    have him : ¬ m < i := by
      intro hmi
      exact absurd ((h m hm).mp (hbefore m (Nat.zero_le m) hmi)) (Nat.lt_irrefl m)
    exact congrArg some (by omega)

theorem Filled.alloc {m : Nat} (h : Filled num m s.memory) (hm : m < num) :
    ∃ s', s.step num (.alloc .mutex) = some s' ∧ Filled num (m + 1) s'.memory ∧
      s'.live m = some .mutex ∧ (s'.memory m).used = true ∧
      (s'.memory m).index .mutex = toShort m := by
  rcases pthAllocShared_cases num s.memory .mutex with ⟨hnone, -⟩ |
    ⟨i, o', hfound, heq, hself, hother⟩
  · rw [h.search hm] at hnone
    cases hnone
  · rw [h.search hm] at hfound
    cases hfound
    refine ⟨⟨o', update s.live m (some .mutex)⟩, by simp only [State.step, heq],
      fun j hj => ?_, update_self .., ?_, ?_⟩
    · show (o' j).used = true ↔ _
      by_cases hjm : j = m
      · subst hjm
        rw [hself]
        exact iff_of_true rfl (by omega)
      · rw [hother j (by omega), h j hj]
        omega
    · show (o' m).used = true
      rw [hself]
      rfl
    · show (o' m).index .mutex = toShort m
      rw [hself, setUsed_index]
      exact setIndex_index_mutex ..

theorem exists_filled (s : State) (h : Initial num s) (m : Nat) (hm : m ≤ num) :
    ∃ s', Reachable (State.step num) Always (Initial num) s' ∧ Filled num m s'.memory := by
  induction m with
  | zero =>
    refine ⟨s, .init h, fun j hj => ?_⟩
    rw [h.unused j hj]
    simp
  | succ m ih =>
    obtain ⟨s₁, hreach, hfilled⟩ := ih (by omega)
    obtain ⟨s₂, hstep, hfilled', -⟩ := hfilled.alloc (by omega)
    exact ⟨s₂, hreach.step trivial hstep, hfilled'⟩

theorem exists_not_own (s : State) (h : Initial num s) (hnum : shortRange < num) :
    ∃ s', Reachable (State.step num) Always (Initial num) s' ∧
      s'.live shortRange = some .mutex ∧ (s'.memory shortRange).index .mutex ≠ shortRange ∧
      ¬ DestroysOwn s'.memory .mutex shortRange := by
  obtain ⟨s₁, hreach, hfilled⟩ := exists_filled s h shortRange (by omega)
  obtain ⟨s₂, hstep, -, hlive, hused, hindex⟩ := hfilled.alloc hnum
  have hne : (s₂.memory shortRange).index .mutex ≠ shortRange := by
    rw [hindex]
    exact toShort_ne_of_le (Nat.le_refl _)
  exact ⟨s₂, hreach.step trivial hstep, hlive, hne, not_destroysOwn_of_index hused hne⟩

/-- The memory as `ngptc` writes it. -/
def initState : State := ⟨fun _ => ⟨false, 0, 0⟩, fun _ => none⟩

theorem initState_initial (num : Nat) : Initial num initState := ⟨fun _ _ => rfl, fun _ => rfl⟩

/-- **When a slot number survives.** In every sequence of allocations and destructions each
live object has the number of its slot, and its destruction marks that slot only, exactly when
there are at most 2^15 slots. -/
theorem slots_own_iff (num : Nat) :
    (∀ s, Reachable (State.step num) Always (Initial num) s → Own s) ↔ num ≤ shortRange := by
  constructor
  · intro hall
    by_contra hlarge
    obtain ⟨s, hreach, hlive, hne, -⟩ :=
      exists_not_own initState (initState_initial num) (by omega)
    exact hne (hall s hreach shortRange .mutex hlive).1
  · intro hsmall s hs i k hlive
    have hI : Indexed s :=
      hs.invariant (fun _ h => h.indexed) fun _ _ _ hI _ h => hI.step hsmall h
    exact ⟨hI i k hlive, destroysOwn_of_index (hI i k hlive)⟩

/-- `ngptc --size 64000`: the mutex in slot 32768 has another number, and its destruction
leaves the slot in use. -/
theorem short_index_wraps : ngptcAccepts 64000 = true ∧ shortRange = 32768 ∧
    ∃ s, Reachable (State.step 64000) Always (Initial 64000) s ∧
      s.live shortRange = some .mutex ∧ (s.memory shortRange).index .mutex ≠ shortRange ∧
      ¬ DestroysOwn s.memory .mutex shortRange ∧ ¬ Own s := by
  refine ⟨by decide, rfl, ?_⟩
  obtain ⟨s, hreach, hlive, hne, hdestroy⟩ :=
    exists_not_own initState (initState_initial 64000) (by decide)
  exact ⟨s, hreach, hlive, hne, hdestroy, fun hown => hne (hown _ _ hlive).1⟩

end Ngpt.Sync.Area
