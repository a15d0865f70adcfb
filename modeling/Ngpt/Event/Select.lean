import Mathlib.Algebra.Ring.Nat
import Mathlib.Data.List.Forall2
import Ngpt.Event.FdSets

/-!
# ngpt — select events (`pth_util.c`, `pth_sched.c`)

Threads that wait for sets of descriptors: the event manager merges the sets of all of them, calls
`select` once, and then tests and filters the sets of each thread against what `select` has left.
The sets are objects of the threads, and `O` are their addresses.

Result: `select_demultiplexed`.
-/

namespace Ngpt.FdSets

variable {O : Type}

/-- An event of type `PTH_EVENT_SELECT`. `n` is what its pointer `n` points to, none for NULL. -/
structure SelectEvent (O : Type) where
  nfd      : Int
  fds      : Mode → Option O
  n        : Option Int
  occurred : Bool

/-- The round of `pth_util_fds_merge` for a descriptor `s` and one of the three sets. -/
def mergeAt (H : O → Nat → Bool) (ifds : Mode → Option O) (s : Nat) (ofds : Mode → Nat → Bool)
    (m : Mode) : Mode → Nat → Bool :=
  match ifds m with
  | none => ofds
  | some o => if H o s then put ofds m s true else ofds

def pthUtilFdsMerge (H : O → Nat → Bool) (nfd : Int) (ifds : Mode → Option O)
    (ofds : Mode → Nat → Bool) : Mode → Nat → Bool :=
  (List.range nfd.toNat).foldl (fun ofds s => modes.foldl (mergeAt H ifds s) ofds) ofds

def testAt (H : O → Nat → Bool) (ifds : Mode → Option O) (ofds : Mode → Nat → Bool) (s : Nat)
    (m : Mode) : Bool :=
  match ifds m with
  | none => false
  | some o => H o s && ofds m s

def pthUtilFdsTest (H : O → Nat → Bool) (nfd : Int) (ifds : Mode → Option O)
    (ofds : Mode → Nat → Bool) : Bool :=
  (List.range nfd.toNat).any fun s => modes.any (testAt H ifds ofds s)

/-- The first pass, for an event. -/
def askSelect (H : O → Nat → Bool) (q : Request) (ev : SelectEvent O) : Request :=
  if ev.occurred then q
  else
    { sets := pthUtilFdsMerge H ev.nfd ev.fds q.sets
      fdmax := if q.fdmax < ev.nfd - 1 then ev.nfd - 1 else q.fdmax }

/-! ## The loops -/

/-- The bit of a descriptor in one of the sets of an event, none of which it has if it is NULL. -/
def bit (H : O → Nat → Bool) (ifds : Mode → Option O) (m : Mode) (fd : Nat) : Bool :=
  match ifds m with
  | none => false
  | some o => H o fd

variable {H : O → Nat → Bool} {ifds : Mode → Option O} {ofds sets ready : Mode → Nat → Bool}
  {m m' : Mode} {fd s : Nat} {nfd : Int} {ev : SelectEvent O}

theorem mergeAt_eq (H : O → Nat → Bool) (ifds : Mode → Option O) (s : Nat)
    (ofds : Mode → Nat → Bool) (m : Mode) :
    mergeAt H ifds s ofds m = if bit H ifds m s then put ofds m s true else ofds := by
  cases hm : ifds m <;> simp [mergeAt, bit, hm]

theorem mergeAt_iff : mergeAt H ifds s ofds m m' fd = true ↔
    ofds m' fd = true ∨ (s = fd ∧ m = m') ∧ bit H ifds m s = true := by
  rw [mergeAt_eq]
  split
  case isTrue hset => rw [put_true_iff, and_iff_left hset]
  case isFalse hset => rw [or_iff_left fun h => hset h.2]

/-- The loop of `pth_util_fds_merge`. -/
theorem merge_iff : pthUtilFdsMerge H nfd ifds ofds m fd = true ↔
    ofds m fd = true ∨ (fd : Int) < nfd ∧ bit H ifds m fd = true := by
  have hround : ∀ (ofds : Mode → Nat → Bool) (s : Nat),
      modes.foldl (mergeAt H ifds s) ofds m fd = true ↔
        ofds m fd = true ∨ s = fd ∧ bit H ifds m s = true := by
    intro ofds s
    simp only [modes, List.foldl_cons, List.foldl_nil, mergeAt_iff]
    cases m <;> simp
  have hloop : ∀ k, (List.range k).foldl (fun ofds s => modes.foldl (mergeAt H ifds s) ofds) ofds
      m fd = true ↔ ofds m fd = true ∨ fd < k ∧ bit H ifds m fd = true := by
    intro k
    induction k with
    | zero => simp
    | succ k ih =>
      have hlast : k = fd ∧ bit H ifds m k = true ↔ fd = k ∧ bit H ifds m fd = true :=
        ⟨fun h => ⟨h.1.symm, h.1 ▸ h.2⟩, fun h => ⟨h.1.symm, h.1 ▸ h.2⟩⟩
      rw [List.range_succ, List.foldl_append, List.foldl_cons, List.foldl_nil, hround, ih, hlast,
        Nat.lt_succ_iff_lt_or_eq, or_and_right, or_assoc]
  rw [pthUtilFdsMerge, hloop, Int.lt_toNat]

/-- The loop of `pth_util_fds_test`. -/
theorem test_iff : pthUtilFdsTest H nfd ifds ofds = true ↔
    ∃ m fd, ((fd : Nat) : Int) < nfd ∧ bit H ifds m fd = true ∧ ofds m fd = true := by
  have htest : ∀ s m, testAt H ifds ofds s m = (bit H ifds m s && ofds m s) := by
    intro s m
    unfold testAt bit
    split <;> simp
  simp only [pthUtilFdsTest, List.any_eq_true, List.mem_range, htest, Bool.and_eq_true,
    Int.lt_toNat]
  constructor
  · rintro ⟨fd, hfd, m, -, hbits⟩
    exact ⟨m, fd, hfd, hbits⟩
  · rintro ⟨m, fd, hfd, hbits⟩
    exact ⟨fd, hfd, m, mem_modes m, hbits⟩

/-! ## What a pass is for -/

def SelectEvent.Owns (ev : SelectEvent O) (o : O) : Prop := ∃ m, ev.fds m = some o

/-- A descriptor that the event asks for is ready. -/
def SelectEvent.Ready (ready : Mode → Nat → Bool) (H : O → Nat → Bool) (ev : SelectEvent O) :
    Prop :=
  ∃ m fd, ((fd : Nat) : Int) < ev.nfd ∧ bit H ev.fds m fd = true ∧ ready m fd = true

/-- The number of descriptors below `nfd` that are ready, set by set. -/
def SelectEvent.readyCount (ready : Mode → Nat → Bool) (H : O → Nat → Bool) (ev : SelectEvent O) :
    Nat :=
  (modes.map fun m => (List.range ev.nfd.toNat).countP fun fd =>
    bit H ev.fds m fd && ready m fd).sum

/-- What the event manager makes of an event and of its sets. `H` are the sets before, `H'` those
after it. -/
structure Served (ready : Mode → Nat → Bool) (H H' : O → Nat → Bool) (ev ev' : SelectEvent O) :
    Prop where
  occurred : ev'.occurred = true ↔ ev.Ready ready H
  below : ev'.occurred = true → ∀ m o, ev.fds m = some o → ∀ fd : Nat, (fd : Int) < ev.nfd →
    H' o fd = (H o fd && ready m fd)
  above : ∀ o, ev.Owns o → ∀ fd : Nat, ev.nfd ≤ fd → H' o fd = H o fd
  count : ev'.occurred = true → ev'.n = ev.n.map fun _ => (ev.readyCount ready H : Int)
  untouched : ev'.occurred = false → ev' = ev ∧ ∀ o, ev.Owns o → H' o = H o

theorem bit_congr {H₁ H₂ : O → Nat → Bool}
    (h : ∀ o, ev.Owns o → H₁ o = H₂ o) : bit H₁ ev.fds = bit H₂ ev.fds := by
  funext m fd
  unfold bit
  split
  · rfl
  case h_2 o hm => rw [h o ⟨m, hm⟩]

theorem Served.congr {H₁ H₁' H₂ H₂' : O → Nat → Bool} {ev ev' : SelectEvent O}
    (h : ∀ o, ev.Owns o → H₁ o = H₂ o) (h' : ∀ o, ev.Owns o → H₁' o = H₂' o)
    (hserved : Served ready H₁ H₁' ev ev') : Served ready H₂ H₂' ev ev' where
  occurred := by
    have hocc := hserved.occurred
    rwa [SelectEvent.Ready, bit_congr h] at hocc
  below := by
    intro hocc m o hm fd hfd
    rw [← h o ⟨m, hm⟩, ← h' o ⟨m, hm⟩]
    exact hserved.below hocc m o hm fd hfd
  above := by
    intro o ho fd hfd
    rw [← h o ho, ← h' o ho]
    exact hserved.above o ho fd hfd
  count := by
    have hcount := hserved.count
    rwa [SelectEvent.readyCount, bit_congr h] at hcount
  untouched := by
    intro hocc
    refine ⟨(hserved.untouched hocc).1, fun o ho => ?_⟩
    rw [← h o ho, ← h' o ho]
    exact (hserved.untouched hocc).2 o ho

/-- What `select` has left of the descriptors that the event asks for are those that are ready. -/
def Exact (sets ready : Mode → Nat → Bool) (H : O → Nat → Bool) (ev : SelectEvent O) : Prop :=
  ∀ m fd, ((fd : Nat) : Int) < ev.nfd → bit H ev.fds m fd = true → sets m fd = ready m fd

theorem test_ready (hexact : Exact sets ready H ev) :
    pthUtilFdsTest H ev.nfd ev.fds sets = true ↔ ev.Ready ready H := by
  rw [test_iff]
  refine exists₂_congr fun m fd => and_congr_right fun hfd => and_congr_right fun hbit => ?_
  rw [hexact m fd hfd hbit]

/-! ## The first pass -/

def SelectEvent.Asks (H : O → Nat → Bool) (m : Mode) (fd : Nat) (ev : SelectEvent O) : Prop :=
  ev.occurred = false ∧ (fd : Int) < ev.nfd ∧ bit H ev.fds m fd = true

theorem askSelect_iff (q : Request) (ev : SelectEvent O) :
    (askSelect H q ev).sets m fd = true ↔ q.sets m fd = true ∨ ev.Asks H m fd := by
  unfold askSelect SelectEvent.Asks
  split
  case isTrue hocc => simp [hocc]
  case isFalse hocc =>
    rw [Bool.not_eq_true] at hocc
    rw [merge_iff, hocc]
    simp

theorem askSelect_bounded {q : Request} (hq : q.Bounded) (ev : SelectEvent O) :
    (askSelect H q ev).Bounded := by
  intro m fd hset
  have hfdmax : q.fdmax ≤ (askSelect H q ev).fdmax ∧
      (ev.occurred = false → ev.nfd - 1 ≤ (askSelect H q ev).fdmax) := by
    unfold askSelect
    split
    case isTrue hocc => simp [hocc]
    case isFalse =>
      dsimp only
      split <;> exact ⟨by omega, fun _ => by omega⟩
  rcases (askSelect_iff q ev).mp hset with hold | ⟨hocc, hlt, -⟩
  · exact Int.le_trans (hq m fd hold) hfdmax.1
  · have hle := hfdmax.2 hocc
    omega

theorem poll_exact {dopoll : Bool} {sigpipe : Nat} {evs : List (SelectEvent O)}
    (hev : ev ∈ evs) (hnew : ev.occurred = false) (hpipe : ∀ m, bit H ev.fds m sigpipe = false) :
    Exact (poll sigpipe dopoll ready (evs.foldl (askSelect H) .empty)) ready H ev := by
  intro m fd hfd hbit
  have hbounded : (evs.foldl (askSelect H) .empty).Bounded :=
    foldl_bounded (fun _ ev hq => askSelect_bounded hq ev) empty_bounded evs
  have hasks : (evs.foldl (askSelect H) .empty).sets m fd = true :=
    (foldl_asks askSelect_iff _ _).mpr (.inr ⟨ev, hev, hnew, hfd, hbit⟩)
  have hshown : ¬ Hidden sigpipe dopoll m fd := by
    rintro ⟨-, rfl, -⟩
    rw [hpipe m] at hbit
    cases hbit
  rw [Bool.eq_iff_iff, poll_iff hbounded, and_iff_right (.inr hasks), and_iff_left hshown]

/-! ## The second pass -/

variable [DecidableEq O]

/-- The round of `pth_util_fds_select` for a descriptor and one of the sets. -/
def selectAt (ifds : Mode → Option O) (ofds : Mode → Nat → Bool) (s : Nat)
    (r : (O → Nat → Bool) × Nat) (m : Mode) : (O → Nat → Bool) × Nat :=
  match ifds m with
  | none => r
  | some o =>
    if r.1 o s then
      if ¬ ofds m s then (Function.update r.1 o (Function.update (r.1 o) s false), r.2)
      else (r.1, r.2 + 1)
    else r

def pthUtilFdsSelect (H : O → Nat → Bool) (nfd : Int) (ifds : Mode → Option O)
    (ofds : Mode → Nat → Bool) : (O → Nat → Bool) × Nat :=
  (List.range nfd.toNat).foldl (fun r s => modes.foldl (selectAt ifds ofds s) r) (H, 0)

/-- The second pass, for an event. -/
def late (sets : Mode → Nat → Bool) (H : O → Nat → Bool) (ev : SelectEvent O) :
    (O → Nat → Bool) × SelectEvent O :=
  if ¬ ev.occurred ∧ pthUtilFdsTest H ev.nfd ev.fds sets then
    let r := pthUtilFdsSelect H ev.nfd ev.fds sets
    (r.1, { ev with n := ev.n.map fun _ => (r.2 : Int), occurred := true })
  else (H, ev)

def secondPass (sets : Mode → Nat → Bool) :
    (O → Nat → Bool) → List (SelectEvent O) → (O → Nat → Bool) × List (SelectEvent O)
  | H, [] => (H, [])
  | H, ev :: evs =>
    let r := late sets H ev
    let r' := secondPass sets r.1 evs
    (r'.1, r.2 :: r'.2)

/-- A pass of the event manager over the events of the waiting threads. -/
def selectManager (dopoll : Bool) (sigpipe : Nat) (ready : Mode → Nat → Bool)
    (H : O → Nat → Bool) (evs : List (SelectEvent O)) :
    (O → Nat → Bool) × List (SelectEvent O) :=
  secondPass (poll sigpipe dopoll ready (evs.foldl (askSelect H) .empty)) H evs

theorem selectAt_heap (r : (O → Nat → Bool) × Nat) (o : O) :
    (selectAt ifds ofds s r m).1 o fd = true ↔
      r.1 o fd = true ∧ (fd = s → ifds m = some o → ofds m s = true) := by
  cases hm : ifds m with
  | none => simp [selectAt, hm]
  | some o' =>
    by_cases hhere : fd = s ∧ o' = o
    · obtain ⟨rfl, rfl⟩ := hhere
      cases hset : r.1 o' fd <;> cases hout : ofds m fd <;> simp [selectAt, hm, hset, hout]
    · have hkeep : Function.update r.1 o' (Function.update (r.1 o') s false) o fd = r.1 o fd := by
        by_cases ho : o = o'
        · subst ho
          simp [show fd ≠ s from fun hfd => hhere ⟨hfd, rfl⟩]
        · simp [ho]
      rw [and_iff_left fun hfd ho => absurd ⟨hfd, Option.some.inj ho⟩ hhere]
      simp only [selectAt, hm]
      split
      · split <;> simp [hkeep]
      · rfl

theorem selectAt_count (r : (O → Nat → Bool) × Nat) :
    (selectAt ifds ofds s r m).2 = r.2 + if bit r.1 ifds m s && ofds m s then 1 else 0 := by
  cases hm : ifds m with
  | none => simp [selectAt, bit, hm]
  | some o =>
    cases hset : r.1 o s <;> cases hout : ofds m s <;> simp [selectAt, bit, hm, hset, hout]

/-- The three sets are different objects. -/
def Distinct (ifds : Mode → Option O) : Prop :=
  ∀ m m' o, ifds m = some o → ifds m' = some o → m = m'

theorem selectAt_bit (hifds : Distinct ifds) (hne : m ≠ m') (r : (O → Nat → Bool) × Nat) :
    bit (selectAt ifds ofds s r m).1 ifds m' s = bit r.1 ifds m' s := by
  cases hm' : ifds m' with
  | none => simp [bit, hm']
  | some o =>
    simp only [bit, hm']
    rw [Bool.eq_iff_iff, selectAt_heap, and_iff_left]
    intro _ hm
    exact absurd (hifds m m' o hm hm') hne

theorem filterAt_heap (r : (O → Nat → Bool) × Nat) (o : O) :
    (modes.foldl (selectAt ifds ofds s) r).1 o fd = true ↔
      r.1 o fd = true ∧ (fd = s → ∀ m, ifds m = some o → ofds m s = true) := by
  simp only [modes, List.foldl_cons, List.foldl_nil, selectAt_heap, and_assoc]
  refine and_congr_right fun _ => ?_
  constructor
  · rintro ⟨hr, hw, he⟩ hfd m
    cases m with
    | readable => exact hr hfd
    | writeable => exact hw hfd
    | exception => exact he hfd
  · exact fun h => ⟨fun hfd => h hfd _, fun hfd => h hfd _, fun hfd => h hfd _⟩

theorem filterAt_count (hifds : Distinct ifds) (r : (O → Nat → Bool) × Nat) :
    (modes.foldl (selectAt ifds ofds s) r).2 =
      r.2 + modes.countP fun m => bit r.1 ifds m s && ofds m s := by
  simp only [modes, List.foldl_cons, List.foldl_nil, selectAt_count, List.countP_cons,
    List.countP_nil]
  rw [selectAt_bit hifds (show Mode.writeable ≠ .exception by decide),
    selectAt_bit hifds (show Mode.readable ≠ .exception by decide),
    selectAt_bit hifds (show Mode.readable ≠ .writeable by decide)]
  omega

/-- The loop of `pth_util_fds_select` over the descriptors below `k`. -/
def filterTo (ifds : Mode → Option O) (ofds : Mode → Nat → Bool) (H : O → Nat → Bool) (k : Nat) :
    (O → Nat → Bool) × Nat :=
  (List.range k).foldl (fun r s => modes.foldl (selectAt ifds ofds s) r) (H, 0)

theorem filterTo_succ (k : Nat) : filterTo ifds ofds H (k + 1) =
    modes.foldl (selectAt ifds ofds k) (filterTo ifds ofds H k) := by
  rw [filterTo, List.range_succ, List.foldl_append, List.foldl_cons, List.foldl_nil, filterTo]

/-- The loop of `pth_util_fds_select` clears the bits that are not in the other sets. -/
theorem filterTo_heap (k : Nat) (o : O) : (filterTo ifds ofds H k).1 o fd = true ↔
    H o fd = true ∧ (fd < k → ∀ m, ifds m = some o → ofds m fd = true) := by
  induction k with
  | zero => simp [filterTo]
  | succ k ih =>
    rw [filterTo_succ, filterAt_heap, ih, and_assoc]
    refine and_congr_right fun _ => ?_
    constructor
    · rintro ⟨hlt, heq⟩ hfd
      rcases Nat.lt_succ_iff_lt_or_eq.mp hfd with hfd | rfl
      · exact hlt hfd
      · exact heq rfl
    · intro h
      refine ⟨fun hfd => h (by omega), ?_⟩
      rintro rfl
      exact h (by omega)

/-- The loop of `pth_util_fds_select` counts the bits that stay. -/
theorem filterTo_count (hifds : Distinct ifds) (k : Nat) :
    (filterTo ifds ofds H k).2 = bits (fun m fd => bit H ifds m fd && ofds m fd) k := by
  induction k with
  | zero => rfl
  | succ k ih =>
    -- the rounds so far have not changed the bits of the descriptor `k`
    have hsame : ∀ m, bit (filterTo ifds ofds H k).1 ifds m k = bit H ifds m k := by
      intro m
      unfold bit
      split
      · rfl
      · rw [Bool.eq_iff_iff, filterTo_heap, and_iff_left]
        exact fun hlt => absurd hlt (Nat.lt_irrefl k)
    simp only [filterTo_succ, filterAt_count hifds, ih, bits, hsame]

theorem bits_eq_sum (k : Nat) :
    bits sets k = (modes.map fun m => (List.range k).countP (sets m)).sum := by
  induction k with
  | zero => simp [bits]
  | succ k ih =>
    simp only [bits, ih, modes, List.map_cons, List.map_nil, List.sum_cons, List.sum_nil,
      List.range_succ, List.countP_append, List.countP_cons, List.countP_nil]
    omega

theorem select_heap (o : O) : (pthUtilFdsSelect H nfd ifds ofds).1 o fd = true ↔
    H o fd = true ∧ ((fd : Int) < nfd → ∀ m, ifds m = some o → ofds m fd = true) := by
  rw [← Int.lt_toNat]
  exact filterTo_heap nfd.toNat o

theorem select_count (hifds : Distinct ifds) : (pthUtilFdsSelect H nfd ifds ofds).2 =
    (modes.map fun m => (List.range nfd.toNat).countP fun fd =>
      bit H ifds m fd && ofds m fd).sum := by
  rw [← bits_eq_sum]
  exact filterTo_count hifds nfd.toNat

theorem select_served (hexact : Exact sets ready H ev)
    (hifds : Distinct ev.fds) (hready : ev.Ready ready H) :
    Served ready H (pthUtilFdsSelect H ev.nfd ev.fds sets).1 ev
      { ev with n := ev.n.map fun _ => ((pthUtilFdsSelect H ev.nfd ev.fds sets).2 : Int)
                occurred := true } where
  occurred := iff_of_true rfl hready
  below := by
    intro _ m o hm fd hfd
    have hsets : H o fd = true → sets m fd = ready m fd := by
      intro hset
      exact hexact m fd hfd (by rw [bit, hm]; exact hset)
    rw [Bool.eq_iff_iff, select_heap, Bool.and_eq_true]
    refine and_congr_right fun hset => ?_
    rw [← hsets hset]
    constructor
    · exact fun h => h hfd m hm
    · intro h _ m' hm'
      rwa [hifds m' m o hm' hm]
  above := by
    intro o _ fd hfd
    rw [Bool.eq_iff_iff, select_heap, and_iff_left]
    intro hlt
    omega
  count := by
    intro _
    have hcount : (pthUtilFdsSelect H ev.nfd ev.fds sets).2 = ev.readyCount ready H := by
      rw [select_count hifds, SelectEvent.readyCount]
      congr 1
      refine List.map_congr_left fun m _ => List.countP_congr fun fd hfd => ?_
      rw [List.mem_range, Int.lt_toNat] at hfd
      rw [Bool.and_eq_true, Bool.and_eq_true]
      refine and_congr_right fun hbit => ?_
      rw [hexact m fd hfd hbit]
    simp only [hcount]
  untouched := fun h => by cases h

/-- The second pass, for one event. -/
theorem late_served (hexact : Exact sets ready H ev) (hifds : Distinct ev.fds)
    (hnew : ev.occurred = false) :
    Served ready H (late sets H ev).1 ev (late sets H ev).2 ∧
      ∀ o, ¬ ev.Owns o → (late sets H ev).1 o = H o := by
  unfold late
  split
  case isTrue h =>
    refine ⟨select_served hexact hifds ((test_ready hexact).mp h.2), fun o ho => ?_⟩
    funext fd
    rw [Bool.eq_iff_iff, select_heap, and_iff_left]
    exact fun _ m hm => absurd ⟨m, hm⟩ ho
  case isFalse h =>
    have hidle : ¬ ev.Ready ready H := fun hready =>
      h ⟨by simp [hnew], (test_ready hexact).mpr hready⟩
    refine ⟨⟨iff_of_false (by simp [hnew]) hidle, ?_, fun _ _ _ _ => rfl, ?_,
      fun _ => ⟨rfl, fun _ _ => rfl⟩⟩, fun _ _ => rfl⟩
    · exact fun hocc => absurd hocc (by simp [hnew])
    · exact fun hocc => absurd hocc (by simp [hnew])

/-- The sets of the events are different objects. -/
structure Separate (evs : List (SelectEvent O)) : Prop where
  own : ∀ ev ∈ evs, Distinct ev.fds
  others : evs.Pairwise fun ev ev' => ∀ o, ev.Owns o → ¬ ev'.Owns o

theorem secondPass_served {evs : List (SelectEvent O)} (hexact : ∀ ev ∈ evs, Exact sets ready H ev)
    (hsep : Separate evs) (hnew : ∀ ev ∈ evs, ev.occurred = false) :
    List.Forall₂ (Served ready H (secondPass sets H evs).1) evs (secondPass sets H evs).2 ∧
      ∀ o, (∀ ev ∈ evs, ¬ ev.Owns o) → (secondPass sets H evs).1 o = H o := by
  induction evs generalizing H with
  | nil => exact ⟨.nil, fun _ _ => rfl⟩
  | cons ev evs ih =>
    obtain ⟨hown, hothers⟩ := hsep
    rw [List.forall_mem_cons] at hexact hown hnew
    rw [List.pairwise_cons] at hothers
    obtain ⟨hhead, hframe⟩ := late_served hexact.1 hown.1 hnew.1
    -- the other events have not seen the first one
    have hrest : ∀ ev' ∈ evs, ∀ o, ev'.Owns o → (late sets H ev).1 o = H o :=
      fun ev' hev' o ho => hframe o fun ho' => hothers.1 ev' hev' o ho' ho
    have hexact' : ∀ ev' ∈ evs, Exact sets ready (late sets H ev).1 ev' := by
      intro ev' hev'
      rw [Exact, bit_congr (hrest ev' hev')]
      exact hexact.2 ev' hev'
    obtain ⟨htail, htframe⟩ := ih hexact' ⟨hown.2, hothers.2⟩ hnew.2
    refine ⟨.cons ?_ ?_, ?_⟩
    · exact hhead.congr (fun _ _ => rfl) fun o ho =>
        (htframe o fun ev' hev' ho' => hothers.1 ev' hev' o ho ho').symm
    · refine ((List.forall₂_and_left _ _).mpr ⟨hrest, htail⟩).imp fun ev' _ h => ?_
      exact h.2.congr h.1 fun _ _ => rfl
    · intro o ho
      rw [List.forall_mem_cons] at ho
      exact (htframe o ho.2).trans (hframe o ho.1)

/-- **Select events.** For any events with any `nfd` and sets that are different objects, none
with the signal pipe, and any ready descriptors: a pass marks an event just if a descriptor
below its `nfd` is ready in a mode it asks for. Its sets then have what was asked for and is
ready below `nfd`, `*n` is their size there, and all else is left alone. -/
theorem select_demultiplexed (dopoll : Bool) (sigpipe : Nat) (ready : Mode → Nat → Bool)
    (H : O → Nat → Bool) (evs : List (SelectEvent O)) (hsep : Separate evs)
    (hpipe : ∀ ev ∈ evs, ∀ m, bit H ev.fds m sigpipe = false)
    (hnew : ∀ ev ∈ evs, ev.occurred = false) :
    List.Forall₂ (Served ready H (selectManager dopoll sigpipe ready H evs).1) evs
        (selectManager dopoll sigpipe ready H evs).2 ∧
      ∀ o, (∀ ev ∈ evs, ¬ ev.Owns o) → (selectManager dopoll sigpipe ready H evs).1 o = H o :=
  secondPass_served (fun ev hev => poll_exact hev (hnew ev hev) (hpipe ev hev)) hsep hnew

/-- Threads that wait for descriptors below 6 and below 8, to read and to read or write. -/
def twoReaders : List (SelectEvent Nat) :=
  [⟨6, fun m => if m = .readable then some 10 else none, some 0, false⟩,
   ⟨8, fun m => if m = .readable then some 11 else if m = .writeable then some 12 else none,
    none, false⟩]

/-- Both have descriptor 5 in all of their sets, which is readable. -/
theorem select_demultiplexed_two :
    Separate twoReaders ∧
    List.Forall₂
      (Served (fun m fd => m == .readable && fd == 5) (fun _ fd => fd == 5)
        (selectManager false 3 (fun m fd => m == .readable && fd == 5) (fun _ fd => fd == 5)
          twoReaders).1)
      twoReaders
      (selectManager false 3 (fun m fd => m == .readable && fd == 5) (fun _ fd => fd == 5)
        twoReaders).2 := by
  have hsep : Separate twoReaders := by
    constructor
    · intro ev hev m m' o hm hm'
      simp only [twoReaders, List.mem_cons, List.not_mem_nil, or_false] at hev
      rcases hev with rfl | rfl <;> cases m <;> cases m' <;> simp_all <;> omega
    · simp only [twoReaders, List.pairwise_cons, List.mem_singleton]
      refine ⟨?_, by simp⟩
      rintro ev' rfl o ⟨m, hm⟩ ⟨m', hm'⟩
      cases m <;> cases m' <;> simp_all <;> omega
  refine ⟨hsep, (select_demultiplexed false 3 _ _ twoReaders hsep ?_ ?_).1⟩
  · intro ev hev m
    unfold bit
    split <;> rfl
  · intro ev hev
    simp only [twoReaders, List.mem_cons, List.not_mem_nil, or_false] at hev
    rcases hev with rfl | rfl <;> rfl

end Ngpt.FdSets
