import Ngpt.Sync.Area
import Ngpt.Sync.Qlock

/-!
# ngpt — the shared area used by several processes

`pth_initialize_shared`, the two allocations and the two destructions, run by any number
of native threads of any number of processes, one lock operation or one access to a slot
at a time. The search and the claim of a slot run under the lock of the area; a
destruction takes no lock. Every process that joins initialises the lock again, also
while another process has it.

Not in the code: `life`, what has become of the object in a slot; `full`, whether every
slot has been in use at some moment since the thread called the allocation.

Result: `shared_slots_exclusive`.
-/

namespace Ngpt.Sync.Area

open Function Transition

/-- What has become of the object in a slot: from the store of `TRUE` to the call of the
destruction, to the store of `FALSE`, and to the last store of the destruction. -/
inductive Life where
  | free
  | live (k : Kind)
  | dying (k : Kind)
  | wiping
  deriving DecidableEq, Repr

/-- The slot belongs to an object. -/
def Life.inUse : Life → Bool
  | .live _ | .dying _ => true
  | _ => false

/-- Where a native thread is: before the named lock operation or slot access. -/
inductive Pc where
  | idle
  /-- `pth_alloc_shared_mutex` and `pth_alloc_shared_cond` -/
  | lock (k : Kind)
  | scan (k : Kind) (indx : Nat)
  | index (k : Kind) (indx : Nat)
  | use (k : Kind) (indx : Nat)
  | unlock (k : Kind) (result : Option Nat)
  | allocated (k : Kind) (result : Option Nat)
  /-- `pth_mutex_destroy` and `pth_cond_destroy` -/
  | mark (k : Kind) (i : Nat)
  | wipeFirst (i : Nat)
  | wipeSecond (i : Nat)
  | destroyed
  deriving DecidableEq, Repr

def Pc.outside : Pc → Bool
  | .idle | .allocated _ _ | .destroyed => true
  | _ => false

/-- Between the two operations on the lock. -/
def Pc.inSection : Pc → Bool
  | .scan _ _ | .index _ _ | .use _ _ | .unlock _ _ => true
  | _ => false

/-- The slot that a thread has found or destroys. -/
def Pc.slot : Pc → Option Nat
  | .index _ i | .use _ i | .mark _ i | .wipeFirst i | .wipeSecond i => some i
  | _ => none

/-- The native threads `T` of the processes `P`. -/
structure Sys (T P : Type) where
  memory : Memory
  lock   : Qlock T
  /-- `pth_shared_fd` is set -/
  joined : P → Bool
  pc     : T → Pc
  life   : Nat → Life
  full   : T → Bool

inductive Event (T P : Type) where
  /-- `pth_initialize_shared` -/
  | init (p : P)
  | alloc (t : T) (k : Kind)
  /-- destroy the object in slot `i` -/
  | destroy (t : T) (i : Nat)
  /-- the next lock operation or slot access of `t` -/
  | go (t : T)
  deriving DecidableEq, Repr

variable {T P : Type}

namespace Sys

variable [DecidableEq T]

def goto (s : Sys T P) (t : T) (pc : Pc) : Sys T P := { s with pc := update s.pc t pc }

def setLife (s : Sys T P) (i : Nat) (x : Life) : Sys T P :=
  { s with life := update s.life i x }

/-- Every slot belongs to an object. -/
def allInUse (num : Nat) (s : Sys T P) : Bool := (List.range num).all fun i => (s.life i).inUse

/-- Note a moment in which the area is full. -/
def watch (num : Nat) (s : Sys T P) : Sys T P :=
  { s with full := fun t => s.full t || s.allInUse num }

def go (num : Nat) (s : Sys T P) (t : T) : Option (Sys T P) :=
  match s.pc t with
  | .lock k => (s.lock.acquire t).map fun l => { s.goto t (.scan k 0) with lock := l }
  | .scan k indx =>
    if indx < num then
      if (s.memory indx).used then some (s.goto t (.scan k (indx + 1)))
      else some (s.goto t (.index k indx))
    else some (s.goto t (.unlock k none))
  | .index k indx =>
    some { s.goto t (.use k indx) with memory := s.memory.modify indx (·.setIndex k indx) }
  | .use k indx =>
    some { (s.goto t (.unlock k (some indx))).setLife indx (.live k) with
      memory := s.memory.modify indx (·.setUsed true) }
  | .unlock k result => some { s.goto t (.allocated k result) with lock := s.lock.release t }
  | .mark k i =>
    some { (s.goto t (.wipeFirst i)).setLife i .wiping with
      memory := s.memory.modify ((s.memory i).index k) (·.setUsed false) }
  | .wipeFirst i =>
    some { s.goto t (.wipeSecond i) with memory := s.memory.modify i Slot.wipeFirst }
  | .wipeSecond i =>
    some { (s.goto t .destroyed).setLife i .free with memory := s.memory.modify i Slot.wipeSecond }
  | .idle | .allocated _ _ | .destroyed => none

variable [DecidableEq P]

/-- One event, before it is watched; `proc t` is the process of `t`. -/
def act (num : Nat) (proc : T → P) (s : Sys T P) : Event T P → Option (Sys T P)
  | .init p =>
    if s.joined p then some s
    else some { s with joined := update s.joined p true, lock := Qlock.init }
  | .alloc t k =>
    if s.joined (proc t) ∧ (s.pc t).outside then
      some { s.goto t (.lock k) with full := update s.full t false }
    else none
  | .destroy t i =>
    if s.joined (proc t) ∧ (s.pc t).outside then
      match s.life i with
      | .live k => some ((s.goto t (.mark k i)).setLife i (.dying k))
      | _ => none
    else none
  | .go t => s.go num t

def step (num : Nat) (proc : T → P) (s : Sys T P) (e : Event T P) : Option (Sys T P) :=
  (s.act num proc e).map (watch num)

end Sys

/-- The file as `ngptc` writes it: unused slots, and a lock that nobody can take yet. -/
structure Start (num : Nat) (s : Sys T P) : Prop where
  unused : ∀ i : Nat, i < num → (s.memory i).used = false
  lock   : s.lock = ⟨true, none, 0⟩
  joined : ∀ p, s.joined p = false
  idle   : ∀ t, s.pc t = .idle
  free   : ∀ i, s.life i = .free

/-- A search finds no slot whose last destruction is still going on, and a mutex gets a
slot whose number fits into a `short`. -/
def ClaimOk (num : Nat) (s : Sys T P) : Pc → Prop
  | .scan _ indx => indx < num → (s.memory indx).used = false → s.life indx ≠ .wiping
  | .index .mutex indx => indx < shortRange
  | _ => True

instance (num : Nat) (s : Sys T P) (pc : Pc) : Decidable (ClaimOk num s pc) := by
  unfold ClaimOk; split <;> infer_instance

/-- The conditions on a step: those of `ClaimOk`, and a process joins while nobody has the
lock. -/
def Orderly (num : Nat) (s : Sys T P) : Event T P → Prop
  | .init _ => s.lock.owner = none
  | .go t => ClaimOk num s (s.pc t)
  | _ => True

instance (num : Nat) (s : Sys T P) (e : Event T P) : Decidable (Orderly num s e) := by
  rcases e <;> dsimp only [Orderly] <;> infer_instance

/-- The two promises: a slot that is about to be handed out belongs to no object; and an
allocation that returned `NULL` has seen a full area. -/
structure SlotsExclusive (s : Sys T P) : Prop where
  handout : ∀ t k i, s.pc t = .use k i → (s.life i).inUse = false
  null    : ∀ t k, s.pc t = .allocated k none → s.full t = true

/-! ## The invariant -/

/-- What holds of a thread at each place. -/
def Place (num : Nat) (s : Sys T P) (t : T) : Pc → Prop
  | .scan _ indx => (∀ j, indx ≤ j → j < num → (s.life j).inUse = true) → s.full t = true
  | .index _ i => i < num ∧ s.life i = .free
  | .use k i => i < num ∧ s.life i = .free ∧ (s.memory i).index k = i
  | .unlock _ none => s.full t = true
  | .allocated _ none => s.full t = true
  | .mark k i => s.life i = .dying k
  | .wipeFirst i => s.life i = .wiping
  | .wipeSecond i => s.life i = .wiping
  | _ => True

/-- What holds of a slot. -/
structure Kept (num : Nat) (s : Sys T P) (i : Nat) : Prop where
  used  : i < num → (s.memory i).used = (s.life i).inUse
  index : ∀ k, s.life i = .live k ∨ s.life i = .dying k → (s.memory i).index k = i
  range : s.life i ≠ .free → i < num

/-- The invariant: a slot is marked as used while it belongs to an object, and the object has the
number of its slot. -/
structure Tidy (num : Nat) (s : Sys T P) : Prop where
  guards : s.lock.Guards fun t => (s.pc t).inSection
  kept   : ∀ i, Kept num s i
  place  : ∀ t, Place num s t (s.pc t)
  apart  : ∀ t u i, (s.pc t).slot = some i → (s.pc u).slot = some i → t = u

variable {num : Nat} {proc : T → P} {s s' : Sys T P} {t u : T} {q p : Pc} {k : Kind}

theorem allInUse_iff : s.allInUse num = true ↔ ∀ i, i < num → (s.life i).inUse = true := by
  simp [Sys.allInUse, List.all_eq_true]

theorem watch_full (h : ∀ j, j < num → (s.life j).inUse = true) (t : T) :
    (s.watch num).full t = true := by
  simp [Sys.watch, allInUse_iff.mpr h]

theorem Place.congr (h : Place num s u q) (hfull : s.full u = true → s'.full u = true)
    (hscan : ∀ k i, q = .scan k i → ∀ j, (s'.life j).inUse = true → (s.life j).inUse = true)
    (hslot : ∀ i, q.slot = some i → s'.life i = s.life i ∧ s'.memory i = s.memory i) :
    Place num s' u q := by
  rcases q with _ | k | ⟨k, i⟩ | ⟨k, i⟩ | ⟨k, i⟩ | ⟨k, _ | i⟩ | ⟨k, _ | i⟩ | ⟨k, i⟩ | i | i | _
  · trivial
  · trivial
  · exact fun hall => hfull (h fun j hj hj' => hscan k i rfl j (hall j hj hj'))
  · show i < num ∧ s'.life i = .free
    rw [(hslot i rfl).1]
    exact h
  · show i < num ∧ s'.life i = .free ∧ (s'.memory i).index k = i
    rw [(hslot i rfl).1, (hslot i rfl).2]
    exact h
  · exact hfull h
  · trivial
  · exact hfull h
  · trivial
  · exact (hslot i rfl).1.trans h
  · exact (hslot i rfl).1.trans h
  · exact (hslot i rfl).1.trans h
  · trivial

theorem Kept.congr {i : Nat} (h : Kept num s i) (hlife : s'.life i = s.life i)
    (hmemory : s'.memory i = s.memory i) : Kept num s' i :=
  ⟨by rw [hlife, hmemory]; exact h.used, by rw [hlife, hmemory]; exact h.index,
    by rw [hlife]; exact h.range⟩

theorem watch_full_of {x : Sys T P} (h : x.full u = true) : (x.watch num).full u = true := by
  simp [Sys.watch, h]

theorem Tidy.slot_ne_of_free {i : Nat} (h : Tidy num s) (ht : (s.pc t).inSection = true)
    (hut : u ≠ t) (hfree : s.life i = .free) : (s.pc u).slot ≠ some i := by
  intro hslot
  have hu := h.place u
  have hout : (s.pc u).inSection = false := by
    by_contra hin
    exact hut (h.guards.unique (by simpa using hin) ht)
  rcases hq : s.pc u with _ | k | ⟨k, j⟩ | ⟨k, j⟩ | ⟨k, j⟩ | ⟨k, r⟩ | ⟨k, r⟩ | ⟨k, j⟩ | j | j
    | _ <;>
    rw [hq] at hslot hu hout <;> cases hslot <;> try cases hout
  · exact absurd (hfree.symm.trans hu) (by simp)
  · exact absurd (hfree.symm.trans hu) (by simp)
  · exact absurd (hfree.symm.trans hu) (by simp)

theorem Tidy.slot_ne {i : Nat} (h : Tidy num s) (hslot : (s.pc t).slot = some i)
    (hut : u ≠ t) : (s.pc u).slot ≠ some i :=
  fun hu => hut (h.apart u t i hu hslot)

theorem inSection_of_outside (h : q.outside = true) : q.inSection = false := by
  rcases q with _ | _ | _ | _ | _ | _ | _ | _ | _ | _ | _ <;> first | rfl | cases h

theorem Tidy.join (h : Tidy num s) {l : Qlock T} (joined : P → Bool)
    (hguards : l.Guards fun u => (s.pc u).inSection) :
    Tidy num ({ s with lock := l, joined := joined }.watch num) :=
  ⟨hguards, fun i => (h.kept i).congr rfl rfl,
    fun t => (h.place t).congr watch_full_of (fun _ _ _ _ hj => hj) fun _ _ => ⟨rfl, rfl⟩, h.apart⟩

theorem Start.tidy (h : Start num s) : Tidy num s := by
  refine ⟨fun t => ?_, fun i => ⟨fun hlt => ?_, fun k hk => ?_, fun hne => absurd (h.free i) hne⟩,
    fun t => ?_, fun t u i ht => ?_⟩
  · simp [h.idle t, Pc.inSection, h.lock]
  · rw [h.unused i hlt, h.free i]
    rfl
  · rw [h.free i] at hk
    rcases hk with hk | hk <;> cases hk
  · rw [h.idle t]
    trivial
  · rw [h.idle t] at ht
    cases ht

variable [DecidableEq T]

section

variable (h : Tidy num s)
include h

theorem Tidy.move {i : Option Nat} (hpc : s'.pc = update s.pc t q)
    (hguards : s'.lock.Guards fun u => (s'.pc u).inSection)
    (hlife : ∀ j, i ≠ some j → s'.life j = s.life j)
    (hmemory : ∀ j : Nat, i ≠ some j → s'.memory j = s.memory j)
    (hfree : ∀ u j, u ≠ t → i = some j → (s.pc u).slot ≠ some j)
    (hslot : q.slot = none ∨ q.slot = i) (hfull : ∀ u, u ≠ t → s'.full u = s.full u)
    (hscan : ∀ u j, u ≠ t → (s.pc u).inSection = true → i = some j →
      (s'.life j).inUse = true → (s.life j).inUse = true)
    (hi : ∀ j, i = some j → Kept num s' j) (ht : Place num (s'.watch num) t q) :
    Tidy num (s'.watch num) := by
  obtain ⟨hself, hother⟩ := eq_update_iff.mp (show (s'.watch num).pc = update s.pc t q from hpc)
  -- `t` may only have slot `i` now, which the others do not have
  have hnot : ∀ v j, v ≠ t → q.slot = some j → (s.pc v).slot ≠ some j := by
    intro v j hv hq
    rcases hslot with hnone | hsome
    · cases hnone.symm.trans hq
    · exact hfree v j hv (hsome.symm.trans hq)
  refine ⟨hguards, fun j => ?_, fun u => ?_, fun u v j => unique_of_move
    (P := fun q => q.slot = some j) hother (fun u v => h.apart u v j)
    (fun hq v hv => hnot v j hv (hself ▸ hq)) u v⟩
  · by_cases hji : i = some j
    · exact (hi j hji).congr rfl rfl
    · exact (h.kept j).congr (hlife j hji) (hmemory j hji)
  · by_cases hut : u = t
    · rw [hut, hself]
      exact ht
    · rw [hother u hut]
      refine (h.place u).congr (fun hu => watch_full_of ((hfull u hut).trans hu))
        (fun k j hq l hl => ?_) fun j hj => ?_
      · by_cases hli : i = some l
        · exact hscan u l hut (by rw [hq]; rfl) hli hl
        · rwa [← hlife l hli]
      · have hji : i ≠ some j := fun hi => hfree u j hut hi hj
        exact ⟨hlife j hji, hmemory j hji⟩

/-! ## The steps -/

theorem Tidy.guards_goto (hp : s.pc t = p) (hq : q.inSection = p.inSection) :
    s.lock.Guards fun u => (update s.pc t q u).inSection := by
  refine h.guards.congr fun u => ?_
  by_cases hut : u = t
  · rw [hut, update_self, hq, hp]
  · rw [update_of_ne hut]

theorem Tidy.goto (hpc : s'.pc = update s.pc t q)
    (hguards : s'.lock.Guards fun u => (s'.pc u).inSection) (hlife : s'.life = s.life)
    (hmemory : s'.memory = s.memory) (hslot : q.slot = none)
    (hfull : ∀ u, u ≠ t → s'.full u = s.full u) (ht : Place num (s'.watch num) t q) :
    Tidy num (s'.watch num) := by
  refine h.move (i := none) hpc hguards (fun j _ => by rw [hlife]) (fun j _ => by rw [hmemory])
    ?_ (Or.inl hslot) hfull ?_ ?_ ht
  · rintro u j - ⟨⟩
  · rintro u j - - ⟨⟩
  · rintro j ⟨⟩

theorem Tidy.goScan {indx : Nat} (hpc : s.pc t = .scan k indx)
    (hok : ClaimOk num s (s.pc t)) (hs : s.go num t = some s') : Tidy num (s'.watch num) := by
  have hplace : Place num s t (.scan k indx) := hpc ▸ h.place t
  rw [hpc] at hok
  simp only [Sys.go, hpc] at hs
  split at hs
  case isTrue hlt =>
    have hused := (h.kept indx).used hlt
    split at hs
    case isTrue htrue =>
      cases hs
      refine h.goto rfl (h.guards_goto hpc rfl) rfl rfl rfl (fun _ _ => rfl)
        fun hall => watch_full_of (hplace fun j hj hj' => ?_)
      by_cases hji : j = indx
      · rw [hji, ← hused]
        exact htrue
      · exact hall j (by omega) hj'
    case isFalse hfalse =>
      cases hs
      have hunused : (s.memory indx).used = false := by simpa using hfalse
      have hfree : s.life indx = .free := by
        have hwiping := hok hlt hunused
        rw [hunused] at hused
        rcases hl : s.life indx with _ | k | k | _ <;> simp_all [Life.inUse]
      refine h.move rfl (h.guards_goto hpc rfl) (fun _ _ => rfl) (fun _ _ => rfl)
        ?_ (Or.inr rfl) (fun _ _ => rfl) (fun _ _ _ _ _ hj => hj) ?_ ⟨hlt, hfree⟩
      · rintro u j hut ⟨⟩
        exact h.slot_ne_of_free (by rw [hpc]; rfl) hut hfree
      · rintro j ⟨⟩
        exact (h.kept indx).congr rfl rfl
  case isFalse hge =>
    cases hs
    refine h.goto rfl (h.guards_goto hpc rfl) rfl rfl rfl (fun _ _ => rfl)
      (watch_full_of (hplace fun j hj hj' => ?_))
    exact absurd hj' (by omega)

theorem Tidy.onSlot {i : Nat} {f : Slot → Slot} {x : Life}
    (hp : s.pc t = p) (hpc : s'.pc = update s.pc t q) (hslot : p.slot = some i)
    (hslot' : q.slot = none ∨ q.slot = some i) (hlock : s'.lock = s.lock)
    (hsection : q.inSection = p.inSection)
    (hlife : s'.life = update s.life i x) (hmemory : s'.memory = s.memory.modify i f)
    (hfull : s'.full = s.full)
    (hscan : p.inSection = false → x.inUse = true → (s.life i).inUse = true)
    (hused : i < num → (f (s.memory i)).used = x.inUse)
    (hindex : ∀ k, x = .live k ∨ x = .dying k → (f (s.memory i)).index k = i)
    (hrange : x ≠ .free → i < num) (ht : Place num (s'.watch num) t q) :
    Tidy num (s'.watch num) := by
  have hx : s'.life i = x := by rw [hlife, update_self]
  have hf : s'.memory i = f (s.memory i) := by rw [hmemory, modify_self]
  refine h.move hpc ?_ (fun j hj => ?_) (fun j hj => ?_) ?_ hslot'
    (fun u _ => by rw [hfull]) ?_ ?_ ht
  · rw [hlock, hpc]
    exact h.guards_goto hp hsection
  · rw [hlife, update_of_ne fun hji => hj (congrArg some hji.symm)]
  · have hji : (j : Int) ≠ i := fun hji => hj (congrArg some (by omega))
    rw [hmemory, modify_of_ne _ _ hji]
  · rintro u j hut ⟨⟩
    exact h.slot_ne (by rw [hp, hslot]) hut
  · rintro u j hut hin ⟨⟩
    rw [hx]
    refine hscan ?_
    by_contra ht
    exact hut (h.guards.unique hin (by simpa [hp] using ht))
  · rintro j ⟨⟩
    exact ⟨by rw [hf, hx]; exact hused, by rw [hf, hx]; exact hindex, by rw [hx]; exact hrange⟩

theorem Tidy.goIndex {i : Nat} (hpc : s.pc t = .index k i)
    (hok : ClaimOk num s (s.pc t)) (hs : s.go num t = some s') : Tidy num (s'.watch num) := by
  obtain ⟨hlt, hfree⟩ : Place num s t (.index k i) := hpc ▸ h.place t
  rw [hpc] at hok
  simp only [Sys.go, hpc, Option.some.injEq] at hs
  subst hs
  refine h.onSlot (x := s.life i) (f := (·.setIndex k i)) hpc rfl rfl (Or.inr rfl) rfl rfl
    (update_eq_self ..).symm rfl rfl (fun _ hin => hin) (fun hi => ?_) (fun k' hk' => ?_)
    (fun hne => absurd hfree hne) ⟨hlt, hfree, ?_⟩
  · rw [← (h.kept i).used hi, setIndex_used]
  · rw [hfree] at hk'
    rcases hk' with hk' | hk' <;> cases hk'
  · show (s.memory.modify i _ i).index k = i
    rw [modify_self]
    refine setIndex_index _ k fun hk => ?_
    rw [hk] at hok
    exact hok

theorem Tidy.goUse {i : Nat} (hpc : s.pc t = .use k i)
    (hs : s.go num t = some s') : Tidy num (s'.watch num) := by
  obtain ⟨hlt, -, hindex⟩ : Place num s t (.use k i) := hpc ▸ h.place t
  simp only [Sys.go, hpc, Option.some.injEq] at hs
  subst hs
  refine h.onSlot (f := (·.setUsed true)) hpc rfl rfl (Or.inl rfl) rfl rfl rfl rfl
    rfl (fun hout => by cases hout) (fun _ => rfl) (fun k' hk' => ?_) (fun _ => hlt) trivial
  rcases hk' with hk' | hk' <;> cases hk'
  rw [setUsed_index]
  exact hindex

theorem Tidy.goLock (hpc : s.pc t = .lock k)
    (hs : s.go num t = some s') : Tidy num (s'.watch num) := by
  simp only [Sys.go, hpc] at hs
  obtain ⟨l, hl, rfl⟩ := Option.map_eq_some_iff.mp hs
  refine h.goto rfl ?_ rfl rfl rfl (fun _ _ => rfl)
    fun hall => watch_full (s := { s.goto t (.scan k 0) with lock := l })
      (fun j hj => hall j (Nat.zero_le j) hj) t
  refine h.guards.acquire (by rw [hpc]; rfl) hl ?_ fun u hu => ?_
  · show (update s.pc t (.scan k 0) t).inSection = true
    rw [update_self]
    rfl
  · show (update s.pc t (.scan k 0) u).inSection = _
    rw [update_of_ne hu]

theorem Tidy.goUnlock {result : Option Nat}
    (hpc : s.pc t = .unlock k result) (hs : s.go num t = some s') : Tidy num (s'.watch num) := by
  have hplace : Place num s t (.unlock k result) := hpc ▸ h.place t
  simp only [Sys.go, hpc, Option.some.injEq] at hs
  subst hs
  refine h.goto rfl ?_ rfl rfl rfl (fun _ _ => rfl) ?_
  · refine h.guards.release (by rw [hpc]; rfl) ?_ fun u hu => ?_
    · show (update s.pc t (.allocated k result) t).inSection = false
      rw [update_self]
      rfl
    · show (update s.pc t (.allocated k result) u).inSection = _
      rw [update_of_ne hu]
  · rcases result with _ | i
    · exact watch_full_of hplace
    · trivial

theorem Tidy.goMark {i : Nat} (hpc : s.pc t = .mark k i)
    (hs : s.go num t = some s') : Tidy num (s'.watch num) := by
  have hdying : Place num s t (.mark k i) := hpc ▸ h.place t
  have hindex := (h.kept i).index k (Or.inr hdying)
  have hlt := (h.kept i).range (by rw [show s.life i = .dying k from hdying]; simp)
  simp only [Sys.go, hpc, Option.some.injEq] at hs
  rw [hindex] at hs
  subst hs
  refine h.onSlot (f := (·.setUsed false)) hpc rfl rfl (Or.inr rfl) rfl rfl rfl rfl
    rfl (fun _ hin => by cases hin) (fun _ => rfl) (fun k' hk' => ?_) (fun _ => hlt)
    (update_self ..)
  rcases hk' with hk' | hk' <;> cases hk'

theorem Tidy.goWipe {i : Nat} {f : Slot → Slot} {x : Life}
    (hp : s.pc t = p) (hslot : p.slot = some i) (hout : p.inSection = false)
    (hwiping : s.life i = .wiping) (hpc : s'.pc = update s.pc t q)
    (hlock : s'.lock = s.lock) (hlife : s'.life = update s.life i x)
    (hmemory : s'.memory = s.memory.modify i f) (hfull : s'.full = s.full)
    (hq : q.slot = none ∨ q.slot = some i) (hq' : q.inSection = false)
    (hf : ∀ y, (f y).used = y.used) (hx : x = .wiping ∨ x = .free)
    (ht : s'.life i = x → Place num (s'.watch num) t q) : Tidy num (s'.watch num) := by
  have hnot : x.inUse = false := by rcases hx with hx | hx <;> rw [hx] <;> rfl
  refine h.onSlot hp hpc hslot hq hlock (hq'.trans hout.symm) hlife hmemory hfull
    (fun _ hin => ?_) (fun hlt => ?_) (fun k' hk' => ?_)
    (fun _ => (h.kept i).range (by rw [hwiping]; simp)) (ht (by rw [hlife, update_self]))
  · cases hnot.symm.trans hin
  · rw [hf, hnot, (h.kept i).used hlt, hwiping]
    rfl
  · rcases hx with rfl | rfl <;> rcases hk' with hk' | hk' <;> cases hk'

theorem Tidy.go (hok : Orderly num s (.go t)) (hs : s.go num t = some s') :
    Tidy num (s'.watch num) := by
  have hplace := h.place t
  rcases hpc : s.pc t with _ | k | ⟨k, i⟩ | ⟨k, i⟩ | ⟨k, i⟩ | ⟨k, r⟩ | ⟨k, r⟩ | ⟨k, i⟩ | i | i | _
  · simp [Sys.go, hpc] at hs
  · exact h.goLock hpc hs
  · exact h.goScan hpc hok hs
  · exact h.goIndex hpc hok hs
  · exact h.goUse hpc hs
  · exact h.goUnlock hpc hs
  · simp [Sys.go, hpc] at hs
  · exact h.goMark hpc hs
  · rw [hpc] at hplace
    simp only [Sys.go, hpc, Option.some.injEq] at hs
    subst hs
    have hlife : s.life = update s.life i .wiping := by
      rw [← show s.life i = .wiping from hplace, update_eq_self]
    exact h.goWipe hpc rfl rfl hplace rfl rfl hlife rfl rfl (Or.inr rfl) rfl (fun _ => rfl)
      (Or.inl rfl) fun hl => hl
  · rw [hpc] at hplace
    simp only [Sys.go, hpc, Option.some.injEq] at hs
    subst hs
    exact h.goWipe hpc rfl rfl hplace rfl rfl rfl rfl rfl (Or.inl rfl) rfl (fun _ => rfl)
      (Or.inr rfl) fun _ => trivial
  · simp [Sys.go, hpc] at hs

end

theorem Tidy.destroy {i : Nat} (h : Tidy num s) (hout : (s.pc t).outside = true)
    (hlive : s.life i = .live k) :
    Tidy num (((s.goto t (.mark k i)).setLife i (.dying k)).watch num) := by
  have hx : update s.life i (.dying k) i = .dying k := update_self ..
  refine h.move rfl
    (h.guards_goto rfl (inSection_of_outside hout).symm)
    (fun j hj => update_of_ne (fun hji => hj (congrArg some hji.symm)) _ _)
    (fun _ _ => rfl) ?_ (Or.inr rfl) (fun _ _ => rfl) ?_ ?_ hx
  · rintro u j - ⟨⟩ hslot
    -- a thread with this slot would have found it free, or would destroy it already
    have hu := h.place u
    rcases hq : s.pc u with _ | k' | ⟨k', j⟩ | ⟨k', j⟩ | ⟨k', j⟩ | ⟨k', r⟩ | ⟨k', r⟩ | ⟨k', j⟩ | j
      | j | _ <;>
      rw [hq] at hslot hu <;> cases hslot
    · exact absurd (hlive.symm.trans hu.2) (by simp)
    · exact absurd (hlive.symm.trans hu.2.1) (by simp)
    · exact absurd (hlive.symm.trans hu) (by simp)
    · exact absurd (hlive.symm.trans hu) (by simp)
    · exact absurd (hlive.symm.trans hu) (by simp)
  · rintro u j - - ⟨⟩ -
    rw [hlive]
    rfl
  · rintro j ⟨⟩
    refine ⟨fun hlt => ?_, fun k' hk' => ?_, fun _ => (h.kept i).range (by rw [hlive]; simp)⟩
    · show _ = (update s.life i (.dying k) i).inUse
      rw [hx]
      exact ((h.kept i).used hlt).trans (by rw [hlive]; rfl)
    · have hk : k' = k := by
        rcases hk' with hk' | hk'
        · cases hx.symm.trans hk'
        · cases hx.symm.trans hk'
          rfl
      rw [hk]
      exact (h.kept i).index k (Or.inl hlive)

variable [DecidableEq P]

theorem Tidy.step {e : Event T P} (h : Tidy num s) (hok : Orderly num s e)
    (hs : s.step num proc e = some s') : Tidy num s' := by
  obtain ⟨x, hx, rfl⟩ := Option.map_eq_some_iff.mp hs
  cases e with
  | init p =>
    simp only [Sys.act] at hx
    split at hx <;> cases hx
    · exact h.join _ h.guards
    · exact h.join _ (h.guards.init hok)
  | alloc t k =>
    simp only [Sys.act] at hx
    split at hx
    case isTrue hcall =>
      cases hx
      exact h.goto rfl (h.guards_goto rfl (inSection_of_outside hcall.2).symm) rfl
        rfl rfl (fun u hu => update_of_ne hu ..) trivial
    case isFalse => cases hx
  | destroy t i =>
    simp only [Sys.act] at hx
    split at hx
    case isTrue hcall =>
      split at hx
      case h_1 k hlive =>
        cases hx
        exact h.destroy hcall.2 hlive
      case h_2 => cases hx
    case isFalse => cases hx
  | go t => exact h.go hok hx

/-! ## The slots -/

/-- **Shared slots**, in runs that meet the conditions of `Orderly`: no slot is handed out
while it belongs to an object, and an allocation that returns `NULL` has seen every slot
in use at one moment. -/
theorem shared_slots_exclusive (num : Nat) (proc : T → P) (s : Sys T P)
    (hs : Reachable (Sys.step num proc) (Orderly num) (Start num) s) : SlotsExclusive s := by
  have hI : Tidy num s := hs.invariant (fun _ h => h.tidy) fun _ _ _ hI hok h => hI.step hok h
  refine ⟨fun t k i hpc => ?_, fun t k hpc => ?_⟩
  · have hplace := hI.place t
    rw [hpc] at hplace
    rw [hplace.2.1]
    rfl
  · have hplace := hI.place t
    rw [hpc] at hplace
    exact hplace

/-- Native thread `t` is process `t`. -/
def startSys : Sys Nat Nat where
  memory _ := ⟨false, 0, 0⟩
  lock := ⟨true, none, 0⟩
  joined _ := false
  pc _ := .idle
  life _ := .free
  full _ := false

theorem startSys_start (num : Nat) : Start num startSys :=
  ⟨fun _ _ => rfl, rfl, fun _ => rfl, fun _ => rfl, fun _ => rfl⟩

/-- Thread `t` allocates in an area with one slot that is free. -/
def takesSlot (t : Nat) (k : Kind) : List (Event Nat Nat) :=
  [.alloc t k, .go t, .go t, .go t, .go t, .go t]

/-- Two processes share one slot in turn: the second allocation finds the area full. -/
theorem shared_slots_exclusive_inTurn :
    ∃ s : Sys Nat Nat, runOk (Sys.step 1 id) (Orderly 1) startSys
        ([.init 0] ++ takesSlot 0 .mutex ++ [.init 1, .alloc 1 .cond, .go 1, .go 1, .go 1, .go 1,
          .destroy 0 0, .go 0, .go 0, .go 0] ++ takesSlot 1 .cond) = some s ∧
      s.pc 1 = .allocated .cond (some 0) ∧ SlotsExclusive s := by
  refine exists_and_of_any (fun _ => id) (by decide +kernel) fun s hs _ => ?_
  exact shared_slots_exclusive 1 id s (reachable_of_runOk (.init (startSys_start 1)) hs)

/-- Process 0 has found slot 0 and is about to claim it when process 1 joins and
initialises the lock again: both get the slot. -/
theorem join_breaks_search :
    ∃ s : Sys Nat Nat, Reachable (Sys.step 1 id) Always (Start 1) s ∧
      s.life 0 = .live .mutex ∧ s.pc 1 = .use .mutex 0 ∧ ¬ SlotsExclusive s := by
  refine exists_and_of_any₂ (o := run (Sys.step 1 id) startSys [.init 0, .alloc 0 .mutex, .go 0,
    .go 0, .init 1, .alloc 1 .mutex, .go 1, .go 1, .go 1, .go 0, .go 0])
    (fun _ => reachable_of_run (.init (startSys_start 1))) (by decide +kernel)
    fun s _ hlife hpc h => ?_
  have hfree := h.handout 1 .mutex 0 hpc
  rw [hlife] at hfree
  cases hfree

end Ngpt.Sync.Area
