import Ngpt.Errno
import Ngpt.Lib.Transition
import Ngpt.Lib.Count

/-!
# ngpt — `pth_join` (`pth_lib.c`, `pth_sched.c`, `pth_tcb.c`)

One thread that terminates, and any number of calls of `pth_join` for it by other threads,
one access to its control block at a time. The accesses run under the lock of `pth_DQ`,
apart from `pth_tcb_free`. The tests on the arguments that do not read the control block
are left out, and so is the question who wakes whom: a call that waits may wake up at any
time.

A freed block keeps its contents here. Not in the code: `exited`, the value with which the
thread has terminated; `frees`, how often the block has been freed; `bad`, whether somebody
has used the block after that.

Result: `join_once`.
-/

namespace Ngpt.Join

open Function Transition Ngpt.Count

/-- What `pth_join` uses of `struct pth_st`. -/
structure Block where
  /-- `magic` points to the list of all threads -/
  magic       : Bool
  joinable    : Bool
  /-- `state == PTH_STATE_DEAD` -/
  dead        : Bool
  /-- `node` is in `pth_DQ` -/
  linked      : Bool
  joinedCount : Int
  joinArg     : Nat
  deriving DecidableEq, Repr

/-- Where a call is: before the named access or lock operation. -/
inductive Pc where
  | idle
  | lock
  /-- `thread_exists` -/
  | magic
  | joinable
  /-- `pth_ctrl(PTH_CTRL_GETTHREADS)` -/
  | threads
  | state
  | register
  | waiting
  | relock
  /-- the part for every call; `early` tells the calls that have waited -/
  | contains (early : Bool)
  | count (early : Bool)
  | dead
  | value
  | unlink (v : Nat)
  | unlock (v : Nat)
  /-- `pth_tcb_free`: out of the list of all threads -/
  | dequeue (v : Nat)
  | free (v : Nat)
  | fail (rc : Errno)
  | returned (rc : Errno) (v : Option Nat)
  deriving DecidableEq, Repr

namespace Pc

def outside : Pc → Bool
  | .idle | .returned _ _ => true
  | _ => false

/-- The call has the lock of `pth_DQ`. -/
def locked : Pc → Bool
  | .magic | .joinable | .threads | .state | .register | .contains _ | .count _ | .dead | .value
  | .unlink _ | .unlock _ | .fail _ => true
  | _ => false

/-- The call has a part in `joined_count`. -/
def pending : Pc → Nat
  | .waiting | .relock | .contains true | .count true => 1
  | _ => 0

/-- The call has passed the test of `joined_count`. -/
def won : Pc → Bool
  | .dead | .value | .unlink _ | .unlock _ | .dequeue _ | .free _ | .returned .ok _ => true
  | _ => false

def joined : Pc → Bool
  | .returned .ok _ => true
  | _ => false

/-- The call has given up, or is about to. -/
def failed : Pc → Bool
  | .fail _ => true
  | .returned rc _ => rc ≠ .ok
  | _ => false

/-- The call has no access to the block before it takes the lock. -/
def quiet : Pc → Bool
  | .idle | .lock => true
  | .returned rc _ => rc ≠ .ok
  | _ => false

end Pc

/-- The thread, the lock of `pth_DQ` and the calls `J`. -/
structure Sys (J : Type) where
  block  : Block
  lock   : Option J
  pc     : J → Pc
  exited : Option Nat
  frees  : Nat
  bad    : Bool

inductive Event (J : Type) where
  | call (j : J)
  /-- the next access or lock operation of a call -/
  | go (j : J)
  /-- there is only one thread left, as `pth_ctrl` tells the call -/
  | alone (j : J)
  /-- `pth_wait` returns -/
  | wake (j : J)
  /-- the scheduler moves the thread to `pth_DQ` -/
  | exit (v : Nat)
  deriving DecidableEq, Repr

variable {J : Type}

namespace Sys

variable [DecidableEq J]

def goto (s : Sys J) (j : J) (q : Pc) : Sys J := { s with pc := update s.pc j q }

/-- Use the block. -/
def access (s : Sys J) (j : J) (b : Block) (q : Pc) : Sys J :=
  { s.goto j q with block := b, bad := s.bad || decide (s.frees ≠ 0) }

def go (s : Sys J) (j : J) : Option (Sys J) :=
  let b := s.block
  match s.pc j with
  | .lock => if s.lock = none then some { s.goto j .magic with lock := some j } else none
  | .magic => some (s.access j b (if b.magic then .joinable else .fail .esrch))
  | .joinable => some (s.access j b (if b.joinable then .threads else .fail .einval))
  | .threads => some (s.goto j .state)
  | .state => some (s.access j b (if b.dead then .contains false else .register))
  | .register =>
    some { s.access j { b with joinedCount := b.joinedCount + 1 } .waiting with lock := none }
  | .relock =>
    if s.lock = none then some { s.goto j (.contains true) with lock := some j } else none
  | .contains early => some (s.access j b (if b.linked then .count early else .fail .esrch))
  | .count _ =>
    some (s.access j { b with joinedCount := b.joinedCount - 1 }
      (if b.joinedCount - 1 > 0 then .fail .esrch else .dead))
  | .dead => some (s.access j b (if b.dead then .value else .fail .esrch))
  | .value => some (s.access j b (.unlink b.joinArg))
  | .unlink v => some (s.access j { b with linked := false } (.unlock v))
  | .unlock v => some { s.goto j (.dequeue v) with lock := none }
  | .dequeue v => some (s.access j { b with magic := false } (.free v))
  | .free v => some { s.access j b (.returned .ok (some v)) with frees := s.frees + 1 }
  | .fail rc => some { s.goto j (.returned rc none) with lock := none }
  | .idle | .waiting | .returned _ _ => none

/-- The thread itself counts as long as it is in the list of all threads. -/
def alone (s : Sys J) (j : J) : Option (Sys J) :=
  if s.pc j = .threads ∧ s.block.magic = false then some (s.goto j (.fail .edeadlk)) else none

def wake (s : Sys J) (j : J) : Option (Sys J) :=
  if s.pc j = .waiting then some (s.goto j .relock) else none

def exit (s : Sys J) (v : Nat) : Option (Sys J) :=
  if s.lock = none ∧ s.block.dead = false then
    some { s with
      block := { s.block with linked := true, dead := true, joinArg := v }
      exited := some v }
  else none

def step (s : Sys J) : Event J → Option (Sys J)
  | .call j => if s.pc j = .idle then some (s.goto j .lock) else none
  | .go j => s.go j
  | .alone j => s.alone j
  | .wake j => s.wake j
  | .exit v => s.exit v

end Sys

/-- A joinable thread that runs, and nobody has called yet. -/
structure Start (s : Sys J) : Prop where
  block  : s.block = ⟨true, true, false, false, 0, s.block.joinArg⟩
  lock   : s.lock = none
  idle   : ∀ j, s.pc j = .idle
  exited : s.exited = none
  frees  : s.frees = 0
  bad    : s.bad = false

/-- The conditions on an access: no call starts after a join, and a call that finds the
thread dead finds no call that has waited and not finished. -/
def AccessOk (s : Sys J) : Pc → Prop
  | .lock => s.block.dead = true → s.block.linked = true
  | .state => s.block.dead = true → s.block.joinedCount = 0
  | _ => True

instance (s : Sys J) (q : Pc) : Decidable (AccessOk s q) := by
  rcases q <;> dsimp only [AccessOk] <;> infer_instance

/-- The conditions on a step: those of `AccessOk`, and nobody wakes up too early. -/
def Orderly (s : Sys J) : Event J → Prop
  | .go j => AccessOk s (s.pc j)
  | .wake _ => s.block.dead = true
  | _ => True

instance (s : Sys J) (e : Event J) : Decidable (Orderly s e) := by
  rcases e <;> dsimp only [Orderly] <;> infer_instance

/-- The promises of `pth_join`. -/
structure JoinOnce (s : Sys J) : Prop where
  single   : ∀ j k v w, s.pc j = .returned .ok v → s.pc k = .returned .ok w → j = k
  value    : ∀ j v, s.pc j = .returned .ok v → ∃ x, s.exited = some x ∧ v = some x
  freed    : s.frees ≤ 1
  safe     : s.bad = false
  complete : (∃ j, s.pc j ≠ .idle) → (∀ j, (s.pc j).outside = true) →
    s.frees = 1 ∧ ∃ j v, s.pc j = .returned .ok v

/-! ## The invariant -/

/-- What holds of a call at each place. -/
def Place (s : Sys J) : Pc → Prop
  | .relock | .contains true | .count true | .dead | .value => s.block.dead = true
  | .contains false | .count false => s.block.dead = true ∧ s.block.joinedCount = 0
  | .unlink v => s.block.dead = true ∧ s.exited = some v
  | .unlock v | .dequeue v | .free v =>
    s.block.dead = true ∧ s.block.linked = false ∧ s.exited = some v
  | .fail rc => rc ≠ .ok
  | .returned .ok w =>
    s.block.dead = true ∧ s.block.linked = false ∧ s.frees = 1 ∧
      ∃ v, s.exited = some v ∧ w = some v
  | _ => True

/-- Nobody has taken the thread out of `pth_DQ`. -/
def Pc.unlinked : Pc → Bool
  | .unlock _ | .dequeue _ | .free _ | .returned .ok _ => true
  | _ => false

/-- `pth_join` has the lock where the code says so. -/
def Sys.Locked (s : Sys J) : Prop := ∀ j, s.lock = some j ↔ (s.pc j).locked = true

/-- The invariant: `joined_count` is the number of the calls that have waited and have not taken
their part of it back. -/
structure Tidy [Fintype J] (s : Sys J) : Prop where
  lock     : s.Locked
  place    : ∀ j, Place s (s.pc j)
  sole     : ∀ j k, (s.pc j).won = true → k ≠ j → (s.pc k).quiet = true
  count    : (∀ j, (s.pc j).won = false) → s.block.joinedCount = total s.pc Pc.pending
  someone  : ∀ j, (s.pc j).failed = true →
    0 < total s.pc Pc.pending ∨ ∃ k, (s.pc k).won = true
  joinable : s.block.joinable = true
  kept     : (∀ j, (s.pc j).unlinked = false) →
    s.block.magic = true ∧ (s.block.dead = true → s.block.linked = true)
  exited   : s.block.dead = true → s.exited = some s.block.joinArg
  frees    : (∀ j, (s.pc j).joined = false) → s.frees = 0
  bad      : s.bad = false

variable {s s' : Sys J} {j k : J} {q : Pc}

theorem Place.of_quiet (h : q.quiet = true) : Place s q := by
  cases q with
  | returned rc => cases rc <;> trivial
  | _ => trivial

theorem Place.congr {n : Int} (h : Place s q)
    (hblock : s'.block = { s.block with joinedCount := n }) (hexited : s'.exited = s.exited)
    (hfrees : s'.frees = s.frees) (hn : n = s.block.joinedCount ∨ q.locked = false) :
    Place s' q := by
  rcases hn with rfl | hlocked
  · unfold Place at h ⊢
    rw [hblock, hexited, hfrees]
    exact h
  · cases q with
    | returned rc => cases rc <;> first | trivial | simpa only [Place, hblock, hexited, hfrees]
    | contains | count => cases hlocked
    | _ => first | trivial | simpa only [Place, hblock, hexited] using h

theorem Place.taken_out (h : Place s q) (hwon : q.won = true)
    (hlocked : q.locked = false) : s.block.dead = true ∧ s.block.linked = false := by
  cases q with
  | dequeue | free => exact ⟨h.1, h.2.1⟩
  | unlock | dead | value | unlink => cases hlocked
  | returned rc v =>
    cases rc with
    | ok => exact ⟨h.1, h.2.1⟩
    | _ => cases hwon
  | _ => cases hwon

theorem Place.of_alive (h : Place s q) (halive : s.block.dead = false) (s' : Sys J) :
    Place s' q := by
  cases q with
  | contains early | count early => cases early <;> simp [Place, halive] at h
  | returned rc => cases rc <;> first | trivial | simp [Place, halive] at h
  | _ => first | trivial | exact h | simp [Place, halive] at h

variable [Fintype J]

theorem Tidy.not_won (h : Tidy s) (hj : (s.pc j).quiet = false) (hk : k ≠ j) :
    (s.pc k).won = false :=
  Bool.eq_false_iff.mpr fun hwon => by simp [h.sole k j hwon hk.symm] at hj

theorem Tidy.not_locked (h : Tidy s) (hj : (s.pc j).locked = true) (hk : k ≠ j) :
    (s.pc k).locked = false := by
  by_contra hx
  have hyours := (h.lock k).mpr (by simpa using hx)
  rw [(h.lock j).mpr hj] at hyours
  exact hk (Option.some.inj hyours).symm

theorem Tidy.exit {v : Nat} (h : Tidy s) (hs : s.exit v = some s') : Tidy s' := by
  obtain ⟨⟨-, hdead⟩, ⟨⟩⟩ := Option.ite_none_right_eq_some.mp hs
  exact ⟨h.lock, fun j => (h.place j).of_alive hdead _, h.sole, h.count, h.someone, h.joinable,
    fun hnone => ⟨(h.kept hnone).1, fun _ => rfl⟩, fun _ => rfl, h.frees, h.bad⟩

theorem Start.tidy (h : Start s) : Tidy s := by
  refine ⟨fun j => ?_, fun j => ?_, fun j k hj => ?_, fun _ => ?_, fun j hj => ?_, ?_, fun _ => ?_,
    fun hdead => ?_, fun _ => h.frees, h.bad⟩
  · simp [h.lock, h.idle j, Pc.locked]
  · simp [h.idle j, Place]
  · simp [h.idle j, Pc.won] at hj
  · rw [h.block, total_eq_zero fun j => by rw [h.idle j]; rfl]
    rfl
  · simp [h.idle j, Pc.failed] at hj
  · rw [h.block]
  · rw [h.block]
    exact ⟨rfl, nofun⟩
  · rw [h.block] at hdead
    cases hdead

variable [DecidableEq J]

theorem Pc.won_of_unlinked (h : q.unlinked = true) : q.won = true := by
  unfold Pc.unlinked at h
  split at h <;> first | rfl | cases h

theorem Pc.unlinked_of_joined (h : q.joined = true) : q.unlinked = true := by
  unfold Pc.joined at h
  split at h <;> first | rfl | cases h

theorem Pc.won_of_joined (h : q.joined = true) : q.won = true :=
  won_of_unlinked (unlinked_of_joined h)

theorem Pc.joined_of_not_won (h : q.won = false) : q.joined = false :=
  Bool.eq_false_iff.mpr fun hx => by simp [won_of_joined hx] at h

theorem Pc.unlinked_of_not_won (h : q.won = false) : q.unlinked = false :=
  Bool.eq_false_iff.mpr fun hx => by simp [won_of_unlinked hx] at h

theorem Pc.not_quiet_of_won (h : q.won = true) : q.quiet = false := by
  unfold Pc.won at h
  split at h <;> first | rfl | cases h

section

variable (h : Tidy s) (hj : (s.pc j).quiet = false)
include h hj

theorem Tidy.forall_of_not_won {f : Pc → Bool}
    (hf : ∀ q : Pc, q.won = false → f q = false) (hfj : f (s.pc j) = false) (k : J) :
    f (s.pc k) = false := by
  by_cases hk : k = j
  · rw [hk]
    exact hfj
  · exact hf _ (h.not_won hj hk)

theorem Tidy.frees_eq_zero (hjoined : (s.pc j).joined = false) : s.frees = 0 :=
  h.frees (h.forall_of_not_won hj (fun _ => Pc.joined_of_not_won) hjoined)

theorem Tidy.kept_of (hunlinked : (s.pc j).unlinked = false) :
    s.block.magic = true ∧ (s.block.dead = true → s.block.linked = true) :=
  h.kept (h.forall_of_not_won hj (fun _ => Pc.unlinked_of_not_won) hunlinked)

theorem Tidy.none_won (hwon : (s.pc j).won = false) :
    ∀ k, (s.pc k).won = false :=
  h.forall_of_not_won hj (fun _ => id) hwon

theorem Tidy.no_winner
    (hwon : (s.pc j).won = false) (k : J) (hk : (s.pc k).won = true) : q.quiet = true := by
  rw [h.none_won hj hwon k] at hk
  cases hk

end

theorem Pc.quiet_of (hlocked : q.locked = false) (hpending : q.pending = 0)
    (hwon : q.won = false) : q.quiet = true := by
  cases q with
  | returned rc => cases rc <;> first | rfl | cases hwon
  | _ => simp_all [Pc.locked, Pc.pending, Pc.won, Pc.quiet]

theorem Pc.won_of_quiet (h : q.quiet = true) : q.won = false := by
  cases q with
  | returned rc => cases rc <;> first | rfl | cases h
  | _ => first | rfl | cases h

/-! ## Steps of a call -/

section

variable (h : Tidy s) (hpc : s'.pc = update s.pc j q)
include h hpc

theorem Tidy.lock_same (hlock : s'.lock = s.lock) (hq : q.locked = (s.pc j).locked) :
    s'.Locked := by
  intro k
  rw [hlock, hpc, h.lock k]
  by_cases hk : k = j <;> simp [hk, hq]

theorem Tidy.lock_take (hfree : s.lock = none) (hlock : s'.lock = some j) (hq : q.locked = true) :
    s'.Locked := by
  intro k
  rw [hlock, hpc]
  by_cases hk : k = j
  · simp [hk, hq]
  · simp [hk, ← h.lock k, hfree, Ne.symm hk]

theorem Tidy.lock_drop
    (hlock : s'.lock = none) (hj : (s.pc j).locked = true) (hq : q.locked = false) :
    s'.Locked := by
  intro k
  rw [hlock, hpc]
  by_cases hk : k = j
  · simp [hk, hq]
  · simp [hk, h.not_locked hj hk]

theorem Tidy.move {n : Int} (hlock : s'.Locked)
    (hblock : s'.block = { s.block with joinedCount := n }) (hexited : s'.exited = s.exited)
    (hfrees : s'.frees = s.frees) (hbad : s'.bad = false) (hwon : (s.pc j).won = false)
    (hq : q.won = false) (hquiet : ∀ k, (s.pc k).won = true → q.quiet = true)
    (hn : n = s.block.joinedCount ∨ (s.pc j).locked = true)
    (hcount : n + (s.pc j).pending = s.block.joinedCount + q.pending)
    (hfailed : q.failed = true → (s.pc j).failed = true ∨ 0 < n)
    (hkeep : (s.pc j).pending ≤ q.pending ∨ 0 < n) (hj : Place s' q) : Tidy s' := by
  obtain ⟨hself, hother⟩ := eq_update_iff.mp hpc
  have hsame : ∀ k, (s'.pc k).won = (s.pc k).won := by
    intro k
    by_cases hk : k = j
    · rw [hk, hself, hwon, hq]
    · rw [hother k hk]
  have hback : ∀ {f : Pc → Bool}, f (s.pc j) = false → (∀ k, f (s'.pc k) = false) →
      ∀ k, f (s.pc k) = false := by
    intro f hfj hnone k
    by_cases hk : k = j
    · rw [hk, hfj]
    · rw [← hother k hk, hnone k]
  have htotal := total_update s.pc Pc.pending j q
  rw [← hpc] at htotal
  have hnew : (∀ k, (s.pc k).won = false) → n = total s'.pc Pc.pending := by
    intro hnone
    have := h.count hnone
    omega
  refine ⟨hlock, fun k => ?_, fun k l hk hl => ?_, fun hnone => ?_, fun k hk => ?_, ?_, ?_, ?_, ?_,
    hbad⟩
  · by_cases hk : k = j
    · rw [hk, hself]
      exact hj
    · rw [hother k hk]
      exact (h.place k).congr hblock hexited hfrees
        (hn.imp_right fun hlocked => h.not_locked hlocked hk)
  · rw [hsame k] at hk
    by_cases hlj : l = j
    · rw [hlj, hself]
      exact hquiet k hk
    · rw [hother l hlj]
      exact h.sole k l hk hl
  · rw [hblock]
    exact hnew fun k => (hsame k).symm.trans (hnone k)
  · by_cases hnone : ∀ k, (s.pc k).won = false
    · left
      have hpos := hnew hnone
      have hold : ∀ l, (s.pc l).failed = true → 0 < total s'.pc Pc.pending := by
        intro l hl
        rcases h.someone l hl with hleft | ⟨m, hm⟩
        · omega
        · simp [hnone m] at hm
      by_cases hkj : k = j
      · rw [hkj, hself] at hk
        rcases hfailed hk with hx | hx
        · exact hold j hx
        · omega
      · rw [hother k hkj] at hk
        exact hold k hk
    · right
      obtain ⟨l, hl⟩ := Classical.not_forall.mp hnone
      exact ⟨l, by rw [hsame l]; simpa using hl⟩
  · rw [hblock]
    exact h.joinable
  · rw [hblock]
    exact fun hnone => h.kept (hback (Pc.unlinked_of_not_won hwon) hnone)
  · rw [hblock, hexited]
    exact h.exited
  · rw [hfrees]
    exact fun hnone => h.frees (hback (Pc.joined_of_not_won hwon) hnone)

end

theorem Tidy.of_winner (hpc : s'.pc = update s.pc j q)
    (hlock : s'.Locked)
    (hothers : ∀ k, k ≠ j → (s.pc k).quiet = true) (hq : q.won = true)
    (hjoinable : s'.block.joinable = true)
    (hkept : q.unlinked = false →
      s'.block.magic = true ∧ (s'.block.dead = true → s'.block.linked = true))
    (hexited : s'.block.dead = true → s'.exited = some s'.block.joinArg)
    (hfrees : q.joined = false → s'.frees = 0) (hbad : s'.bad = false) (hj : Place s' q) :
    Tidy s' := by
  obtain ⟨hself, hother⟩ := eq_update_iff.mp hpc
  refine ⟨hlock, fun k => ?_, fun k l hk hl => ?_, fun hnone => ?_,
    fun _ _ => Or.inr ⟨j, by rw [hself]; exact hq⟩, hjoinable, fun hnone => hkept ?_, hexited,
    fun hnone => hfrees ?_, hbad⟩
  · by_cases hk : k = j
    · rw [hk, hself]
      exact hj
    · rw [hother k hk]
      exact Place.of_quiet (hothers k hk)
  · obtain rfl : k = j := by
      by_contra hne
      simp [hother k hne, Pc.won_of_quiet (hothers k hne)] at hk
    rw [hother l hl]
    exact hothers l hl
  · simpa [hself, hq] using hnone j
  · rw [← hself]
    exact hnone j
  · rw [← hself]
    exact hnone j

/-! ## The steps -/

theorem Tidy.bad_access (h : Tidy s) (hquiet : (s.pc j).quiet = false)
    (hjoined : (s.pc j).joined = false) : (s.bad || decide (s.frees ≠ 0)) = false := by
  rw [h.bad, h.frees_eq_zero hquiet hjoined]
  rfl

theorem Tidy.test (h : Tidy s) (hquiet : (s.pc j).quiet = false)
    (hwon : (s.pc j).won = false) (hq : q.won = false) (hlocked : q.locked = (s.pc j).locked)
    (hpending : q.pending = (s.pc j).pending) (hfailed : q.failed = false) (hj : Place s q) :
    Tidy (s.access j s.block q) :=
  h.move rfl (h.lock_same rfl rfl hlocked) rfl rfl rfl
    (h.bad_access hquiet (Pc.joined_of_not_won hwon)) hwon hq
    (h.no_winner hquiet hwon) (Or.inl rfl) (by rw [hpending])
    (fun hx => by simp [hfailed] at hx) (Or.inl hpending.ge) (hj.congr rfl rfl rfl (Or.inl rfl))

theorem Tidy.goto {l : Option J} (h : Tidy s) (hs : s' = { s.goto j q with lock := l })
    (hlock : s'.Locked)
    (hwon : (s.pc j).won = false) (hq : q.won = false)
    (hquiet : ∀ k, (s.pc k).won = true → q.quiet = true)
    (hpending : q.pending = (s.pc j).pending)
    (hfailed : q.failed = true → (s.pc j).failed = true) (hj : Place s q) : Tidy s' := by
  subst hs
  exact h.move rfl hlock rfl rfl rfl h.bad hwon hq
    hquiet (Or.inl rfl) (by rw [hpending]) (fun hx => Or.inl (hfailed hx)) (Or.inl hpending.ge)
    (hj.congr rfl rfl rfl (Or.inl rfl))

theorem Tidy.goLock (h : Tidy s) (hpc : s.pc j = .lock)
    (hok : s.block.dead = true → s.block.linked = true) (hs : s.go j = some s') : Tidy s' := by
  simp only [Sys.go, hpc] at hs
  obtain ⟨hfree, ⟨⟩⟩ := Option.ite_none_right_eq_some.mp hs
  refine h.goto rfl (h.lock_take rfl hfree rfl rfl) (hpc ▸ rfl) rfl
    (fun k hk => ?_) (hpc ▸ rfl) nofun trivial
  -- a winner has the lock, or it has taken the thread out of the queue
  have hnot : (s.pc k).locked = false := by
    by_contra hx
    rw [(h.lock k).mpr (by simpa using hx)] at hfree
    cases hfree
  obtain ⟨hdead, hlinked⟩ := (h.place k).taken_out hk hnot
  rw [hok hdead] at hlinked
  cases hlinked

theorem Tidy.goState (h : Tidy s) (hpc : s.pc j = .state)
    (hok : s.block.dead = true → s.block.joinedCount = 0) (hs : s.go j = some s') : Tidy s' := by
  simp only [Sys.go, hpc, Option.some.injEq] at hs
  subst hs
  refine h.test (hpc ▸ rfl) (hpc ▸ rfl) ?_ ?_ ?_ ?_ ?_ <;> split
  case refine_5.isTrue hdead => exact ⟨hdead, hok hdead⟩
  case refine_5.isFalse => trivial
  all_goals first | rfl | (rw [hpc]; rfl)

theorem Tidy.goRegister (h : Tidy s) (hpc : s.pc j = .register) (hs : s.go j = some s') :
    Tidy s' := by
  have hquiet : (s.pc j).quiet = false := hpc ▸ rfl
  have hwon : (s.pc j).won = false := hpc ▸ rfl
  simp only [Sys.go, hpc, Option.some.injEq] at hs
  subst hs
  refine h.move rfl
    (h.lock_drop rfl rfl (hpc ▸ rfl) rfl) rfl rfl rfl
    (h.bad_access hquiet (Pc.joined_of_not_won hwon)) hwon rfl
    (h.no_winner hquiet hwon) (Or.inr (hpc ▸ rfl)) ?_ nofun (Or.inl ?_) trivial <;>
    simp [hpc, Pc.pending]

theorem Tidy.goCount {early : Bool} (h : Tidy s) (hpc : s.pc j = .count early)
    (hs : s.go j = some s') : Tidy s' := by
  have hquiet : (s.pc j).quiet = false := hpc ▸ rfl
  have hwon : (s.pc j).won = false := hpc ▸ rfl
  have hlocked : (s.pc j).locked = true := hpc ▸ rfl
  have hbad := h.bad_access hquiet (Pc.joined_of_not_won hwon)
  have hcount := h.count (h.none_won hquiet hwon)
  have hplace := h.place j
  rw [hpc] at hplace
  have hdead : s.block.dead = true := by
    cases early with
    | false => exact hplace.1
    | true => exact hplace
  -- a call that has not waited is here only if nobody has
  have hpending : s.block.joinedCount = 0 ∨ (s.pc j).pending = 1 := by
    cases early with
    | false => exact Or.inl hplace.2
    | true => exact Or.inr (hpc ▸ rfl)
  have htotal := total_update s.pc Pc.pending j .dead
  have hdone : Pc.pending .dead = 0 := rfl
  simp only [Sys.go, hpc, Option.some.injEq] at hs
  subst hs
  split
  case isTrue hmore =>
    refine h.move rfl
      (h.lock_same rfl rfl hlocked.symm) rfl rfl rfl hbad hwon rfl
      (h.no_winner hquiet hwon) (Or.inr hlocked) ?_ (fun _ => Or.inr hmore) (Or.inr hmore) nofun
    have hfail : Pc.pending (.fail .esrch) = 0 := rfl
    omega
  case isFalse hlast =>
    have hzero : total (update s.pc j .dead) Pc.pending = 0 := by omega
    have hothers : ∀ k, k ≠ j → (s.pc k).quiet = true := by
      intro k hk
      refine Pc.quiet_of (h.not_locked hlocked hk) ?_ (h.not_won hquiet hk)
      have hle : (update s.pc j .dead k).pending ≤ total (update s.pc j .dead) Pc.pending :=
        le_total k
      rw [hzero, update_of_ne hk] at hle
      exact Nat.le_zero.mp hle
    exact Tidy.of_winner rfl (h.lock_same rfl rfl hlocked.symm) hothers rfl
      h.joinable (fun _ => h.kept_of hquiet (hpc ▸ rfl)) h.exited
      (fun _ => h.frees_eq_zero hquiet (Pc.joined_of_not_won hwon)) hbad hdead

theorem Tidy.winner {magic linked : Bool} (h : Tidy s)
    (hpc : s'.pc = update s.pc j q)
    (hlock : s'.Locked)
    (hblock : s'.block = { s.block with magic := magic, linked := linked })
    (hexited : s'.exited = s.exited) (hwon : (s.pc j).won = true) (hq : q.won = true)
    (hkept : q.unlinked = false → (s.pc j).unlinked = false ∧ magic = s.block.magic ∧
      linked = s.block.linked)
    (hfrees : q.joined = false → s'.frees = 0) (hbad : s'.bad = false) (hj : Place s' q) :
    Tidy s' := by
  refine Tidy.of_winner hpc hlock (fun k hk => h.sole j k hwon hk) hq ?_ (fun hx => ?_) ?_ hfrees
    hbad hj
  · rw [hblock]
    exact h.joinable
  · obtain ⟨hunlinked, rfl, rfl⟩ := hkept hx
    rw [hblock]
    exact h.kept_of (Pc.not_quiet_of_won hwon) hunlinked
  · rw [hblock, hexited]
    exact h.exited

theorem Tidy.goWinner (h : Tidy s) (hwon : (s.pc j).won = true) (hs : s.go j = some s') :
    Tidy s' := by
  have hplace := h.place j
  have hzero := h.frees_eq_zero (Pc.not_quiet_of_won hwon)
  have hbad := h.bad_access (Pc.not_quiet_of_won hwon)
  cases hpc : s.pc j <;> rw [hpc] at hplace hzero hbad <;>
    simp only [Sys.go, hpc, Option.some.injEq] at hs
  case dead =>
    have hdead : s.block.dead = true := hplace
    simp only [hdead, if_true] at hs
    subst hs
    exact h.winner rfl (h.lock_same rfl rfl (hpc ▸ rfl)) rfl rfl hwon
      rfl (fun _ => ⟨hpc ▸ rfl, rfl, rfl⟩) (fun _ => hzero rfl) (hbad rfl) hdead
  case value =>
    subst hs
    exact h.winner rfl
      (h.lock_same rfl rfl (hpc ▸ rfl)) rfl rfl hwon rfl
      (fun _ => ⟨hpc ▸ rfl, rfl, rfl⟩) (fun _ => hzero rfl) (hbad rfl)
      ⟨hplace, h.exited hplace⟩
  case unlink =>
    obtain ⟨hdead, hexited⟩ := hplace
    subst hs
    exact h.winner rfl (h.lock_same rfl rfl (hpc ▸ rfl)) rfl rfl
      hwon rfl nofun (fun _ => hzero rfl) (hbad rfl) ⟨hdead, rfl, hexited⟩
  case unlock =>
    subst hs
    exact h.winner rfl
      (h.lock_drop rfl rfl (hpc ▸ rfl) rfl) rfl rfl hwon rfl nofun
      (fun _ => hzero rfl) h.bad hplace
  case dequeue =>
    subst hs
    exact h.winner rfl (h.lock_same rfl rfl (hpc ▸ rfl)) rfl rfl
      hwon rfl nofun (fun _ => hzero rfl) (hbad rfl) hplace
  case free v =>
    obtain ⟨hdead, hlinked, hexited⟩ := hplace
    subst hs
    refine h.winner rfl
      (h.lock_same rfl rfl (hpc ▸ rfl)) rfl rfl hwon rfl nofun
      nofun (hbad rfl) ⟨hdead, hlinked, ?_, v, hexited, rfl⟩
    show s.frees + 1 = 1
    rw [hzero rfl]
  all_goals first | (rw [hpc] at hwon; cases hwon) | cases hs

theorem Tidy.goTest (h : Tidy s) (hok : AccessOk s (s.pc j)) (hwon : (s.pc j).won = false)
    (hs : s.go j = some s') : Tidy s' := by
  have hplace := h.place j
  cases hpc : s.pc j
  case idle | waiting | returned => simp [Sys.go, hpc] at hs
  case dead | value | unlink | unlock | dequeue | free =>
    rw [hpc] at hwon
    cases hwon
  case lock =>
    rw [hpc] at hok
    exact h.goLock hpc hok hs
  case state =>
    rw [hpc] at hok
    exact h.goState hpc hok hs
  case register => exact h.goRegister hpc hs
  case count => exact h.goCount hpc hs
  case magic =>
    have hmagic := (h.kept_of (j := j) (hpc ▸ rfl) (hpc ▸ rfl)).1
    simp only [Sys.go, hpc, hmagic, if_true, Option.some.injEq] at hs
    subst hs
    exact h.test (hpc ▸ rfl) hwon rfl (hpc ▸ rfl) (hpc ▸ rfl) rfl trivial
  case joinable =>
    simp only [Sys.go, hpc, h.joinable, if_true, Option.some.injEq] at hs
    subst hs
    exact h.test (hpc ▸ rfl) hwon rfl (hpc ▸ rfl) (hpc ▸ rfl) rfl trivial
  case threads =>
    simp only [Sys.go, hpc, Option.some.injEq] at hs
    subst hs
    exact h.goto rfl (h.lock_same rfl rfl (hpc ▸ rfl)) hwon rfl
      (h.no_winner (hpc ▸ rfl) hwon) (hpc ▸ rfl) nofun trivial
  case relock =>
    rw [hpc] at hplace
    simp only [Sys.go, hpc] at hs
    obtain ⟨hfree, ⟨⟩⟩ := Option.ite_none_right_eq_some.mp hs
    exact h.goto rfl (h.lock_take rfl hfree rfl rfl) hwon rfl
      (h.no_winner (hpc ▸ rfl) hwon) (hpc ▸ rfl) nofun hplace
  case contains e =>
    rw [hpc] at hplace
    have hdead : s.block.dead = true := by
      cases e with
      | false => exact hplace.1
      | true => exact hplace
    have hlinked := (h.kept_of (j := j) (hpc ▸ rfl) (hpc ▸ rfl)).2 hdead
    simp only [Sys.go, hpc, hlinked, if_true, Option.some.injEq] at hs
    subst hs
    refine h.test (hpc ▸ rfl) hwon rfl (hpc ▸ rfl) ?_ rfl ?_
    · rw [hpc]
      cases e <;> rfl
    · cases e <;> exact hplace
  case fail rc =>
    rw [hpc] at hplace
    simp only [Sys.go, hpc, Option.some.injEq] at hs
    subst hs
    have hne : rc ≠ .ok := hplace
    refine h.goto rfl (h.lock_drop rfl rfl (hpc ▸ rfl) rfl) hwon
      ?_ (h.no_winner (hpc ▸ rfl) hwon) (hpc ▸ rfl)
      (fun _ => hpc ▸ rfl) ?_
    · cases rc <;> first | rfl | cases hne rfl
    · cases rc <;> trivial

theorem Tidy.step {e : Event J} (h : Tidy s) (hok : Orderly s e) (hs : s.step e = some s') :
    Tidy s' := by
  cases e with
  | call j =>
    obtain ⟨hpc, ⟨⟩⟩ := Option.ite_none_right_eq_some.mp hs
    exact h.goto rfl (h.lock_same rfl rfl (hpc ▸ rfl)) (hpc ▸ rfl) rfl
      (fun _ _ => rfl) (hpc ▸ rfl) nofun trivial
  | go j =>
    by_cases hwon : (s.pc j).won = true
    · exact h.goWinner hwon hs
    · exact h.goTest hok (by simpa using hwon) hs
  | alone j =>
    obtain ⟨⟨hpc, hmagic⟩, -⟩ := Option.ite_none_right_eq_some.mp hs
    rw [(h.kept_of (j := j) (hpc ▸ rfl) (hpc ▸ rfl)).1] at hmagic
    cases hmagic
  | wake j =>
    obtain ⟨hpc, ⟨⟩⟩ := Option.ite_none_right_eq_some.mp hs
    exact h.goto rfl (h.lock_same rfl rfl (hpc ▸ rfl)) (hpc ▸ rfl) rfl
      (h.no_winner (j := j) (hpc ▸ rfl) (hpc ▸ rfl)) (hpc ▸ rfl) nofun hok
  | exit v => exact h.exit hs

theorem Pc.of_outside (h : q.outside = true) :
    q.pending = 0 ∧ (q.won = true → q.joined = true) ∧
      (q ≠ .idle → q.joined = false → q.failed = true) := by
  cases q with
  | idle => exact ⟨rfl, fun hwon => hwon, fun hne => absurd rfl hne⟩
  | returned rc => cases rc <;> simp [Pc.pending, Pc.won, Pc.joined, Pc.failed]
  | _ => cases h

theorem Tidy.joinOnce (h : Tidy s) : JoinOnce s := by
  have hone : ∀ j v, s.pc j = .returned .ok v → s.frees = 1 ∧
      ∃ x, s.exited = some x ∧ v = some x := by
    intro j v hj
    have hplace := h.place j
    rw [hj] at hplace
    exact ⟨hplace.2.2.1, hplace.2.2.2⟩
  have hjoined : ∀ j, (s.pc j).joined = true → ∃ v, s.pc j = .returned .ok v := by
    intro j hj
    unfold Pc.joined at hj
    split at hj
    · exact ⟨_, by assumption⟩
    · cases hj
  refine ⟨fun j k v w hj hk => ?_, fun j v hj => (hone j v hj).2, ?_, h.bad, fun hcalled hall => ?_⟩
  · by_contra hne
    have hquiet := h.sole k j (by rw [hk]; rfl) hne
    rw [hj] at hquiet
    cases hquiet
  · by_cases hsome : ∃ j, (s.pc j).joined = true
    · obtain ⟨j, hj⟩ := hsome
      obtain ⟨v, hv⟩ := hjoined j hj
      rw [(hone j v hv).1]
    · have := h.frees fun j => by
        by_contra hx
        exact hsome ⟨j, by simpa using hx⟩
      omega
  · have hplace : ∀ j, (s.pc j).pending = 0 ∧ ((s.pc j).won = true → (s.pc j).joined = true) ∧
        (s.pc j ≠ .idle → (s.pc j).joined = false → (s.pc j).failed = true) :=
      fun j => Pc.of_outside (hall j)
    have hsome : ∃ j, (s.pc j).joined = true := by
      obtain ⟨j, hj⟩ := hcalled
      by_cases hx : (s.pc j).joined = true
      · exact ⟨j, hx⟩
      · rcases h.someone j ((hplace j).2.2 hj (by simpa using hx)) with hpos | ⟨k, hk⟩
        · rw [total_eq_zero fun k => (hplace k).1] at hpos
          omega
        · exact ⟨k, (hplace k).2.1 hk⟩
    obtain ⟨j, hj⟩ := hsome
    obtain ⟨v, hv⟩ := hjoined j hj
    exact ⟨(hone j v hv).1, j, v, hv⟩

/-- **Join.** Exactly one call gets the value, and nobody uses the block after it has been
freed. -/
theorem join_once (s : Sys J) (h : Reachable Sys.step Orderly Start s) : JoinOnce s := by
  have htidy : Tidy s :=
    h.invariant (fun _ hstart => hstart.tidy) fun _ _ _ ht hok hs => ht.step hok hs
  exact htidy.joinOnce

/-! ## Two calls -/

/-- A joinable thread that runs. -/
def running : Sys Bool := ⟨⟨true, true, false, false, 0, 0⟩, none, fun _ => .idle, none, 0, false⟩

theorem running_start : Start running := ⟨rfl, rfl, fun _ => rfl, rfl, rfl, rfl⟩

/-- A call comes before the exit and waits. -/
def waits (j : Bool) : List (Event Bool) :=
  [.call j, .go j, .go j, .go j, .go j, .go j, .go j]

/-- Both calls wait, and the second one to wake up gets the value. -/
def bothWait : List (Event Bool) :=
  waits true ++ waits false ++ [.exit 9] ++
    [.wake true, .wake false, .go true, .go true, .go true, .go true] ++
    List.replicate 9 (.go false)

theorem join_once_waiting :
    ∃ s, runOk Sys.step Orderly running bothWait = some s ∧
      s.pc true = .returned .esrch none ∧ s.pc false = .returned .ok (some 9) ∧ JoinOnce s := by
  refine exists_and_of_any₂ (fun _ => id) (by decide +kernel) fun s hs _ _ => ?_
  exact join_once s (reachable_of_runOk (.init running_start) hs)

/-- One call waits. The thread exits, and before the call wakes up another one comes, takes
its part of `joined_count` and frees the block, which the first one then uses. -/
theorem late_join_frees :
    ∃ s : Sys Bool, Reachable Sys.step Always Start s ∧ s.frees = 1 ∧ s.bad = true ∧
      ¬ JoinOnce s := by
  refine exists_and_of_any₂ (o := run Sys.step running (waits true ++ [.exit 9, .call false] ++
    List.replicate 13 (.go false) ++ [.wake true, .go true, .go true]))
    (fun _ => reachable_of_run (.init running_start)) (by decide +kernel) fun s _ _ hbad h => ?_
  have hsafe := h.safe
  rw [hbad] at hsafe
  cases hsafe

end Ngpt.Join
