import Ngpt.Sync.Qlock
import Ngpt.Sync.Semaphore

/-!
# ngpt — the recursive lock of the native threads (`pth_p.h.in`)

`_pth_acquire_lock`, `_pth_try_lock` and `_pth_release_lock` on one `pth_qlock_t`, one
memory access at a time, by any number of native threads in any interleaving. The spin
lock is an atomic test-and-set; `owner` is read without it. A native that is not the
owner may read `owner` while it changes, but it never reads its own tid, because only
it stores that tid and it clears it before it gives the spin lock back.

`count` is an `int` that is incremented without a test: after `2 ^ 31` acquires the count
of a held lock is negative (`nested_count_wraps`).

Result: `native_lock_contract`.
-/

namespace Ngpt.Sync.NativeLock

open Function Transition Semaphore

def intMax : Int := 2 ^ 31 - 1

theorem wrapInt_count {x : Int} (hlo : 0 ≤ x) (hhi : x ≤ intMax) : wrapInt x = x :=
  wrapInt_eq (by omega) hhi

/-- `pth_qlock_t`; `owner` is 0 when nobody has the lock. -/
structure Word where
  spinlock : Bool
  owner    : Int
  count    : Int
  deriving DecidableEq, Repr

/-- The native threads with their tids. -/
structure Natives (N : Type) where
  tid     : N → Int
  ne_zero : ∀ n, tid n ≠ 0
  inj     : ∀ n m, tid n = tid m → n = m

/-- What the functions return. -/
inductive Rc where
  | ok
  | minusOne
  | eagain
  deriving DecidableEq, Repr

/-- Where a native thread is: before the named access. -/
inductive Pc where
  | idle
  /-- `_pth_acquire_lock` and `_pth_try_lock`: the read of `owner`, the increment of
  `count`, the spin lock, and the stores to `count` and `owner` -/
  | acqOwner (tryonly : Bool)
  | acqLoad
  | acqIncr (count : Int)
  | acqSpin (tryonly : Bool)
  | acqCount
  | acqStore
  /-- `_pth_release_lock`: the read of `owner`, the decrement of `count`, the test of
  `count`, the store to `owner`, and the spin lock -/
  | relOwner
  | relLoad
  | relDecr (count : Int)
  | relTest
  | relStore
  | relSpin
  | returned (rc : Rc)
  deriving DecidableEq, Repr

/-- A native thread that may make a call. -/
def Pc.outside : Pc → Bool
  | .idle | .returned _ => true
  | _ => false

/-- The lock and the native threads. `acquires` and `releases` are not in the code: how
many calls of a native thread have acquired the lock and released it. -/
structure State (N : Type) where
  lock     : Word
  pc       : N → Pc
  acquires : N → Nat
  releases : N → Nat

inductive Action (N : Type) where
  | acquire (n : N) (tryonly : Bool)
  | release (n : N)
  /-- the next access of `n` -/
  | go (n : N)
  deriving DecidableEq, Repr

variable {N : Type}

namespace State

variable [DecidableEq N]

def goto (s : State N) (n : N) (pc : Pc) : State N :=
  { s with pc := update s.pc n pc }

def setLock (s : State N) (lock : Word) : State N := { s with lock := lock }

/-- An acquire returns. -/
def acquired (s : State N) (n : N) : State N :=
  { s.goto n (.returned .ok) with
    acquires := update s.acquires n (s.acquires n + 1) }

/-- A release returns. -/
def released (s : State N) (n : N) : State N :=
  { s.goto n (.returned .ok) with
    releases := update s.releases n (s.releases n + 1) }

/-- The next access of `n`; a native that spins has none while the spin lock is taken. -/
def go (w : Natives N) (s : State N) (n : N) : Option (State N) :=
  match s.pc n with
  | .acqOwner tryonly =>
    if w.tid n = s.lock.owner then some (s.goto n .acqLoad)
    else some (s.goto n (.acqSpin tryonly))
  | .acqLoad => some (s.goto n (.acqIncr s.lock.count))
  | .acqIncr count => some ((s.setLock { s.lock with count := wrapInt (count + 1) }).acquired n)
  | .acqSpin tryonly =>
    if s.lock.spinlock then
      if tryonly then some (s.goto n (.returned .eagain)) else none
    else some ((s.setLock { s.lock with spinlock := true }).goto n .acqCount)
  | .acqCount => some ((s.setLock { s.lock with count := 1 }).goto n .acqStore)
  | .acqStore => some ((s.setLock { s.lock with owner := w.tid n }).acquired n)
  | .relOwner =>
    if s.lock.owner ≠ w.tid n then some (s.goto n (.returned .minusOne))
    else some (s.goto n .relLoad)
  | .relLoad => some (s.goto n (.relDecr s.lock.count))
  | .relDecr count =>
    some ((s.setLock { s.lock with count := wrapInt (count - 1) }).goto n .relTest)
  | .relTest =>
    if s.lock.count = 0 then some (s.goto n .relStore) else some (s.released n)
  | .relStore => some ((s.setLock { s.lock with owner := 0 }).goto n .relSpin)
  | .relSpin => some ((s.setLock { s.lock with spinlock := false }).released n)
  | .idle | .returned _ => none

def step (w : Natives N) (s : State N) : Action N → Option (State N)
  | .acquire n tryonly =>
    if (s.pc n).outside then some (s.goto n (.acqOwner tryonly)) else none
  | .release n => if (s.pc n).outside then some (s.goto n .relOwner) else none
  | .go n => s.go w n

end State

/-- `pth_qlock_st_INIT_UNLOCKED`, and nobody has called yet. -/
structure Initial (s : State N) : Prop where
  lock     : s.lock = ⟨false, 0, 0⟩
  pc       : ∀ n, s.pc n = .idle
  acquires : ∀ n, s.acquires n = 0
  releases : ∀ n, s.releases n = 0

/-! ## The invariant -/

variable {w : Natives N} {s s' : State N} {n m : N} {a : Action N} {lock : Word} {pc : Pc}
  {l : Qlock N}

/-- Between an acquire and its release. -/
def State.holds (s : State N) (n : N) : Prop := s.releases n < s.acquires n

/-- The places of a native thread that has not got the spin lock. -/
def Pc.away : Pc → Bool
  | .idle | .returned _ | .acqOwner _ | .acqSpin _ | .relOwner => true
  | _ => false

/-- A native thread without the spin lock: its acquires have had their releases. -/
structure Out (s : State N) (n : N) : Prop where
  balance : s.acquires n = s.releases n
  pc      : (s.pc n).away = true

/-- What the words of the lock say while `n`, at `pc`, has the spin lock and `depth`
acquires of `n` are not released. -/
def Fits (tid : Int) (lock : Word) (depth : Int) : Pc → Prop
  | .idle | .returned _ | .acqOwner _ | .relOwner | .acqLoad | .relLoad =>
    lock.owner = tid ∧ lock.count = depth ∧ 1 ≤ depth
  | .acqIncr count => lock.owner = tid ∧ lock.count = depth ∧ 1 ≤ depth ∧ count = depth ∧
      depth < intMax
  | .relDecr count => lock.owner = tid ∧ lock.count = depth ∧ 1 ≤ depth ∧ count = depth
  | .relTest => lock.owner = tid ∧ lock.count = depth - 1 ∧ 1 ≤ depth
  | .relStore => lock.owner = tid ∧ lock.count = 0 ∧ depth = 1
  | .relSpin => lock.owner = 0 ∧ depth = 1
  | .acqCount => lock.owner = 0 ∧ depth = 0
  | .acqStore => lock.owner = 0 ∧ lock.count = 1 ∧ depth = 0
  | .acqSpin _ => False

/-- The acquires of `n` that have not had their release. -/
def State.depth (s : State N) (n : N) : Int := s.acquires n - s.releases n

structure HeldBy (w : Natives N) (s : State N) (n : N) : Prop where
  spinlock : s.lock.spinlock = true
  fits     : Fits (w.tid n) s.lock (s.depth n) (s.pc n)
  bound    : s.depth n ≤ intMax
  others   : ∀ m, m ≠ n → Out s m

structure Free (s : State N) : Prop where
  spinlock : s.lock.spinlock = false
  owner    : s.lock.owner = 0
  out      : ∀ n, Out s n

/-- The lock as its users see it: held by `n` from the moment it has the spin lock. -/
def heldQlock (n : N) (depth : Int) : Qlock N := ⟨true, some n, (max 1 depth).toNat⟩

/-- **The invariant.** The lock is seen as `l`. -/
def Shows (w : Natives N) (s : State N) (l : Qlock N) : Prop :=
  (Free s ∧ l = Qlock.init) ∨ ∃ n, HeldBy w s n ∧ l = heldQlock n (s.depth n)

/-- The condition on a step: an acquire by the owner finds a count below `INT_MAX`. -/
def InRange (s : State N) : Action N → Prop
  | .go n => s.pc n = .acqLoad → s.lock.count < intMax
  | _ => True

instance (s : State N) (a : Action N) : Decidable (InRange s a) := by
  rcases a <;> dsimp only [InRange] <;> infer_instance

def initState : State N := ⟨⟨false, 0, 0⟩, fun _ => .idle, fun _ => 0, fun _ => 0⟩

theorem initState_initial : Initial (initState : State N) :=
  ⟨rfl, fun _ => rfl, fun _ => rfl, fun _ => rfl⟩

theorem Initial.shows (h : Initial s) : Shows w s Qlock.init := by
  refine Or.inl ⟨⟨by rw [h.lock], by rw [h.lock], fun n => ⟨?_, ?_⟩⟩, rfl⟩
  · rw [h.acquires n, h.releases n]
  · rw [h.pc n]
    rfl

theorem Out.congr (h : Out s n) (hacq : s'.acquires n = s.acquires n)
    (hrel : s'.releases n = s.releases n) (hpc : (s'.pc n).away = true) : Out s' n :=
  ⟨by rw [hacq, hrel, h.balance], hpc⟩

theorem others_out (h : ∀ m, m ≠ n → Out s m) (hpc : ∀ m, m ≠ n → s'.pc m = s.pc m)
    (hacq : ∀ m, m ≠ n → s'.acquires m = s.acquires m)
    (hrel : ∀ m, m ≠ n → s'.releases m = s.releases m) : ∀ m, m ≠ n → Out s' m := by
  intro m hm
  exact (h m hm).congr (hacq m hm) (hrel m hm) (by rw [hpc m hm]; exact (h m hm).pc)

theorem Fits.owner {tid depth : Int} (h : Fits tid lock depth pc) :
    lock.owner = tid ∨ lock.owner = 0 := by
  cases pc with
  | idle | returned | acqOwner | relOwner | acqLoad | relLoad | acqIncr | relDecr | relTest
  | relStore => exact Or.inl h.1
  | relSpin | acqCount | acqStore => exact Or.inr h.1
  | acqSpin => exact h.elim

theorem HeldBy.owner_ne (h : HeldBy w s n) (hm : m ≠ n) : s.lock.owner ≠ w.tid m := by
  rcases h.fits.owner with howner | howner
  · rw [howner]
    exact fun heq => hm (w.inj _ _ heq).symm
  · rw [howner]
    exact (w.ne_zero m).symm

theorem Free.owner_ne (h : Free s) (n : N) : s.lock.owner ≠ w.tid n := by
  rw [h.owner]
  exact (w.ne_zero n).symm

theorem Out.depth (h : Out s n) : s.depth n = 0 := by
  have hbalance := h.balance
  unfold State.depth
  omega

theorem Out.not_holds (h : Out s n) : ¬ s.holds n := by
  unfold State.holds
  rw [h.balance]
  exact Nat.lt_irrefl _

variable [DecidableEq N]

/-- What a step may do to the lock as it is seen. -/
def Moves (l l' : Qlock N) : Prop :=
  l' = l ∨ (∃ n, l.acquire n = some l') ∨ ∃ n, l' = l.release n

theorem goto_pc_self (s : State N) (n : N) (pc : Pc) : (s.goto n pc).pc n = pc :=
  update_self ..

theorem goto_pc_ne (s : State N) (pc : Pc) (hm : m ≠ n) : (s.goto n pc).pc m = s.pc m :=
  update_of_ne hm ..

theorem Out.go (h : Out s n) (howner : s.lock.owner ≠ w.tid n) (hs : s.go w n = some s') :
    (∃ pc, pc.away = true ∧ s' = s.goto n pc) ∨
      (s.lock.spinlock = false ∧
        s' = (s.setLock { s.lock with spinlock := true }).goto n .acqCount) := by
  have haway := h.pc
  unfold State.go at hs
  cases hpc : s.pc n <;> rw [hpc] at haway <;> cases haway
  case idle | returned => simp [hpc] at hs
  case acqOwner tryonly =>
    simp only [hpc, if_neg (Ne.symm howner), Option.some.injEq] at hs
    exact Or.inl ⟨.acqSpin tryonly, rfl, hs.symm⟩
  case acqSpin tryonly =>
    simp only [hpc] at hs
    split at hs
    · split at hs <;> cases hs
      exact Or.inl ⟨.returned .eagain, rfl, rfl⟩
    next hfree =>
      cases hs
      exact Or.inr ⟨by simpa using hfree, rfl⟩
  case relOwner =>
    simp only [hpc, if_pos howner, Option.some.injEq] at hs
    exact Or.inl ⟨.returned .minusOne, rfl, hs.symm⟩

/-! ## The steps -/

theorem Out.goto (h : Out s m) (hpc : pc.away = true) : Out (s.goto n pc) m := by
  refine h.congr rfl rfl ?_
  by_cases hm : m = n
  · rw [hm, goto_pc_self]
    exact hpc
  · rw [goto_pc_ne _ _ hm]
    exact h.pc

theorem Free.goto (h : Free s) (hpc : pc.away = true) : Free (s.goto n pc) :=
  ⟨h.spinlock, h.owner, fun m => (h.out m).goto hpc⟩

theorem HeldBy.goto (h : HeldBy w s n) (hm : m ≠ n) (hpc : pc.away = true) :
    HeldBy w (s.goto m pc) n := by
  refine ⟨h.spinlock, ?_, h.bound, fun k hk => (h.others k hk).goto hpc⟩
  rw [goto_pc_ne _ _ (Ne.symm hm)]
  exact h.fits

theorem HeldBy.move (h : HeldBy w s n)
    (hspin : lock.spinlock = true) (hfits : Fits (w.tid n) lock (s.depth n) pc) :
    HeldBy w ((s.setLock lock).goto n pc) n := by
  refine ⟨hspin, ?_, h.bound, ?_⟩
  · rw [goto_pc_self]
    exact hfits
  · exact others_out h.others (fun m hm => goto_pc_ne _ _ hm) (fun _ _ => rfl) fun _ _ => rfl

theorem acquired_depth (s : State N) (n : N) : (s.acquired n).depth n = s.depth n + 1 := by
  simp only [State.depth, State.acquired, State.goto, update_self]
  omega

theorem released_depth (s : State N) (n : N) : (s.released n).depth n = s.depth n - 1 := by
  simp only [State.depth, State.released, State.goto, update_self]
  omega

theorem HeldBy.acquired (h : HeldBy w s n) (hspin : lock.spinlock = true)
    (howner : lock.owner = w.tid n) (hcount : lock.count = s.depth n + 1)
    (hpos : 0 ≤ s.depth n) (hlt : s.depth n < intMax) :
    HeldBy w ((s.setLock lock).acquired n) n := by
  have hdepth : ((s.setLock lock).acquired n).depth n = s.depth n + 1 := acquired_depth _ n
  refine ⟨hspin, ?_, by omega, ?_⟩
  · have hpc : ((s.setLock lock).acquired n).pc n = .returned .ok := goto_pc_self ..
    rw [hpc, hdepth]
    exact ⟨howner, hcount, by omega⟩
  · exact others_out h.others (fun m hm => goto_pc_ne _ _ hm)
      (fun m hm => update_of_ne hm _ _) fun _ _ => rfl

theorem HeldBy.released (h : HeldBy w s n) (howner : s.lock.owner = w.tid n)
    (hcount : s.lock.count = s.depth n - 1) (hpos : 1 < s.depth n) :
    HeldBy w (s.released n) n := by
  have hdepth := released_depth s n
  have hbound := h.bound
  refine ⟨h.spinlock, ?_, by omega, ?_⟩
  · have hpc : (s.released n).pc n = .returned .ok := goto_pc_self ..
    rw [hpc, hdepth]
    exact ⟨howner, hcount, by omega⟩
  · exact others_out h.others (fun m hm => goto_pc_ne _ _ hm) (fun _ _ => rfl)
      fun m hm => update_of_ne hm _ _

theorem HeldBy.free (h : HeldBy w s n) (howner : s.lock.owner = 0) (hdepth : s.depth n = 1) :
    Free ((s.setLock { s.lock with spinlock := false }).released n) := by
  refine ⟨rfl, howner, fun m => ?_⟩
  by_cases hm : m = n
  · subst hm
    unfold State.depth at hdepth
    refine ⟨?_, ?_⟩
    · show s.acquires m = update s.releases m (s.releases m + 1) m
      rw [update_self]
      omega
    · show ((update s.pc m (.returned .ok)) m).away = true
      rw [update_self]
      rfl
  · exact (h.others m hm).congr rfl (update_of_ne hm _ _)
      ((goto_pc_ne _ _ hm).symm ▸ (h.others m hm).pc)

theorem HeldBy.stays (h : HeldBy w s n)
    (hspin : lock.spinlock = true) (hfits : Fits (w.tid n) lock (s.depth n) pc) :
    ∃ l, Shows w ((s.setLock lock).goto n pc) l ∧ Moves (heldQlock n (s.depth n)) l :=
  ⟨_, Or.inr ⟨n, h.move hspin hfits, rfl⟩, Or.inl rfl⟩

theorem acquire_heldQlock {depth : Int} (hpos : 1 ≤ depth) :
    (heldQlock n depth).acquire n = some (heldQlock n (depth + 1)) := by
  have hcount : (max 1 depth).toNat + 1 = (max 1 (depth + 1)).toNat := by omega
  simp [Qlock.acquire, heldQlock, hcount]

theorem release_heldQlock {depth : Int} (hpos : 1 < depth) :
    (heldQlock n depth).release n = heldQlock n (depth - 1) := by
  have hcount : (max 1 depth).toNat - 1 = (max 1 (depth - 1)).toNat := by omega
  have hne : ¬ (max 1 (depth - 1)).toNat = 0 := by omega
  simp [Qlock.release, heldQlock, hcount, hne]

theorem HeldBy.go (h : HeldBy w s n) (hok : InRange s (.go n)) (hs : s.go w n = some s') :
    ∃ l, Shows w s' l ∧ Moves (heldQlock n (s.depth n)) l := by
  have hfits := h.fits
  have hspin := h.spinlock
  have hbound := h.bound
  unfold State.go at hs
  cases hpc : s.pc n <;> simp only [hpc, reduceCtorEq, Option.some.injEq] at hfits hs
  case acqSpin => exact hfits.elim
  case acqOwner tryonly =>
    cases (if_pos hfits.1.symm).symm.trans hs
    exact h.stays hspin hfits
  case acqLoad =>
    subst hs
    obtain ⟨howner, hcount, hpos⟩ := hfits
    have hlt := hok hpc
    exact h.stays hspin ⟨howner, hcount, hpos, hcount, by omega⟩
  case acqIncr count =>
    subst hs
    obtain ⟨howner, hcount, hpos, rfl, hlt⟩ := hfits
    have hwrap : wrapInt (s.depth n + 1) = s.depth n + 1 := wrapInt_count (by omega) (by omega)
    refine ⟨_, Or.inr ⟨n, h.acquired hspin howner hwrap (by omega) hlt, rfl⟩,
      Or.inr (Or.inl ⟨n, ?_⟩)⟩
    rw [acquired_depth]
    exact acquire_heldQlock hpos
  case acqCount =>
    subst hs
    exact h.stays hspin ⟨hfits.1, rfl, hfits.2⟩
  case acqStore =>
    subst hs
    obtain ⟨-, hcount, hdepth⟩ := hfits
    have hacq : HeldBy w ((s.setLock { s.lock with owner := w.tid n }).acquired n) n :=
      h.acquired hspin rfl (by show s.lock.count = _; omega) (by omega) (by rw [hdepth]; decide)
    -- its users have seen the lock as taken since the spin lock was
    refine ⟨_, Or.inr ⟨n, hacq, rfl⟩, Or.inl ?_⟩
    rw [acquired_depth]
    show heldQlock n (s.depth n + 1) = heldQlock n (s.depth n)
    rw [hdepth]
    rfl
  case relOwner =>
    cases (if_neg (not_not.mpr hfits.1)).symm.trans hs
    exact h.stays hspin hfits
  case relLoad =>
    subst hs
    obtain ⟨howner, hcount, hpos⟩ := hfits
    exact h.stays hspin ⟨howner, hcount, hpos, hcount⟩
  case relDecr count =>
    subst hs
    obtain ⟨howner, hcount, hpos, rfl⟩ := hfits
    have hwrap : wrapInt (s.depth n - 1) = s.depth n - 1 := wrapInt_count (by omega) (by omega)
    exact h.stays hspin ⟨howner, hwrap, hpos⟩
  case relTest =>
    obtain ⟨howner, hcount, hpos⟩ := hfits
    split at hs <;> cases hs
    case isTrue hzero => exact h.stays hspin ⟨howner, hzero, by omega⟩
    case isFalse hzero =>
      refine ⟨_, Or.inr ⟨n, h.released howner hcount (by omega), rfl⟩, Or.inr (Or.inr ⟨n, ?_⟩)⟩
      rw [released_depth, release_heldQlock (by omega)]
  case relStore =>
    subst hs
    exact h.stays hspin ⟨rfl, hfits.2.2⟩
  case relSpin =>
    subst hs
    refine ⟨_, Or.inl ⟨h.free hfits.1 hfits.2, rfl⟩, Or.inr (Or.inr ⟨n, ?_⟩)⟩
    rw [hfits.2]
    simp [Qlock.release, heldQlock, Qlock.init]

theorem Free.take (h : Free s) :
    HeldBy w ((s.setLock { s.lock with spinlock := true }).goto n .acqCount) n := by
  have hdepth := (h.out n).depth
  refine ⟨rfl, ?_, ?_, ?_⟩
  · rw [goto_pc_self]
    exact ⟨h.owner, hdepth⟩
  · show s.depth n ≤ intMax
    rw [hdepth]
    decide
  · exact others_out (fun m _ => h.out m) (fun m hm => goto_pc_ne _ _ hm) (fun _ _ => rfl)
      fun _ _ => rfl

theorem Shows.go (h : Shows w s l) (hok : InRange s (.go n))
    (hs : s.go w n = some s') : ∃ l', Shows w s' l' ∧ Moves l l' := by
  rcases h with ⟨hfree, rfl⟩ | ⟨m, hheld, rfl⟩
  · rcases (hfree.out n).go (hfree.owner_ne n) hs with ⟨pc, haway, rfl⟩ | ⟨-, rfl⟩
    · exact ⟨_, Or.inl ⟨hfree.goto haway, rfl⟩, Or.inl rfl⟩
    · refine ⟨_, Or.inr ⟨n, hfree.take, rfl⟩, Or.inr (Or.inl ⟨n, ?_⟩)⟩
      show Qlock.init.acquire n = some (heldQlock n (s.depth n))
      rw [(hfree.out n).depth]
      rfl
  · by_cases hn : n = m
    · subst hn
      exact hheld.go hok hs
    · rcases (hheld.others n hn).go (hheld.owner_ne hn) hs with ⟨pc, haway, rfl⟩ | ⟨hspin, -⟩
      · exact ⟨_, Or.inr ⟨m, hheld.goto hn haway, rfl⟩, Or.inl rfl⟩
      · rw [hheld.spinlock] at hspin
        cases hspin

theorem Fits.atRest {tid depth : Int} (h : Fits tid lock depth pc)
    (hout : pc.outside = true) : lock.owner = tid ∧ lock.count = depth ∧ 1 ≤ depth := by
  cases pc with
  | idle | returned => exact h
  | _ => cases hout

theorem Shows.call (h : Shows w s l) (hout : (s.pc n).outside = true) (hpc : pc.away = true)
    (hentry : ∀ tid lock depth, lock.owner = tid ∧ lock.count = depth ∧ 1 ≤ depth →
      Fits tid lock depth pc) : Shows w (s.goto n pc) l := by
  rcases h with ⟨hfree, rfl⟩ | ⟨m, hheld, rfl⟩
  · exact Or.inl ⟨hfree.goto hpc, rfl⟩
  · by_cases hn : n = m
    · subst hn
      exact Or.inr ⟨n, hheld.move hheld.spinlock (hentry _ _ _ (hheld.fits.atRest hout)), rfl⟩
    · exact Or.inr ⟨m, hheld.goto hn hpc, rfl⟩

/-- Seen from outside, the three functions are the operations of `Qlock`. -/
theorem step_qlock (h : Shows w s l) (hok : InRange s a)
    (hs : s.step w a = some s') : ∃ l', Shows w s' l' ∧ Moves l l' := by
  cases a with
  | go n => exact h.go hok hs
  | acquire | release =>
    simp only [State.step, Option.ite_none_right_eq_some, Option.some.injEq] at hs
    obtain ⟨hout, rfl⟩ := hs
    exact ⟨l, h.call hout rfl fun _ _ _ hrest => hrest, Or.inl rfl⟩

theorem reachable_shows (h : Reachable (State.step w) InRange Initial s) : ∃ l, Shows w s l := by
  refine h.invariant (I := fun s => ∃ l, Shows w s l) (fun s hs => ⟨_, hs.shows⟩) ?_
  rintro s a s' ⟨l, hl⟩ hok hs
  obtain ⟨l', hl', -⟩ := step_qlock hl hok hs
  exact ⟨l', hl'⟩

/-! ## The contract -/

structure Contract (w : Natives N) (s : State N) : Prop where
  exclusive : ∀ n m, s.holds n → s.holds m → n = m
  held      : ∀ n, s.holds n → (s.pc n).outside = true →
    s.lock.owner = w.tid n ∧ s.lock.count = s.acquires n - s.releases n ∧ 1 ≤ s.lock.count
  free      : (∀ n, s.acquires n = s.releases n) →
    (∀ n, s.pc n ≠ .acqCount ∧ s.pc n ≠ .acqStore) → s.lock.spinlock = false
  refused   : ∀ n, ¬ s.holds n → s.pc n = .relOwner →
    s.go w n = some (s.goto n (.returned .minusOne))

theorem Free.contract (h : Free s) : Contract w s where
  exclusive n _ hn _ := absurd hn (h.out n).not_holds
  held n hn _ := absurd hn (h.out n).not_holds
  free _ _ := h.spinlock
  refused n _ hpc := by
    simp only [State.go, hpc, if_pos (h.owner_ne n)]

theorem HeldBy.holds_eq (h : HeldBy w s n) (hm : s.holds m) : m = n := by
  by_contra hne
  exact (h.others m hne).not_holds hm

theorem Fits.entering {tid depth : Int} (h : Fits tid lock depth pc)
    (hdepth : depth ≤ 0) : pc = .acqCount ∨ pc = .acqStore := by
  cases pc with
  | acqCount => exact Or.inl rfl
  | acqStore => exact Or.inr rfl
  | acqSpin => exact h.elim
  | _ =>
    simp only [Fits] at h
    omega

theorem HeldBy.contract (h : HeldBy w s n) : Contract w s where
  exclusive m k hm hk := (h.holds_eq hm).trans (h.holds_eq hk).symm
  held m hm hout := by
    obtain rfl := h.holds_eq hm
    obtain ⟨howner, hcount, hpos⟩ := h.fits.atRest hout
    exact ⟨howner, hcount, by omega⟩
  free hbalance hpc := by
    have hdepth : s.depth n = 0 := by
      have := hbalance n
      unfold State.depth
      omega
    rcases h.fits.entering (by omega) with hat | hat
    · exact absurd hat (hpc n).1
    · exact absurd hat (hpc n).2
  refused m hm hpc := by
    have hne : m ≠ n := by
      rintro rfl
      have hfits := h.fits
      rw [hpc] at hfits
      have hpos := hfits.2.2
      unfold State.holds at hm
      unfold State.depth at hpos
      omega
    simp only [State.go, hpc, if_pos (h.owner_ne hne)]

/-- **The recursive lock**, in every interleaving in which no nested acquire finds a count of
`INT_MAX`: one native at most holds it and is the owner, the count is that of its acquires
without a release, the spin lock is free once all have had theirs, and a release by another
native returns -1 and changes nothing. -/
theorem native_lock_contract (w : Natives N) (s : State N)
    (hs : Reachable (State.step w) InRange Initial s) : Contract w s := by
  obtain ⟨l, ⟨hfree, -⟩ | ⟨n, hheld, -⟩⟩ := reachable_shows hs
  · exact hfree.contract
  · exact hheld.contract

/-- Native threads with the tids 1, 2 and so on. -/
def numbered : Natives Nat where
  tid n := n + 1
  ne_zero n := by omega
  inj n m h := by omega

/-- Native 0 acquires the lock twice; native 1 tries it and tries to release it. -/
theorem native_lock_contract_nested :
    ∃ s : State Nat, Reachable (State.step numbered) InRange Initial s ∧
      s.lock = ⟨true, 1, 2⟩ ∧ s.pc 1 = .returned .minusOne ∧ Contract numbered s := by
  refine exists_and_of_any₂ (o := runOk (State.step numbered) InRange initState [.acquire 0 false,
    .go 0, .acquire 1 true, .go 1, .go 0, .go 1, .go 0, .go 0, .acquire 0 false, .go 0, .go 0,
    .go 0, .release 1, .go 1]) (fun _ => reachable_of_runOk (.init initState_initial))
    (by decide +kernel) fun s hs _ _ => ?_
  exact native_lock_contract numbered s hs

/-! ## The end of the range -/

theorem reachable_acquire_again {s₀ : State Nat} {count : Int}
    (h : Reachable (State.step numbered) Always Initial s₀) (hlock : s₀.lock = ⟨true, 1, count⟩)
    (hout : (s₀.pc 0).outside = true) :
    ∃ s, Reachable (State.step numbered) Always Initial s ∧
      s.lock = ⟨true, 1, wrapInt (count + 1)⟩ ∧ (s.pc 0).outside = true ∧
      s.acquires 0 = s₀.acquires 0 + 1 ∧ s.releases 0 = s₀.releases 0 := by
  have hrun : run (State.step numbered) s₀ [.acquire 0 false, .go 0, .go 0, .go 0] =
      some ((((s₀.goto 0 (.acqOwner false)).goto 0 .acqLoad).goto 0 (.acqIncr count)).setLock
        ⟨true, 1, wrapInt (count + 1)⟩ |>.acquired 0) := by
    simp [run, State.step, State.go, State.goto, hout, hlock, numbered]
  refine ⟨_, reachable_of_run h hrun, rfl, ?_, ?_, rfl⟩
  · simp [State.acquired, State.goto, State.setLock, Pc.outside]
  · simp [State.acquired, State.goto, State.setLock]

theorem reachable_nested (k : Nat) (hk : (k : Int) < intMax) :
    ∃ s, Reachable (State.step numbered) Always Initial s ∧ s.lock = ⟨true, 1, k + 1⟩ ∧
      (s.pc 0).outside = true ∧ s.acquires 0 = k + 1 ∧ s.releases 0 = 0 := by
  induction k with
  | zero =>
    exact exists_reachable initState_initial [.acquire 0 false, .go 0, .go 0, .go 0, .go 0]
      (by decide +kernel)
  | succ k ih =>
    obtain ⟨s₀, hs₀, hlock, hout, hacq, hrel⟩ := ih (by omega)
    obtain ⟨s, hs, hlock', hout', hacq', hrel'⟩ := reachable_acquire_again hs₀ hlock hout
    refine ⟨s, hs, ?_, hout', by omega, by omega⟩
    rw [hlock', wrapInt_count (by omega) (by omega)]
    simp

/-- After `2 ^ 31` nested acquires the count of the lock is negative. -/
theorem nested_count_wraps :
    ∃ s, Reachable (State.step numbered) Always Initial s ∧ s.acquires 0 = 2 ^ 31 ∧
      s.releases 0 = 0 ∧ s.lock.count = -(2 ^ 31) ∧ ¬ Contract numbered s := by
  obtain ⟨s₀, hs₀, hlock, hout, hacq, hrel⟩ := reachable_nested (2 ^ 31 - 2) (by decide)
  obtain ⟨s, hs, hlock', hout', hacq', hrel'⟩ := reachable_acquire_again hs₀ hlock hout
  have hcount : s.lock.count = -(2 ^ 31) := by
    rw [hlock']
    decide
  refine ⟨s, hs, by omega, by omega, hcount, fun hC => ?_⟩
  obtain ⟨-, -, hpos⟩ := hC.held 0 (by unfold State.holds; omega) hout'
  omega

end Ngpt.Sync.NativeLock
