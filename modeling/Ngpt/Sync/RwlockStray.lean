import Ngpt.Sync.CondMutex
import Ngpt.Sync.RwlockRuns

/-!
# ngpt — releasing a read/write lock that one does not hold

A read/write lock does not know who holds it. What keeps a stranger from releasing it is
`rw_mutex_rw`: `pth_mutex_release` returns `EPERM` to a thread that does not own it. With
`PTH_RWLOCK_RW` the stranger gets there at once. With `PTH_RWLOCK_RD` it first takes itself
off the count of readers and gets there only if that leaves 0, in which case the count is
restored; from any other count the release goes through.

The system is that of `Ngpt.Sync.Rwlock`, in which threads release only what they hold, with
releases by strangers beside it. Not in the code, for the last such release of a thread: what
it has added to `rw_readers` in all (`net`), the count that it found when it subtracted one
(`found`), and whether it has stored `rw_mode` (`stored`).
-/

namespace Ngpt.Sync.Rwlock.Stray

open Function Transition

structure State (Tid D : Type) where
  lock   : Rwlock.State Tid D
  stray  : Tid → Bool
  net    : Tid → Int
  found  : Tid → Option Nat
  stored : Tid → Bool

inductive Action (Tid D : Type) where
  /-- a step of the read/write lock -/
  | use (a : Rwlock.Action Tid D)
  /-- a thread calls `pth_rwlock_release` on a lock that it does not hold -/
  | release (t : Tid) (bounded : Bool)
  /-- the next statement of such a call -/
  | cont (t : Tid)
  deriving DecidableEq, Repr

variable {Tid D : Type} {s s' : State Tid D} {l l' : Rwlock.State Tid D} {t u : Tid}

/-- The thread that begins a call, or exits. -/
def begins : Rwlock.Action Tid D → Option Tid
  | .acquire t _ _ _ _ | .release t _ | .exit t _ => some t
  | _ => none

namespace State

variable [DecidableEq Tid] [DecidableEq D]

def goto (s : State Tid D) (t : Tid) (pc : Pc) : State Tid D := { s with lock := s.lock.goto t pc }

/-- Start a call of the mutex code. -/
def call (s : State Tid D) (t : Tid) (q : Sync.Pc RwMutex) (pc : Pc) : State Tid D :=
  { s with lock := s.lock.call t q pc }

/-- `rw_readers--`. -/
def decr (s : State Tid D) (t : Tid) : State Tid D :=
  { s with
    lock := { s.lock with readers := Unsigned.decr s.lock.readers }
    net := update s.net t (s.net t - 1)
    found := update s.found t (some s.lock.readers) }

/-- `rw_readers++`. -/
def incr (s : State Tid D) (t : Tid) : State Tid D :=
  { s with
    lock := { s.lock with readers := Unsigned.incr s.lock.readers }
    net := update s.net t (s.net t + 1) }

/-- `rw_mode = PTH_RWLOCK_RD`. -/
def store (s : State Tid D) (t : Tid) : State Tid D :=
  { s with lock := { s.lock with mode := .rd }, stored := update s.stored t true }

/-- The next statement of a `pth_rwlock_release` by a thread that holds nothing. -/
def cont (s : State Tid D) (t : Tid) : Option (State Tid D) :=
  match s.lock.pc t, s.lock.mutexes.pc t with
  | .test bounded, _ =>
    if s.lock.mode = .rw then some (s.call t (.releaseState .rw) (.unlockRw .rd))
    else some (s.call t (.acquire .rd false false bounded) .lockDec)
  | .unlockRw _, .returned rc => some (s.goto t (.released rc))
  | .lockDec, .returned rc =>
    if rc = .ok then
      let s := s.decr t
      if s.lock.readers = 0 then some (s.call t (.releaseState .rw) (.unlockLast .rd))
      else some (s.goto t .storeDec)
    else some (s.goto t (.released rc))
  | .unlockLast _, .returned rc =>
    if rc = .ok then some (s.goto t .storeDec)
    else some ((s.incr t).call t (.releaseState .rd) (.undoDec rc))
  | .undoDec rc, .returned _ => some (s.goto t (.released rc))
  | .storeDec, _ => some ((s.store t).call t (.releaseState .rd) .unlockDec)
  | .unlockDec, .returned _ => some (s.goto t (.released .ok))
  | _, _ => none

/-- A stranger: it is in no call, holds nothing and owns neither mutex. -/
def Stranger (s : State Tid D) (t : Tid) : Prop :=
  (s.lock.pc t).outside = true ∧ (s.lock.mutexes.pc t).outside = true ∧
    t ∉ s.lock.reading ∧ t ∉ s.lock.writing ∧
    (s.lock.mutexes.mem.mutex .rd).owner ≠ some t ∧ (s.lock.mutexes.mem.mutex .rw).owner ≠ some t

instance (s : State Tid D) (t : Tid) : Decidable (s.Stranger t) :=
  inferInstanceAs (Decidable (_ ∧ _))

def step (s : State Tid D) : Action Tid D → Option (State Tid D)
  | .use (.cont t) =>
    if s.stray t then none else (s.lock.cont t).map fun l => { s with lock := l }
  | .use a =>
    (s.lock.step a).map fun l => { s with
      lock := l
      stray := fun t => s.stray t && begins a ≠ some t }
  | .release t bounded =>
    if s.Stranger t then
      let s := { s with
        stray := update s.stray t true, net := update s.net t 0
        found := update s.found t none, stored := update s.stored t false }
      if s.lock.initialized then some (s.goto t (.test bounded))
      else some (s.goto t (.released .einval))
    else none
  | .cont t => if s.stray t then s.cont t else none

end State

structure Initial (s : State Tid D) : Prop where
  lock  : Rwlock.Initial s.lock
  stray : ∀ t, s.stray t = false

section Mutex

variable {Mid : Type} {m : Mid} {mem mem' mem'' : Mem Mid Tid D}

/-- A release by a thread that does not own the mutex, before one of its tests or refused. -/
def Denied (m : Mid) (q : Sync.Pc Mid) : Prop :=
  q = .releaseState m ∨ q = .releaseOwner m ∨ ∃ rc, q = .returned rc ∧ rc ≠ .ok

theorem denied_eperm {q : Sync.Pc Mid} (h : q = .returned .eperm) : Denied m q :=
  Or.inr (Or.inr ⟨.eperm, h, nofun⟩)

/-- What a release leaves of the mutexes, as other threads see them. -/
structure Kept (mem mem' : Mem Mid Tid D) : Prop where
  intern : ∀ k, (mem'.mutex k).internalLocked = (mem.mutex k).internalLocked
  owner  : ∀ k t, (mem'.mutex k).owner = some t → (mem.mutex k).owner = some t

theorem Kept.refl (mem : Mem Mid Tid D) : Kept mem mem := ⟨fun _ => rfl, fun _ _ h => h⟩

theorem Kept.trans (h : Kept mem mem') (h' : Kept mem' mem'') : Kept mem mem'' :=
  ⟨fun k => (h'.intern k).trans (h.intern k), fun k t ht => h.owner k t (h'.owner k t ht)⟩

end Mutex

/-! ## The other threads -/

/-- The thread that a step of the read/write lock is of. -/
def actor : Rwlock.Action Tid D → Option Tid
  | .acquire t _ _ _ _ | .release t _ | .mutex t _ | .cont t | .exit t _ => some t
  | .natives _ | .bind _ _ | .park _ _ => none

/-- Where the thread `t` is, and that it does not own `rw_mutex_rw`, for a step that is not
its own. -/
structure Aside (l l' : Rwlock.State Tid D) (t : Tid) : Prop where
  pc    : l'.pc t = l.pc t
  q     : l'.mutexes.pc t = l.mutexes.pc t
  owner : (l.mutexes.mem.mutex .rw).owner ≠ some t → (l'.mutexes.mem.mutex .rw).owner ≠ some t

def Unlatched (ms : Sys RwMutex Tid D) : Prop := ∀ m, (ms.mem.mutex m).internalLocked = false

/-- What a statement of `t` leaves: the mutexes, and the places of the others. -/
structure Moved (l l' : Rwlock.State Tid D) (t : Tid) : Prop where
  mem : l'.mutexes.mem = l.mutexes.mem
  pc  : ∀ u, u ≠ t → l'.pc u = l.pc u
  q   : ∀ u, u ≠ t → l'.mutexes.pc u = l.mutexes.pc u

theorem restore_same (l : Rwlock.State Tid D) (t : Tid) (h : Mode) :
    (l.restore t h).mutexes = l.mutexes ∧ (l.restore t h).pc = l.pc := by
  cases h <;> exact ⟨rfl, rfl⟩

/-- What a step leaves alone: the threads that it is not of, and the kind of the mutexes. -/
structure Spares (who : Option Tid) (l l' : Rwlock.State Tid D) : Prop where
  aside     : ∀ t, who ≠ some t → Aside l l' t
  unlatched : Unlatched l.mutexes → Unlatched l'.mutexes

theorem Moved.spares (h : Moved l l' u) : Spares (some u) l l' := by
  refine ⟨fun t hut => ?_, fun hun m => h.mem ▸ hun m⟩
  have hne : t ≠ u := fun ht => hut (congrArg some ht.symm)
  exact ⟨h.pc t hne, h.q t hne, fun ho => h.mem ▸ ho⟩

/-! ## The call of a stranger -/

/-- The call has changed nothing yet. -/
def Clean (s : State Tid D) (t : Tid) : Prop :=
  s.net t = 0 ∧ s.stored t = false ∧ s.found t = none

/-- The call has found another count than 1. -/
def Missed (s : State Tid D) (t : Tid) : Prop := ∃ n, s.found t = some n ∧ n ≠ 1

/-- What is known of a stranger at each place. -/
def Place (s : State Tid D) (t : Tid) : Prop :=
  let q := s.lock.mutexes.pc t
  match s.lock.pc t with
  | .test _ => Clean s t ∧ q.outside = true
  | .unlockRw h => h = .rd ∧ Clean s t ∧ Denied .rw q
  | .lockDec => Clean s t ∧ (q.acquires = some .rd ∨ ∃ rc, q = .returned rc)
  | .unlockLast h => h = .rd ∧ s.net t = -1 ∧ s.stored t = false ∧ s.found t = some 1 ∧
      Denied .rw q
  | .undoDec rc => rc ≠ .ok ∧ s.net t = 0 ∧ s.stored t = false ∧ s.found t = some 1 ∧
      (q.releases = some .rd ∨ ∃ rc, q = .returned rc)
  | .storeDec => Missed s t ∧ q.outside = true
  | .unlockDec => Missed s t ∧ (q.releases = some .rd ∨ ∃ rc, q = .returned rc)
  | .released rc => q.outside = true ∧
      ((rc ≠ .ok ∧ s.net t = 0 ∧ s.stored t = false) ↔ ∀ n, s.found t = some n → n = 1)
  | _ => False

structure Inv (s : State Tid D) : Prop where
  unlatched : Unlatched s.lock.mutexes
  owner     : ∀ t, s.stray t = true → (s.lock.mutexes.mem.mutex .rw).owner ≠ some t
  place     : ∀ t, s.stray t = true → Place s t

/-- A step that is not of `t`. -/
structure Frame (s s' : State Tid D) (t : Tid) : Prop where
  aside  : Aside s.lock s'.lock t
  net    : s'.net t = s.net t
  found  : s'.found t = s.found t
  stored : s'.stored t = s.stored t

theorem Place.frame (h : Place s t) (hf : Frame s s' t) : Place s' t := by
  unfold Place Clean Missed at h ⊢
  rw [hf.aside.pc, hf.aside.q, hf.net, hf.found, hf.stored]
  exact h

theorem acquires_of_outside {q : Sync.Pc RwMutex} (h : q.outside = true) : q.acquires = none := by
  cases q <;> first | rfl | cases h

theorem acquires_of_releases {q : Sync.Pc RwMutex} {m : RwMutex}
    (h : q.releases = some m ∨ ∃ rc, q = .returned rc) : q.acquires = none := by
  rcases h with h | ⟨rc, rfl⟩
  · cases q <;> first | rfl | cases h
  · rfl

theorem Denied.acquires {q : Sync.Pc RwMutex} {m : RwMutex} (h : Denied m q) :
    q.acquires = none := by
  rcases h with rfl | rfl | ⟨rc, rfl, -⟩ <;> rfl

theorem Place.acquires (h : Place s t) : (s.lock.mutexes.pc t).acquires ≠ some .rw := by
  intro hq
  have hsome : (s.lock.mutexes.pc t).acquires ≠ none := by simp [hq]
  unfold Place at h
  cases hpc : s.lock.pc t <;> rw [hpc] at h
  case test | storeDec => exact hsome (acquires_of_outside h.2)
  case released => exact hsome (acquires_of_outside h.1)
  case unlockRw => exact hsome h.2.2.acquires
  case unlockLast => exact hsome h.2.2.2.2.acquires
  case undoDec => exact hsome (acquires_of_releases h.2.2.2.2)
  case unlockDec => exact hsome (acquires_of_releases h.2)
  case lockDec =>
    rcases h.2 with hrd | ⟨rc, hrc⟩
    · cases hrd.symm.trans hq
    · exact hsome (hrc ▸ rfl)
  all_goals exact h.elim

theorem decr_eq_zero {n : Nat} : Unsigned.decr n = 0 ↔ n = 1 := by
  have hrange := Unsigned.one_lt_range
  unfold Unsigned.decr
  split <;> omega

variable {rc : Errno}

theorem Clean.tidy (h : Clean s t) (hrc : rc ≠ .ok) :
    (rc ≠ .ok ∧ s.net t = 0 ∧ s.stored t = false) ↔ ∀ n, s.found t = some n → n = 1 :=
  iff_of_true ⟨hrc, h.1, h.2.1⟩ (by simp [h.2.2])

theorem Denied.returned {m : RwMutex} (h : Denied m (.returned rc)) : rc ≠ .ok := by
  rcases h with h | h | ⟨rc', h, hrc⟩ <;> cases h
  exact hrc

/-- What a statement of a stranger leaves. -/
structure Step (s s' : State Tid D) (t : Tid) : Prop where
  moved   : Moved s.lock s'.lock t
  stray   : s'.stray = s.stray
  others  : ∀ u, u ≠ t → s'.net u = s.net u ∧ s'.found u = s.found u ∧ s'.stored u = s.stored u
  reading : s'.lock.reading = s.lock.reading
  writing : s'.lock.writing = s.lock.writing

theorem Inv.apart (h : Inv s) (hun : Unlatched s'.lock.mutexes)
    (hf : ∀ t, s'.stray t = true → s.stray t = true ∧ Frame s s' t ∨
      (s'.lock.mutexes.mem.mutex .rw).owner ≠ some t ∧ Place s' t) : Inv s' := by
  refine ⟨hun, fun t ht => ?_, fun t ht => ?_⟩
  · exact (hf t ht).elim (fun ⟨hs, hframe⟩ => hframe.aside.owner (h.owner t hs)) And.left
  · exact (hf t ht).elim (fun ⟨hs, hframe⟩ => (h.place t hs).frame hframe) And.right

theorem Initial.inv (h : Initial s) : Inv s := by
  refine ⟨fun m => ?_, fun t ht => ?_, fun t ht => ?_⟩
  · rw [h.lock.mutex m]
    rfl
  all_goals cases (h.stray t).symm.trans ht

/-! ## A statement -/

variable [DecidableEq Tid]

theorem moved_goto {k : Rwlock.State Tid D} {p : Pc} (hm : k.mutexes = l.mutexes)
    (hp : k.pc = l.pc) : Moved l (k.goto t p) t where
  mem := congrArg Sys.mem hm
  pc u hu := (update_of_ne hu ..).trans (congrFun hp u)
  q u _ := congrFun (congrArg Sys.pc hm) u

theorem moved_call {k : Rwlock.State Tid D} {q : Sync.Pc RwMutex} {p : Pc}
    (hm : k.mutexes = l.mutexes) (hp : k.pc = l.pc) : Moved l (k.call t q p) t where
  mem := (congrArg Sys.mem hm : k.mutexes.mem = l.mutexes.mem)
  pc u hu := (update_of_ne hu ..).trans (congrFun hp u)
  q u hu := (update_of_ne hu ..).trans (congrFun (congrArg Sys.pc hm) u)

theorem drop_same (l : Rwlock.State Tid D) (t : Tid) :
    (l.drop t).mutexes = l.mutexes ∧ (l.drop t).pc = l.pc := by
  unfold Rwlock.State.drop
  split <;> exact ⟨rfl, rfl⟩

theorem moved_cont (h : l.cont t = some l') : Moved l l' t := by
  obtain ⟨hdrop, hdropPc⟩ := drop_same l t
  cases cont_of_cont h with
  | lockRw hp hq => exact ⟨rfl, fun u hu => update_of_ne hu _ _, fun _ _ => rfl⟩
  | testRw | lockDecLast => exact moved_call hdrop hdropPc
  | lockDecNext => exact moved_goto hdrop hdropPc
  | unlockRwFail => exact moved_goto (restore_same ..).1 (restore_same ..).2
  | unlockLastFail => exact moved_call (restore_same ..).1 (restore_same ..).2
  | lockRdFirst | lockFirstFail | storeRd | testRd | storeDec => exact moved_call rfl rfl
  | lockRwFail | lockRdNext | lockRdFail | lockFirst | undoRd | unlockRd | unlockRw |
    lockDecFail | unlockLast | undoDec | unlockDec => exact moved_goto rfl rfl

@[simp] theorem goto_pc (s : State Tid D) (t : Tid) (p : Pc) : (s.goto t p).lock.pc t = p :=
  update_self ..

@[simp] theorem call_pc (s : State Tid D) (t : Tid) (q : Sync.Pc RwMutex) (p : Pc) :
    (s.call t q p).lock.pc t = p :=
  update_self ..

@[simp] theorem call_q (s : State Tid D) (t : Tid) (q : Sync.Pc RwMutex) (p : Pc) :
    (s.call t q p).lock.mutexes.pc t = q :=
  update_self ..

theorem Place.of_released {rc rc' : Errno} (hq : s.lock.mutexes.pc t = .returned rc')
    (h : (rc ≠ .ok ∧ s.net t = 0 ∧ s.stored t = false) ↔ ∀ n, s.found t = some n → n = 1) :
    Place (s.goto t (.released rc)) t := by
  unfold Place
  rw [goto_pc]
  exact ⟨congrArg Sync.Pc.outside hq, h⟩

theorem Place.lockDec (hclean : Clean s t) (hq : s.lock.mutexes.pc t = .returned rc)
    (hc : (if rc = .ok then
        if (s.decr t).lock.readers = 0 then
          some ((s.decr t).call t (.releaseState .rw) (.unlockLast .rd))
        else some ((s.decr t).goto t .storeDec)
      else some (s.goto t (.released rc))) = some s') : Place s' t := by
  obtain ⟨hnet, hstored, hfound⟩ := hclean
  split at hc
  case isTrue =>
    split at hc <;> cases hc <;> unfold Place
    case isTrue hzero =>
      rw [call_pc, call_q]
      have hone : s.lock.readers = 1 := decr_eq_zero.mp hzero
      refine ⟨rfl, ?_, hstored, ?_, Or.inl rfl⟩
      · simp [State.call, State.decr, hnet]
      · simp [State.call, State.decr, hone]
    case isFalse hzero =>
      rw [goto_pc]
      refine ⟨⟨s.lock.readers, ?_, fun hone => hzero (decr_eq_zero.mpr hone)⟩,
        congrArg Sync.Pc.outside hq⟩
      simp [State.goto, State.decr]
  case isFalse hrc =>
    cases hc
    exact .of_released hq (Clean.tidy ⟨hnet, hstored, hfound⟩ hrc)

theorem Place.cont (h : Place s t) (hc : s.cont t = some s') : Place s' t := by
  unfold Place at h
  unfold State.cont at hc
  split at hc
  case h_1 hpc =>
    rw [hpc] at h
    split at hc <;> cases hc <;> unfold Place <;> rw [call_pc, call_q]
    · exact ⟨rfl, h.1, Or.inl rfl⟩
    · exact ⟨h.1, Or.inl rfl⟩
  case h_2 hold rc hpc hq =>
    rw [hpc, hq] at h
    cases hc
    exact .of_released hq (h.2.1.tidy h.2.2.returned)
  case h_3 rc hpc hq =>
    rw [hpc] at h
    exact .lockDec h.1 hq hc
  case h_4 hold rc hpc hq =>
    rw [hpc, hq] at h
    obtain ⟨-, hnet, hstored, hfound, hdenied⟩ := h
    rw [if_neg hdenied.returned] at hc
    cases hc
    unfold Place
    rw [call_pc, call_q]
    refine ⟨hdenied.returned, ?_, hstored, hfound, Or.inl rfl⟩
    simp [State.call, State.incr, hnet]
  case h_5 rc rc' hpc hq =>
    rw [hpc] at h
    obtain ⟨hrc, hnet, hstored, hfound, -⟩ := h
    cases hc
    exact .of_released hq (iff_of_true ⟨hrc, hnet, hstored⟩ (by simp [hfound]))
  case h_6 hpc =>
    rw [hpc] at h
    cases hc
    unfold Place
    rw [call_pc, call_q]
    exact ⟨h.1, Or.inl rfl⟩
  case h_7 rc hpc hq =>
    rw [hpc] at h
    obtain ⟨n, hn, hne⟩ := h.1
    cases hc
    exact .of_released hq (iff_of_false (fun hok => hok.1 rfl) fun hall => hne (hall n hn))
  case h_8 => cases hc

theorem step_of_cont (hc : s.cont t = some s') : Step s s' t := by
  have hgoto : ∀ p, Step s (s.goto t p) t := fun p =>
    ⟨moved_goto rfl rfl, rfl, fun _ _ => ⟨rfl, rfl, rfl⟩, rfl, rfl⟩
  have hcall : ∀ q p, Step s (s.call t q p) t := fun q p =>
    ⟨moved_call rfl rfl, rfl, fun _ _ => ⟨rfl, rfl, rfl⟩, rfl, rfl⟩
  unfold State.cont at hc
  split at hc
  case h_1 => split at hc <;> cases hc <;> exact hcall ..
  case h_2 | h_5 | h_7 =>
    cases hc
    exact hgoto _
  case h_3 =>
    have hghosts : ∀ u, u ≠ t → (s.decr t).net u = s.net u ∧ (s.decr t).found u = s.found u ∧
        (s.decr t).stored u = s.stored u := fun u hu =>
      ⟨update_of_ne hu _ _, update_of_ne hu _ _, rfl⟩
    simp only at hc
    repeat' split at hc
    all_goals cases hc
    · exact ⟨moved_call rfl rfl, rfl, hghosts, rfl, rfl⟩
    · exact ⟨moved_goto rfl rfl, rfl, hghosts, rfl, rfl⟩
    · exact hgoto _
  case h_4 =>
    split at hc <;> cases hc
    · exact hgoto _
    · exact ⟨moved_call rfl rfl, rfl, fun u hu => ⟨update_of_ne hu _ _, rfl, rfl⟩, rfl, rfl⟩
  case h_6 =>
    cases hc
    exact ⟨moved_call rfl rfl, rfl, fun u hu => ⟨rfl, rfl, update_of_ne hu _ _⟩, rfl, rfl⟩
  case h_8 => cases hc

theorem Inv.turn (h : Inv s) (hspares : Spares (some t) s.lock s'.lock)
    (hstray : ∀ u, u ≠ t → s'.stray u = s.stray u)
    (hghosts : ∀ u, u ≠ t → s'.net u = s.net u ∧ s'.found u = s.found u ∧ s'.stored u = s.stored u)
    (ht : s'.stray t = true → (s'.lock.mutexes.mem.mutex .rw).owner ≠ some t ∧ Place s' t) :
    Inv s' := by
  refine h.apart (hspares.unlatched h.unlatched) fun u hu => ?_
  by_cases hut : u = t
  · exact Or.inr (hut ▸ ht (hut ▸ hu))
  · obtain ⟨hnet, hfound, hstored⟩ := hghosts u hut
    exact Or.inl ⟨hstray u hut ▸ hu,
      hspares.aside u fun htu => hut (Option.some.inj htu).symm, hnet, hfound, hstored⟩

theorem Inv.release {bounded : Bool} (h : Inv s) (hstranger : s.Stranger t)
    (hs : (let k : State Tid D := { s with
        stray := update s.stray t true, net := update s.net t 0
        found := update s.found t none, stored := update s.stored t false }
      if k.lock.initialized then some (k.goto t (.test bounded))
      else some (k.goto t (.released .einval))) = some s') : Inv s' := by
  obtain ⟨-, hq, -, -, -, howner⟩ := hstranger
  simp only at hs
  split at hs <;> cases hs
  all_goals
    refine h.turn (moved_goto rfl rfl).spares (fun u hu => update_of_ne hu ..)
      (fun u hu => ⟨update_of_ne hu .., update_of_ne hu .., update_of_ne hu ..⟩)
      fun _ => ⟨howner, ?_⟩
    unfold Place
    rw [goto_pc]
  · exact ⟨⟨update_self .., update_self .., update_self ..⟩, hq⟩
  · exact ⟨hq, Clean.tidy ⟨update_self .., update_self .., update_self ..⟩ nofun⟩

theorem stray_mutex (s : State Tid D) (t : Tid) (occurred : Bool) :
    (fun u => s.stray u &&
      decide (begins (.mutex t occurred : Rwlock.Action Tid D) ≠ some u)) = s.stray := by
  funext u
  simp [begins]

/-! ## The code of a holder -/

/-- The places of `pth_rwlock_release`, with the hold of a stranger, which is none. -/
def Releases : Pc → Prop
  | .test _ | .unlockRw .rd | .lockDec | .unlockLast .rd | .undoDec _ | .storeDec
  | .unlockDec => True
  | _ => False

theorem drop_of_not_mem (hr : t ∉ l.reading) (hw : t ∉ l.writing) : l.drop t = l := by
  unfold State.drop
  rw [if_neg hw, List.erase_of_not_mem hr]

theorem holdOf_of_not_mem (hw : t ∉ l.writing) : l.holdOf t = .rd := if_neg hw

/-- A stranger runs the code of `pth_rwlock_release`. -/
theorem cont_agrees (hpc : Releases (s.lock.pc t)) (hr : t ∉ s.lock.reading)
    (hw : t ∉ s.lock.writing) :
    (s.cont t).map State.lock = (s.lock.cont t).map fun l =>
      { l with reading := s.lock.reading, writing := s.lock.writing } := by
  unfold State.cont Rwlock.State.cont
  rw [drop_of_not_mem hr hw, holdOf_of_not_mem hw]
  cases hp : s.lock.pc t <;> rw [hp] at hpc
  case test =>
    simp only
    split <;> rfl
  case unlockRw h | unlockLast h =>
    cases h with
    | rw => exact hpc.elim
    | rd =>
      cases s.lock.mutexes.pc t with
      | returned rc =>
        simp only
        split
        · subst rc
          rfl
        · rfl
      | _ => rfl
  case lockDec =>
    cases s.lock.mutexes.pc t with
    | returned rc =>
      simp only
      split
      · show Option.map _ (if Unsigned.decr s.lock.readers = 0 then _ else _) =
          Option.map _ (if Unsigned.decr s.lock.readers = 0 then _ else _)
        split <;> rfl
      · rfl
    | _ => rfl
  case undoDec | storeDec | unlockDec => cases s.lock.mutexes.pc t <;> rfl
  all_goals exact hpc.elim

variable [DecidableEq D]

/-! ## The mutex code of one thread -/

section Mutex

variable {Mid : Type} [DecidableEq Mid] {ms ms' : Sys Mid Tid D} {m : Mid} {occurred : Bool}

theorem go_acquires (h : ms.go t occurred = some ms') (hq : (ms.pc t).acquires = some m) :
    (ms'.pc t).acquires = some m ∨ ∃ rc, ms'.pc t = .returned rc := by
  cases piece_of_go h with
  | @wait k extra pc mem hw hpc hsame =>
    obtain rfl : k = m := by simpa [Pc.acquires, hw] using hq
    rcases hpc with rfl | rfl <;> exact Or.inl (by simp [Sys.goto, Pc.acquires, Pc.wants])
  | locked hpc | owner hpc => simp [hpc, Pc.acquires, Pc.wants] at hq
  | _ => exact Or.inr ⟨_, update_self ..⟩

theorem go_releases (h : ms.go t occurred = some ms') (hq : (ms.pc t).releases = some m) :
    (ms'.pc t).releases = some m ∨ ∃ rc, ms'.pc t = .returned rc := by
  cases piece_of_go h with
  | locked hpc | owner hpc =>
    rw [hpc] at hq
    refine Or.inl ?_
    rw [← hq]
    simp [Sys.goto, Pc.releases]
  | wait hw =>
    cases hpc : ms.pc t <;> simp_all [Pc.wants, Pc.releases]
  | _ => exact Or.inr ⟨_, update_self ..⟩

theorem Denied.go (hq : Denied m (ms.pc t)) (hun : (ms.mem.mutex m).internalLocked = false)
    (howner : (ms.mem.mutex m).owner ≠ some t) (h : ms.go t occurred = some ms') :
    Denied m (ms'.pc t) := by
  rcases hq with hpc | hpc | ⟨rc, hpc, -⟩
  · simp only [Sys.go, hpc, hun] at h
    split at h <;> cases h
    · exact Or.inr (Or.inl (update_self ..))
    · exact denied_eperm (update_self ..)
  · simp only [Sys.go, hpc, if_pos howner] at h
    cases h
    exact denied_eperm (update_self ..)
  · simp [Sys.go, hpc] at h

theorem kept_release (mem : Mem Mid Tid D) (u : Tid) (m : Mid) :
    Kept mem (mem.pthMutexRelease u m).2 := by
  unfold Mem.pthMutexRelease
  simp only
  split <;> split
  · refine ⟨fun k => ?_, fun k t h => ?_⟩ <;> by_cases hk : k = m <;> simp_all
  · exact Kept.refl _
  · exact Kept.refl _
  · refine ⟨fun k => (releaseLocked_fields mem u m k).2, fun k t h => ?_⟩
    rw [releaseLocked_owner] at h
    exact (Option.ite_none_left_eq_some.mp h).2

theorem kept_releaseLoop {rnf : Option Mid} {fuel : Nat} {mem mem' : Mem Mid Tid D}
    {rn : Option Mid} (h : Mem.releaseLoop u rnf fuel mem rn = some mem') : Kept mem mem' := by
  induction fuel generalizing mem rn with
  | zero =>
    cases rn <;> cases h
    exact Kept.refl _
  | succ fuel ih =>
    cases rn with
    | none =>
      cases h
      exact Kept.refl _
    | some m =>
      have hone := kept_release mem u m
      simp only [Mem.releaseLoop] at h
      split at h
      · exact hone.trans (ih h)
      · split at h
        · cases h
          exact hone
        · exact hone.trans (ih h)

theorem kept_releaseall {fuel : Nat} {mem mem' : Mem Mid Tid D}
    (h : mem.pthMutexReleaseall fuel u = some mem') : Kept mem mem' := by
  unfold Mem.pthMutexReleaseall at h
  cases howned : (mem.thread u).mutexOwned with simp only [howned] at h
  | none => exact kept_releaseLoop h
  | some m => exact (kept_release mem u m).trans (kept_releaseLoop h)

end Mutex

/-! ## Every step -/

theorem step_spares {a : Rwlock.Action Tid D} (h : l.step a = some l') :
    Spares (actor a) l l' := by
  cases a with
  | acquire u op =>
    obtain ⟨-, h⟩ := Option.ite_none_right_eq_some.mp h
    split at h
    · cases op <;> cases h <;> exact (moved_call rfl rfl).spares
    · cases h
      exact (moved_goto rfl rfl).spares
  | release =>
    obtain ⟨-, h⟩ := Option.ite_none_right_eq_some.mp h
    split at h <;> cases h <;> exact (moved_goto rfl rfl).spares
  | mutex u occurred =>
    obtain ⟨ms, hgo, rfl⟩ := Option.map_eq_some_iff.mp h
    have hp := piece_of_go hgo
    refine ⟨fun t hut => ?_, hp.unlatched⟩
    have hne : u ≠ t := fun hu => hut (congrArg some hu)
    exact ⟨rfl, hp.pc_of_ne hne.symm, hp.not_owner hne⟩
  | cont => exact (moved_cont h).spares
  | exit u fuel =>
    obtain ⟨-, h⟩ := Option.ite_none_right_eq_some.mp h
    obtain ⟨mem, hall, rfl⟩ := Option.map_eq_some_iff.mp h
    have hkept := kept_releaseall hall
    refine ⟨fun t hut => ?_, fun hun m => (hkept.intern m).trans (hun m)⟩
    have hne : t ≠ u := fun ht => hut (congrArg some ht.symm)
    exact ⟨update_of_ne hne _ _, rfl, fun ho hown => ho (hkept.owner _ t hown)⟩
  | natives | bind | park =>
    cases h
    exact ⟨fun _ _ => ⟨rfl, rfl, id⟩, id⟩

theorem not_outside_of_go {ms ms' : Sys RwMutex Tid D} {occurred : Bool}
    (h : ms.go t occurred = some ms') : (ms.pc t).outside ≠ true := by
  intro hout
  cases hq : ms.pc t <;> simp_all [Sys.go, Sync.Pc.outside]

theorem Place.mutex {ms : Sys RwMutex Tid D} {occurred : Bool} (h : Place s t)
    (hun : Unlatched s.lock.mutexes) (howner : (s.lock.mutexes.mem.mutex .rw).owner ≠ some t)
    (hgo : s.lock.mutexes.go t occurred = some ms) :
    Place { s with lock := { s.lock with mutexes := ms } } t := by
  have hout := not_outside_of_go hgo
  have hreturned : ¬ ∃ rc, s.lock.mutexes.pc t = .returned rc :=
    fun ⟨rc, hrc⟩ => hout (hrc ▸ rfl)
  unfold Place at h ⊢
  simp only
  cases hpc : s.lock.pc t <;> rw [hpc] at h
  case test | storeDec => exact absurd h.2 hout
  case released => exact absurd h.1 hout
  case unlockRw => exact ⟨h.1, h.2.1, h.2.2.go (hun .rw) howner hgo⟩
  case unlockLast => exact ⟨h.1, h.2.1, h.2.2.1, h.2.2.2.1, h.2.2.2.2.go (hun .rw) howner hgo⟩
  case lockDec => exact ⟨h.1, go_acquires hgo (h.2.resolve_right hreturned)⟩
  case undoDec =>
    obtain ⟨hrc, hnet, hstored, hfound, hq⟩ := h
    exact ⟨hrc, hnet, hstored, hfound, go_releases hgo (hq.resolve_right hreturned)⟩
  case unlockDec => exact ⟨h.1, go_releases hgo (h.2.resolve_right hreturned)⟩
  all_goals exact h.elim

theorem Place.not_owner {ms : Sys RwMutex Tid D} {occurred : Bool} (h : Place s t)
    (howner : (s.lock.mutexes.mem.mutex .rw).owner ≠ some t)
    (hgo : s.lock.mutexes.go t occurred = some ms) : (ms.mem.mutex .rw).owner ≠ some t := by
  intro hown
  rcases (piece_of_go hgo).owner_of_owner hown with ho | ⟨-, extra, hw⟩
  · exact howner ho
  · exact h.acquires (by rw [Sync.Pc.acquires, hw]; rfl)

theorem Inv.begin {a : Rwlock.Action Tid D} (h : Inv s) (ha : begins a = actor a)
    (hs : s.lock.step a = some l') :
    Inv { s with lock := l', stray := fun t => s.stray t && begins a ≠ some t } := by
  have hspares := step_spares hs
  refine h.apart (hspares.unlatched h.unlatched) fun t ht => ?_
  obtain ⟨hstray, hne⟩ : s.stray t = true ∧ begins a ≠ some t := by simpa using ht
  exact Or.inl ⟨hstray, hspares.aside t (ha ▸ hne), rfl, rfl, rfl⟩

theorem Inv.mutex {occurred : Bool} (h : Inv s)
    (hl : s.lock.step (.mutex t occurred) = some l') : Inv { s with lock := l' } := by
  have hspares := step_spares hl
  obtain ⟨ms, hgo, rfl⟩ := Option.map_eq_some_iff.mp hl
  exact h.turn hspares (fun _ _ => rfl) (fun _ _ => ⟨rfl, rfl, rfl⟩) fun ht =>
    ⟨(h.place t ht).not_owner (h.owner t ht) hgo,
      (h.place t ht).mutex h.unlatched (h.owner t ht) hgo⟩

theorem Inv.step {a : Action Tid D} (h : Inv s) (hs : s.step a = some s') : Inv s' := by
  cases a with
  | use a =>
    cases a with
    | cont t =>
      obtain ⟨hstray, hs⟩ := Option.ite_none_left_eq_some.mp hs
      obtain ⟨l', hc, rfl⟩ := Option.map_eq_some_iff.mp hs
      exact h.turn (moved_cont hc).spares (fun _ _ => rfl) (fun _ _ => ⟨rfl, rfl, rfl⟩)
        fun ht => absurd ht hstray
    | mutex t occurred =>
      obtain ⟨l', hl, rfl⟩ := Option.map_eq_some_iff.mp hs
      rw [stray_mutex]
      exact h.mutex hl
    | _ =>
      simp only [State.step] at hs
      obtain ⟨l', hl, rfl⟩ := Option.map_eq_some_iff.mp hs
      exact h.begin rfl hl
  | release t bounded =>
    obtain ⟨hstranger, hs⟩ := Option.ite_none_right_eq_some.mp hs
    exact h.release hstranger hs
  | cont t =>
    obtain ⟨hstray, hs⟩ := Option.ite_none_right_eq_some.mp hs
    obtain ⟨hmoved, hkeep, hghosts, -, -⟩ := step_of_cont hs
    exact h.turn hmoved.spares (fun u _ => congrFun hkeep u) hghosts fun _ =>
      ⟨hmoved.mem ▸ h.owner t hstray, (h.place t hstray).cont hs⟩

end Ngpt.Sync.Rwlock.Stray
