import Ngpt.Sync.ReleaseAll

/-!
# ngpt — mutexes that are not recursive, as their callers see them

For a caller a mutex that is not recursive is an owner: an acquire gets it when it
is free, a release by the owner frees it, and nothing else changes it. `Effect` says
so for one piece of the mutex code, and `effect_of_go` derives it. A call with neither
`tryonly` nor an extra event fails only for the owner.
-/

namespace Ngpt.Sync

open Function

variable {Mid Tid D : Type} {s s' : Sys Mid Tid D} {t u : Tid} {m k : Mid} {occurred : Bool}

/-- The owners of the mutexes. -/
def Sys.own (s : Sys Mid Tid D) (m : Mid) : Option Tid := (s.mem.mutex m).owner

/-- Mutexes of which none is recursive or an internal lock. -/
structure Plain (s : Sys Mid Tid D) : Prop where
  inv    : Inv s
  type   : ∀ m, (s.mem.mutex m).type ≠ .recursiveNp
  unlatched : ∀ m, (s.mem.mutex m).internalLocked = false
  once   : ∀ m t, s.held m t ≤ 1

theorem Plain.decr_count (hP : Plain s) (hown : s.own m = some t) :
    Unsigned.decr (s.mem.mutex m).count = 0 := by
  obtain ⟨hpos, -, -⟩ := hP.inv.sound.own m t hown
  have hle := hP.once m t
  exact (hP.inv.sound.decr_eq_zero_iff hown).mpr (by omega)

theorem own_of_same {mem : Mem Mid Tid D} {pc : Tid → Pc Mid} {held : Mid → Tid → Nat}
    (hsame : Same s.mem mem) : Sys.own { mem := mem, pc := pc, held := held } = s.own := by
  funext k
  exact hsame.owner k

theorem Plain.of_same {mem : Mem Mid Tid D} {pc : Tid → Pc Mid} (hP : Plain s)
    (hsame : Same s.mem mem) (hI : Inv { s with mem := mem, pc := pc }) :
    Plain { s with mem := mem, pc := pc } := by
  refine ⟨hI, ?_, ?_, hP.once⟩
  · intro k
    rw [hsame.type k]
    exact hP.type k
  · intro k
    rw [hsame.intern k]
    exact hP.unlatched k

variable [DecidableEq Tid]

/-- How often a thread holds a mutex, read off the memory: a count that has wrapped
around stands for the whole range. -/
def heldOf (s : Mem Mid Tid D) (m : Mid) (t : Tid) : Nat :=
  if (s.mutex m).owner = some t then
    if (s.mutex m).count = 0 then Unsigned.range else (s.mutex m).count
  else 0

theorem Sound.heldOf_eq {mem : Mem Mid Tid D} {held : Mid → Tid → Nat} (hs : Sound mem held) :
    heldOf mem = held := by
  funext k u
  unfold heldOf
  split
  next hown =>
    obtain ⟨hpos, hle, hcount⟩ := hs.own k u hown
    rcases Nat.lt_or_eq_of_le hle with hlt | heq
    · rw [hcount, Nat.mod_eq_of_lt hlt, if_neg (by omega)]
    · rw [hcount, heq, Nat.mod_self, if_pos rfl]
  next hown => exact (hs.others k u hown).symm

theorem Plain.goto {pc : Pc Mid} (hP : Plain s) (hpc : ∀ m, pc ≠ .releaseLock m) :
    Plain (s.goto t pc) :=
  hP.of_same (Same.refl _) (hP.inv.goto (Same.refl _) fun m h => absurd h (hpc m))

/-- An acquire that may return without the mutex. -/
def Pc.mayFail : Pc Mid → Bool
  | .acquire _ tryonly extra _ => tryonly || extra
  | .waitEvent _ extra => extra
  | _ => false

/-- The mutex that a thread is acquiring. -/
def Pc.acquires (pc : Pc Mid) : Option Mid := pc.wants.map Prod.fst

variable [DecidableEq Mid]

/-- **What a piece of the mutex code does to the owners.** -/
inductive Effect (s : Sys Mid Tid D) (t : Tid) (s' : Sys Mid Tid D) : Prop
  | got (m : Mid) : (s.pc t).acquires = some m → s.own m = none →
      s'.pc = update s.pc t (.returned .ok) →
      s'.own = update s.own m (some t) → Effect s t s'
  | waits (m : Mid) (pc : Pc Mid) : (s.pc t).acquires = some m → pc.acquires = some m →
      (pc.mayFail = true → (s.pc t).mayFail = true) →
      s'.pc = update s.pc t pc → s'.own = s.own → Effect s t s'
  | fails (m : Mid) (rc : Errno) : (s.pc t).acquires = some m → rc ≠ .ok →
      ((s.pc t).mayFail = true ∨ s.own m = some t) →
      s'.pc = update s.pc t (.returned rc) → s'.own = s.own → Effect s t s'
  | tests (m : Mid) (pc : Pc Mid) : (s.pc t).releases = some m → pc.releases = some m →
      s'.pc = update s.pc t pc → s'.own = s.own → Effect s t s'
  | freed (m : Mid) : (s.pc t).releases = some m → s.own m = some t →
      s'.pc = update s.pc t (.returned .ok) →
      s'.own = update s.own m none → Effect s t s'
  | denied (m : Mid) : (s.pc t).releases = some m → s.own m ≠ some t →
      s'.pc = update s.pc t (.returned .eperm) → s'.own = s.own → Effect s t s'

variable [DecidableEq D]

theorem effect_of_go (hP : Plain s) (h : s.go t occurred = some s') : Effect s t s' := by
  have hI := hP.inv
  cases piece_of_go h with
  | @intern m _ hi _ =>
    rw [hP.unlatched m] at hi
    cases hi
  | @take m extra mem hw hl hsame =>
    refine Effect.got m (by simp [Pc.acquires, hw]) (hI.owner_none hl) rfl ?_
    funext k
    by_cases hk : k = m
    · simp [Sys.own, Mem.take_mutex, hk]
    · simp [Sys.own, Mem.take_mutex, hk, hsame.owner k]
  | @again m _ _ _ _ _ _ hty => exact absurd hty (hP.type m)
  | @refuse m tryonly _ _ hpc hown =>
    refine Effect.fails m _ (by simp [Pc.acquires, hpc, Pc.wants]) ?_ (Or.inr hown) rfl rfl
    cases tryonly <;> simp
  | @busy m _ _ hpc =>
    exact Effect.fails m .ebusy (by simp [Pc.acquires, hpc, Pc.wants]) (by simp)
      (Or.inl (by simp [hpc, Pc.mayFail])) rfl rfl
  | @wait m extra pc mem hw hpc hsame =>
    have hacq : (s.pc t).acquires = some m := by simp [Pc.acquires, hw]
    refine Effect.waits m pc hacq ?_ ?_ rfl (own_of_same hsame)
    · rcases hpc with rfl | rfl <;> rfl
    · intro hf
      rcases hpc with rfl | rfl
      · -- the extra event is that of the call
        simp only [Pc.mayFail] at hf
        subst hf
        cases hq : s.pc t <;> simp_all [Pc.wants, Pc.mayFail]
      · simp [Pc.mayFail] at hf
  | @interrupted m hpc =>
    exact Effect.fails m .eintr (by simp [Pc.acquires, hpc, Pc.wants]) (by simp)
      (Or.inl (by simp [hpc, Pc.mayFail])) rfl rfl
  | @locked m hpc _ | @owner m hpc _ =>
    exact Effect.tests m _ (by simp [hpc, Pc.releases]) rfl rfl rfl
  | @notLocked m hpc hl =>
    refine Effect.denied m (by simp [hpc, Pc.releases]) ?_ rfl rfl
    rw [Sys.own, hI.owner_none hl]
    simp
  | @notOwner m hpc hne => exact Effect.denied m (by simp [hpc, Pc.releases]) hne rfl rfl
  | @release m hpc =>
    have hown : s.own m = some t := hI.releasing t m hpc
    refine Effect.freed m (by simp [hpc, Pc.releases]) hown rfl ?_
    funext k
    by_cases hk : k = m
    · subst hk
      simp [Sys.own, releaseLocked_owner, hP.decr_count hown]
    · simp [Sys.own, releaseLocked_owner, hk]

/-! ## Mutexes stay as they are -/

theorem releaseLocked_fields (s : Mem Mid Tid D) (t : Tid) (m k : Mid) :
    ((s.releaseLocked t m).mutex k).type = (s.mutex k).type ∧
      ((s.releaseLocked t m).mutex k).internalLocked = (s.mutex k).internalLocked := by
  simp only [Mem.releaseLocked]
  split
  · rw [(same_wakeWaiter _ t m).type k, (same_wakeWaiter _ t m).intern k]
    by_cases hk : k = m <;> simp [Mem.giveUp, hk]
  · by_cases hk : k = m <;> simp [hk]

theorem Plain.go (hP : Plain s) (h : s.go t occurred = some s') : Plain s' := by
  have hI' := (piece_of_go h).inv hP.inv
  cases piece_of_go h with
  | intern _ hsame | wait _ _ hsame => exact hP.of_same hsame hI'
  | @take m _ mem hw hl hsame =>
    refine ⟨hI', ?_, ?_, ?_⟩
    · intro k
      have hty := hP.type k
      by_cases hk : k = m
      · simpa [Mem.take_mutex, hk, hsame.type m] using hP.type m
      · simpa [Mem.take_mutex, hk, hsame.type k] using hty
    · intro k
      by_cases hk : k = m
      · simpa [Mem.take_mutex, hk, hsame.intern m] using hP.unlatched m
      · simpa [Mem.take_mutex, hk, hsame.intern k] using hP.unlatched k
    · intro k u
      have hz : s.held m t = 0 :=
        hP.inv.sound.others m t (by rw [hP.inv.owner_none hl]; simp)
      have hle := hP.once k u
      simp only [heldSet_apply, hz]
      split <;> omega
  | @again m _ _ _ _ _ _ hty => exact absurd hty (hP.type m)
  | @release m _ =>
    refine ⟨hI', ?_, ?_, ?_⟩
    · intro k
      rw [(releaseLocked_fields s.mem t m k).1]
      exact hP.type k
    · intro k
      rw [(releaseLocked_fields s.mem t m k).2]
      exact hP.unlatched k
    · intro k u
      have hle := hP.once k u
      have hle' := hP.once m t
      simp only [heldSet_apply]
      split <;> omega
  | _ =>
    exact hP.of_same (Same.refl _) hI'

theorem releaseall_of_no_mutex (hI : Inv s) (hno : ∀ m, s.own m ≠ some t) (fuel : Nat) :
    s.mem.pthMutexReleaseall fuel t = some s.mem := by
  obtain ⟨xs, hb⟩ := hI.sound.books t
  have hnil : xs = [] := by
    cases xs with
    | nil => rfl
    | cons x xs => exact absurd ((hb.owned x).mpr (Or.inr List.mem_cons_self)) (hno x)
  have hnone : (s.mem.thread t).mutexOwned = none := by
    cases ho : (s.mem.thread t).mutexOwned with
    | none => rfl
    | some m => exact absurd ((hb.owned m).mpr (Or.inl ho)) (hno m)
  have hhook : pthRingFirst (s.mem.thread t).mutexring = none := by
    rw [pthRingFirst, hb.ring.hook, hnil]
    rfl
  simp only [Mem.pthMutexReleaseall, hnone, hhook]
  cases fuel <;> rfl

end Ngpt.Sync
