import Ngpt.Sync.Contract

/-!
# ngpt — releasing the mutexes of an exiting thread

`pth_mutex_releaseall` releases `mutex_owned` with one call, and then walks the ring
of the thread's other mutexes while the release it calls takes the current node out
of that ring. Both halves stop too early: a `mutex_owned` that was acquired more than
once keeps its owner, and the walk ends after the first mutex of the ring, since
`pth_ring_next` takes the successor of a deleted hook for the end of the ring.

Result: `releaseall_releases_iff`.
-/

namespace Ngpt.Sync

open LinkedRing

variable {Mid Tid D : Type} {s s' : Mem Mid Tid D} {t : Tid} {m k : Mid} {xs ys : List Mid}

/-- The mutexes that `t` holds: those in its books, locked with a positive count. -/
structure Holds (s : Mem Mid Tid D) (t : Tid) (xs : List Mid) : Prop where
  books  : Books s t xs
  locked : ∀ m, (s.mutex m).owner = some t → (s.mutex m).locked = true
  count  : ∀ m, (s.mutex m).owner = some t → 1 ≤ (s.mutex m).count

theorem Holds.congr (hsame : Same s s') (hh : Holds s t xs) : Holds s' t xs := by
  refine ⟨hh.books.congr hsame, ?_, ?_⟩
  · intro k hk
    rw [hsame.owner k] at hk
    rw [hsame.locked k]
    exact hh.locked k hk
  · intro k hk
    rw [hsame.owner k] at hk
    rw [hsame.count k]
    exact hh.count k hk

variable [DecidableEq Mid] [DecidableEq Tid]

theorem Holds.of_giveUp (hh : Holds s t xs) (hb : Books (s.giveUp t m) t ys) :
    Holds (s.giveUp t m) t ys := by
  refine ⟨hb, ?_, ?_⟩
  all_goals
    intro k hk
    by_cases hkm : k = m
    · simp [Mem.giveUp, hkm] at hk
    · simp only [Mem.giveUp, Mem.disownMutex_mutex, Mem.setMutex_mutex, hkm, if_false] at hk ⊢
      first | exact hh.locked k hk | exact hh.count k hk

variable [DecidableEq D]

namespace Mem

/-- The `while` loop of `pth_mutex_releaseall`, for at most `fuel` rounds. -/
def releaseLoop (t : Tid) (rnf : Option Mid) :
    Nat → Mem Mid Tid D → Option Mid → Option (Mem Mid Tid D)
  | _, s, none => some s
  | 0, _, some _ => none
  | fuel + 1, s, some m =>
    let s := (s.pthMutexRelease t m).2
    -- a mutex that was grabbed recursively is released recursively
    if (s.mutex m).count > 0 then releaseLoop t rnf fuel s (some m)
    else
      let rn := pthRingNext s.rn (s.thread t).mutexring (some m)
      if rn = rnf then some s else releaseLoop t rnf fuel s rn

/-- `pth_mutex_releaseall`, called by the thread itself. -/
def pthMutexReleaseall (fuel : Nat) (s : Mem Mid Tid D) (t : Tid) : Option (Mem Mid Tid D) :=
  let s := match (s.thread t).mutexOwned with
    | some m => (s.pthMutexRelease t m).2
    | none => s
  let rnf := pthRingFirst (s.thread t).mutexring
  releaseLoop t rnf fuel s rnf

end Mem

/-! ## Fuel -/

theorem releaseLoop_add {rnf rn : Option Mid} {fuel : Nat}
    (h : Mem.releaseLoop t rnf fuel s rn = some s') (n : Nat) :
    Mem.releaseLoop t rnf (fuel + n) s rn = some s' := by
  induction fuel generalizing s rn with
  | zero =>
    cases rn with
    | none => simpa [Mem.releaseLoop] using h
    | some m => simp [Mem.releaseLoop] at h
  | succ fuel ih =>
    cases rn with
    | none => simpa [Mem.releaseLoop] using h
    | some m =>
      rw [Nat.add_right_comm]
      simp only [Mem.releaseLoop] at h ⊢
      split
      next hc =>
        rw [if_pos hc] at h
        exact ih h
      next hc =>
        rw [if_neg hc] at h
        split
        · rename_i hr
          rwa [if_pos hr] at h
        · rename_i hr
          rw [if_neg hr] at h
          exact ih h

/-- The call returns with the memory `s'`. -/
def Returns (s : Mem Mid Tid D) (t : Tid) (s' : Mem Mid Tid D) : Prop :=
  ∃ fuel, s.pthMutexReleaseall fuel t = some s'

theorem Returns.unique {s₁ s₂ : Mem Mid Tid D} (h₁ : Returns s t s₁) (h₂ : Returns s t s₂) :
    s₁ = s₂ := by
  obtain ⟨n₁, h₁⟩ := h₁
  obtain ⟨n₂, h₂⟩ := h₂
  simp only [Mem.pthMutexReleaseall] at h₁ h₂
  have h₁' := releaseLoop_add h₁ n₂
  rw [Nat.add_comm, releaseLoop_add h₂ n₁] at h₁'
  exact (Option.some.inj h₁').symm

/-! ## One release -/

theorem Holds.release_eq (hh : Holds s t xs) (hown : (s.mutex m).owner = some t) :
    s.pthMutexRelease t m = (.ok, s.releaseLocked t m) := by
  have hl := hh.locked m hown
  simp [Mem.pthMutexRelease, hl, hown]

theorem Holds.release_again (hh : Holds s t xs) (hown : (s.mutex m).owner = some t)
    (hc : (s.mutex m).count ≠ 1) :
    Holds (s.releaseLocked t m) t xs ∧
      (s.releaseLocked t m).thread = s.thread ∧ (s.releaseLocked t m).rn = s.rn ∧
      ((s.releaseLocked t m).mutex m).count = (s.mutex m).count - 1 ∧
      ∀ k, ((s.releaseLocked t m).mutex k).owner = (s.mutex k).owner := by
  have hpos := hh.count m hown
  have hdecr : Unsigned.decr (s.mutex m).count = (s.mutex m).count - 1 :=
    Unsigned.decr_of_pos hpos
  have heq : s.releaseLocked t m =
      s.setMutex m { s.mutex m with count := (s.mutex m).count - 1 } := by
    simp only [Mem.releaseLocked, hdecr]
    rw [if_neg (by omega)]
  rw [heq]
  have howner : ∀ k, ((s.setMutex m { s.mutex m with
      count := (s.mutex m).count - 1 }).mutex k).owner = (s.mutex k).owner := by
    intro k
    by_cases hk : k = m <;> simp [hk]
  refine ⟨⟨⟨hh.books.ring, ?_, hh.books.apart⟩, ?_, ?_⟩, rfl, rfl, by simp, howner⟩
  · intro k
    rw [howner k]
    exact hh.books.owned k
  · intro k hk
    rw [howner k] at hk
    have hl := hh.locked k hk
    by_cases hkm : k = m
    · subst hkm
      simpa using hl
    · simpa [hkm] using hl
  · intro k hk
    rw [howner k] at hk
    have hck := hh.count k hk
    by_cases hkm : k = m
    · subst hkm
      simp
      omega
    · simpa [hkm] using hck

theorem Holds.release_last (hc : (s.mutex m).count = 1) :
    Same (s.giveUp t m) (s.releaseLocked t m) := by
  have hdecr : Unsigned.decr (s.mutex m).count = 0 := by
    rw [hc, Unsigned.decr_of_pos (Nat.le_refl 1)]
  simp only [Mem.releaseLocked, hdecr, if_true]
  exact same_wakeWaiter _ t m

/-! ## The walk -/

theorem releaseLoop_first (hh : Holds s t (m :: ys)) :
    ∃ fuel s', Mem.releaseLoop t (some m) fuel s (some m) = some s' ∧ Holds s' t ys ∧
      (s'.thread t).mutexOwned = (s.thread t).mutexOwned := by
  generalize hn : (s.mutex m).count = n
  have hown : (s.mutex m).owner = some t := (hh.books.owned m).mpr (Or.inr List.mem_cons_self)
  -- induction on the recursion count of the first mutex
  induction n generalizing s with
  | zero =>
    have hpos := hh.count m hown
    omega
  | succ n ih =>
    by_cases hc : (s.mutex m).count = 1
    · -- the node leaves the ring; what follows it is the new hook
      have hsame := Holds.release_last (t := t) hc
      have hbooks : Books s t ([] ++ m :: ys) := hh.books
      obtain ⟨hb, howned⟩ := hbooks.giveUp_ring
      have hh' : Holds (s.releaseLocked t m) t ys := (hh.of_giveUp hb).congr hsame
      have hnext : pthRingNext (s.releaseLocked t m).rn
          ((s.releaseLocked t m).thread t).mutexring (some m) =
          if ys = [] then some m else none := by
        rw [hsame.rn, hsame.ring t]
        have hne : (s.thread t).mutexOwned ≠ some m := hh.books.apart m List.mem_cons_self
        simpa [Mem.giveUp, Mem.disownMutex, hne] using pthRingNext_hook hh.books.ring
      have hzero : ((s.releaseLocked t m).mutex m).count = 0 := by
        rw [hsame.count m]
        simp [Mem.giveUp]
      refine ⟨1, s.releaseLocked t m, ?_, hh', ?_⟩
      · simp only [Mem.releaseLoop, hh.release_eq hown, hzero, hnext]
        by_cases hys : ys = []
        · simp [hys]
        · simp [hys, Mem.releaseLoop]
      · rw [hsame.owned t]
        exact howned
    · obtain ⟨hh', hthread, -, hcount, howner⟩ := hh.release_again hown hc
      obtain ⟨fuel, s', hloop, hs', howned⟩ :=
        ih hh' (by omega) (by rw [howner m]; exact hown)
      refine ⟨fuel + 1, s', ?_, hs', ?_⟩
      · simp only [Mem.releaseLoop, hh.release_eq hown]
        rw [if_pos (by omega)]
        exact hloop
      · rw [howned, hthread]

theorem releaseLoop_ring (hh : Holds s t xs) :
    ∃ fuel s', Mem.releaseLoop t (pthRingFirst (s.thread t).mutexring) fuel s
        (pthRingFirst (s.thread t).mutexring) = some s' ∧ Holds s' t xs.tail ∧
      (s'.thread t).mutexOwned = (s.thread t).mutexOwned := by
  have hhook : pthRingFirst (s.thread t).mutexring = xs.head? := hh.books.ring.hook
  rw [hhook]
  cases xs with
  | nil => exact ⟨0, s, by simp [Mem.releaseLoop], hh, rfl⟩
  | cons m ys => exact releaseLoop_first hh

/-- What the call leaves behind. -/
theorem releaseall_spec (hh : Holds s t xs) :
    ∃ s', Returns s t s' ∧ Holds s' t xs.tail ∧
      ((s'.thread t).mutexOwned = none ↔
        ∀ m, (s.thread t).mutexOwned = some m → (s.mutex m).count = 1) := by
  cases ho : (s.thread t).mutexOwned with
  | none =>
    obtain ⟨fuel, s', hloop, hs', howned⟩ := releaseLoop_ring hh
    refine ⟨s', ⟨fuel, ?_⟩, hs', ?_⟩
    · simp only [Mem.pthMutexReleaseall, ho]
      exact hloop
    · rw [howned, ho]
      simp
  | some m =>
    have hown : (s.mutex m).owner = some t := (hh.books.owned m).mpr (Or.inl ho)
    by_cases hc : (s.mutex m).count = 1
    · have hsame := Holds.release_last (t := t) hc
      obtain ⟨hb, hnone⟩ := hh.books.giveUp_owned ho
      obtain ⟨fuel, s', hloop, hs', howned⟩ :=
        releaseLoop_ring ((hh.of_giveUp hb).congr hsame)
      refine ⟨s', ⟨fuel, ?_⟩, hs', ?_⟩
      · simp only [Mem.pthMutexReleaseall, ho, hh.release_eq hown]
        exact hloop
      · rw [howned, hsame.owned t, hnone]
        simp [hc]
    · obtain ⟨hh', hthread, -, -, -⟩ := hh.release_again hown hc
      obtain ⟨fuel, s', hloop, hs', howned⟩ := releaseLoop_ring hh'
      refine ⟨s', ⟨fuel, ?_⟩, hs', ?_⟩
      · simp only [Mem.pthMutexReleaseall, ho, hh.release_eq hown]
        exact hloop
      · rw [howned, hthread, ho]
        simp [hc]

/-! ## When nothing is left -/

/-- Nothing that `t` held in `s` is left to it in `s'`. -/
structure Released (s s' : Mem Mid Tid D) (t : Tid) : Prop where
  owned : (s'.thread t).mutexOwned = none
  ring  : (s'.thread t).mutexring = pthRingInit
  free  : ∀ m, (s.mutex m).owner = some t → (s'.mutex m).owner ≠ some t

theorem ringOf_nil_iff {N : Type} {l : Links (Option N)} {r : PthRing N} {xs : List N}
    (hr : RingOf l r xs) :
    r = pthRingInit ↔ xs = [] := by
  have hhook := hr.hook
  have hnodes := hr.nodes
  constructor
  · rintro rfl
    cases xs with
    | nil => rfl
    | cons x xs => simp [pthRingInit] at hhook
  · rintro rfl
    cases r
    simp_all [pthRingInit]

/-- **When `pth_mutex_releaseall` releases everything.** The call always returns. It
leaves nothing behind exactly when `mutex_owned`, if there is one, was acquired once,
and the ring has at most one mutex. -/
theorem releaseall_releases_iff (s : Mem Mid Tid D) (t : Tid) (xs : List Mid)
    (hh : Holds s t xs) :
    (∃ s', Returns s t s') ∧
      ((∃ s', Returns s t s' ∧ Released s s' t) ↔
        (∀ m, (s.thread t).mutexOwned = some m → (s.mutex m).count = 1) ∧ xs.length ≤ 1) := by
  obtain ⟨s', hret, hh', howned⟩ := releaseall_spec hh
  have htail : xs.tail = [] ↔ xs.length ≤ 1 := by
    rw [← List.length_eq_zero_iff, List.length_tail]
    omega
  refine ⟨⟨s', hret⟩, ?_⟩
  rw [← howned, ← htail]
  constructor
  · rintro ⟨s'', hret', hrel⟩
    obtain rfl := hret.unique hret'
    exact ⟨hrel.owned, (ringOf_nil_iff hh'.books.ring).mp hrel.ring⟩
  · rintro ⟨hnone, hnil⟩
    refine ⟨s', hret, hnone, (ringOf_nil_iff hh'.books.ring).mpr hnil, ?_⟩
    intro m _ hm
    rcases (hh'.books.owned m).mp hm with h | h
    · rw [hnone] at h
      cases h
    · rw [hnil] at h
      exact absurd h List.not_mem_nil

/-- The memory after one thread has acquired the mutexes `ms` in turn. -/
def afterAcquires (ms : List (Fin 3)) : Mem (Fin 3) Unit Unit :=
  ms.foldl (fun s m => s.take () m) (initSys .timedNp).mem

theorem holds_two : Holds (afterAcquires [0, 1]) () [1] := by
  refine ⟨⟨⟨by decide +kernel, by decide +kernel, ?_⟩, ?_, ?_⟩, ?_, ?_⟩
  · exact IsRing.empty_iff.mpr (by decide +kernel)
  all_goals decide +kernel

theorem holds_three : Holds (afterAcquires [0, 1, 2]) () [1, 2] := by
  refine ⟨⟨⟨by decide +kernel, by decide +kernel, ?_⟩, ?_, ?_⟩, ?_, ?_⟩
  · refine ⟨?_, by decide⟩
    simp only [List.map, List.cons_append, List.nil_append, List.isChain_cons_cons, Links.Linked,
      List.isChain_singleton, and_true]
    decide +kernel
  all_goals decide +kernel

theorem releaseall_releases_iff_two :
    Holds (afterAcquires [0, 1]) () [1] ∧
      ∃ s', Returns (afterAcquires [0, 1]) () s' ∧ Released (afterAcquires [0, 1]) s' () := by
  refine ⟨holds_two, ?_⟩
  refine (releaseall_releases_iff (afterAcquires [0, 1]) () [1] holds_two).2.mpr ⟨?_, by simp⟩
  decide +kernel

/-- A thread that holds three mutexes, each acquired once, still owns the third one
after the call. -/
theorem releaseall_keeps_third :
    Holds (afterAcquires [0, 1, 2]) () [1, 2] ∧
      (∀ m, ((afterAcquires [0, 1, 2]).mutex m).count = 1) ∧
      (∃ s', Returns (afterAcquires [0, 1, 2]) () s' ∧ (s'.mutex 2).owner = some ()) ∧
      ¬ ∃ s', Returns (afterAcquires [0, 1, 2]) () s' ∧
        Released (afterAcquires [0, 1, 2]) s' () := by
  obtain ⟨s', hret, hh', -⟩ := releaseall_spec holds_three
  have hown : (s'.mutex 2).owner = some () := (hh'.books.owned 2).mpr (Or.inr (by simp))
  refine ⟨holds_three, by decide +kernel, ⟨s', hret, hown⟩, ?_⟩
  rintro ⟨s'', hret', hrel⟩
  obtain rfl := hret.unique hret'
  exact hrel.free 2 (by decide +kernel) hown

end Ngpt.Sync
