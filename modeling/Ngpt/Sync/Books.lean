import Ngpt.Sync.Mutex

/-!
# ngpt — who owns which mutex

A mutex says who owns it, and a thread says which mutexes it owns. `Books` states
that the two agree, with the ring of a thread given as the list of its nodes;
`Sound` adds what the fields of a mutex say about how often its owner has acquired
it. Every piece of the mutex code keeps `Sound`.
-/

namespace Ngpt.Sync

open LinkedRing

variable {Mid Tid D : Type} {s s' : Mem Mid Tid D} {t u : Tid} {m k : Mid} {xs ys : List Mid}
  {held : Mid → Tid → Nat} {n : Nat}

/-- The mutexes that `t` owns are its `mutex_owned` and the nodes `xs` of its ring. -/
structure Books (s : Mem Mid Tid D) (t : Tid) (xs : List Mid) : Prop where
  ring  : RingOf s.rn (s.thread t).mutexring xs
  owned : ∀ m, (s.mutex m).owner = some t ↔ (s.thread t).mutexOwned = some m ∨ m ∈ xs
  apart : ∀ m ∈ xs, (s.thread t).mutexOwned ≠ some m

/-- The state of the mutexes when `held m t` counts the acquires of `m` by `t` that
are not yet released. -/
structure Sound (s : Mem Mid Tid D) (held : Mid → Tid → Nat) : Prop where
  locked : ∀ m, (s.mutex m).locked = (s.mutex m).owner.isSome
  books  : ∀ t, ∃ xs, Books s t xs
  own    : ∀ m t, (s.mutex m).owner = some t →
    1 ≤ held m t ∧ held m t ≤ Unsigned.range ∧ (s.mutex m).count = held m t % Unsigned.range
  free   : ∀ m, (s.mutex m).owner = none → (s.mutex m).count = 0
  others : ∀ m t, (s.mutex m).owner ≠ some t → held m t = 0

/-! ## What does not touch the books -/

/-- `s'` has the owners, the counts and the books of `s`. -/
structure Same (s s' : Mem Mid Tid D) : Prop where
  locked : ∀ m, (s'.mutex m).locked = (s.mutex m).locked
  owner  : ∀ m, (s'.mutex m).owner = (s.mutex m).owner
  count  : ∀ m, (s'.mutex m).count = (s.mutex m).count
  type   : ∀ m, (s'.mutex m).type = (s.mutex m).type
  intern : ∀ m, (s'.mutex m).internalLocked = (s.mutex m).internalLocked
  rn     : s'.rn = s.rn
  owned  : ∀ t, (s'.thread t).mutexOwned = (s.thread t).mutexOwned
  ring   : ∀ t, (s'.thread t).mutexring = (s.thread t).mutexring

theorem Same.of_eq (hmutex : s'.mutex = s.mutex) (hthread : s'.thread = s.thread)
    (hrn : s'.rn = s.rn) : Same s s' := by
  constructor <;> simp [hmutex, hthread, hrn]

theorem Same.refl (s : Mem Mid Tid D) : Same s s := .of_eq rfl rfl rfl

theorem Same.trans {s'' : Mem Mid Tid D} (h : Same s s') (h' : Same s' s'') : Same s s'' where
  locked m := (h'.locked m).trans (h.locked m)
  owner m := (h'.owner m).trans (h.owner m)
  count m := (h'.count m).trans (h.count m)
  type m := (h'.type m).trans (h.type m)
  intern m := (h'.intern m).trans (h.intern m)
  rn := h'.rn.trans h.rn
  owned t := (h'.owned t).trans (h.owned t)
  ring t := (h'.ring t).trans (h.ring t)

theorem same_wait (s : Mem Mid Tid D) (l : Links (WaitNode Mid Tid)) :
    Same s { s with wait := l } := .of_eq rfl rfl rfl

theorem Books.congr (h : Same s s') (hb : Books s t xs) : Books s' t xs := by
  refine ⟨?_, ?_, ?_⟩
  · rw [h.rn, h.ring t]
    exact hb.ring
  · simpa only [h.owner, h.owned] using hb.owned
  · simpa only [h.owned] using hb.apart

/-- What does not touch owners, counts and books. -/
theorem Sound.congr (h : Same s s') (hs : Sound s held) : Sound s' held := by
  refine ⟨?_, fun u => (hs.books u).imp fun _ hb => hb.congr h, ?_, ?_, ?_⟩
  · simpa only [h.locked, h.owner] using hs.locked
  · simpa only [h.owner, h.count] using hs.own
  · simpa only [h.owner, h.count] using hs.free
  · simpa only [h.owner] using hs.others

theorem Books.disjoint (hb : Books s t xs) (hb' : Books s u ys) (hu : u ≠ t) (hk : k ∈ ys) :
    k ∉ xs := by
  intro hx
  have hu' := (hb'.owned k).mpr (Or.inr hk)
  rw [(hb.owned k).mpr (Or.inr hx)] at hu'
  exact hu (Option.some.inj hu').symm

theorem Books.notMem_of_free (hb : Books s t xs) (hfree : (s.mutex m).owner = none) :
    (s.thread t).mutexOwned ≠ some m ∧ m ∉ xs := by
  have hno : ¬ (s.mutex m).owner = some t := by simp [hfree]
  rw [hb.owned m] at hno
  exact not_or.mp hno

theorem Books.frame (hb : Books s u ys) (hthread : s'.thread u = s.thread u)
    (hrn : ∀ y ∈ ys, s'.rn.next y = s.rn.next y ∧ s'.rn.prev y = s.rn.prev y)
    (howner : ∀ k, (s'.mutex k).owner = some u ↔ (s.mutex k).owner = some u) : Books s' u ys := by
  refine ⟨?_, fun k => ?_, hthread ▸ hb.apart⟩
  · rw [hthread]
    exact hb.ring.congr (fun y hy => (hrn y hy).1) fun y hy => (hrn y hy).2
  · rw [hthread, howner k, hb.owned k]

theorem Sound.decr_eq_zero_iff (hs : Sound s held) (hown : (s.mutex m).owner = some t) :
    Unsigned.decr (s.mutex m).count = 0 ↔ held m t = 1 := by
  obtain ⟨hpos, hle, hcount⟩ := hs.own m t hown
  rw [hcount, Unsigned.decr_mod hpos, Nat.mod_eq_of_lt (by omega)]
  omega

section Threads

variable [DecidableEq Tid]

@[simp] theorem Mem.setThread_thread (s : Mem Mid Tid D) (t u : Tid) (th : Thread Mid D) :
    (s.setThread t th).thread u = if u = t then th else s.thread u := by
  simp [Mem.setThread, Function.update_apply]

@[simp] theorem Mem.setThread_mutex (s : Mem Mid Tid D) (t : Tid) (th : Thread Mid D) :
    (s.setThread t th).mutex = s.mutex := rfl

@[simp] theorem Mem.setThread_rn (s : Mem Mid Tid D) (t : Tid) (th : Thread Mid D) :
    (s.setThread t th).rn = s.rn := rfl

theorem same_setThread {th : Thread Mid D} (ho : th.mutexOwned = (s.thread t).mutexOwned)
    (hr : th.mutexring = (s.thread t).mutexring) : Same s (s.setThread t th) := by
  refine ⟨fun _ => rfl, fun _ => rfl, fun _ => rfl, fun _ => rfl, fun _ => rfl, rfl, ?_, ?_⟩ <;>
    intro u <;> by_cases hu : u = t <;> simp [hu, ho, hr]

theorem same_readyWaiter (s : Mem Mid Tid D) (tmp : Tid) : Same s (s.readyWaiter tmp) := by
  unfold Mem.readyWaiter
  split
  · exact Same.refl s
  · have hth : Same s (s.setThread tmp { s.thread tmp with waitedNative := none }) :=
      same_setThread rfl rfl
    exact hth.trans (.of_eq rfl rfl rfl)

theorem same_wakeWaiter [DecidableEq D] (s : Mem Mid Tid D) (t : Tid) (m : Mid) :
    Same s (s.wakeWaiter t m) := by
  unfold Mem.wakeWaiter
  simp only []
  repeat' split
  case h_2.isTrue => exact same_readyWaiter ..
  case h_2.isFalse => exact (same_readyWaiter ..).trans (.of_eq rfl rfl rfl)
  all_goals exact .of_eq rfl rfl rfl

end Threads

/-! ## Fields -/

variable [DecidableEq Mid]

@[simp] theorem Mem.setMutex_mutex (s : Mem Mid Tid D) (m k : Mid) (mx : Mutex Tid) :
    (s.setMutex m mx).mutex k = if k = m then mx else s.mutex k := by
  simp [Mem.setMutex, Function.update_apply]

@[simp] theorem Mem.setMutex_thread (s : Mem Mid Tid D) (m : Mid) (mx : Mutex Tid) :
    (s.setMutex m mx).thread = s.thread := rfl

@[simp] theorem Mem.setMutex_rn (s : Mem Mid Tid D) (m : Mid) (mx : Mutex Tid) :
    (s.setMutex m mx).rn = s.rn := rfl

theorem same_setMutex {mx : Mutex Tid} (hl : mx.locked = (s.mutex m).locked)
    (ho : mx.owner = (s.mutex m).owner) (hc : mx.count = (s.mutex m).count)
    (ht : mx.type = (s.mutex m).type) (hi : mx.internalLocked = (s.mutex m).internalLocked) :
    Same s (s.setMutex m mx) := by
  refine ⟨?_, ?_, ?_, ?_, ?_, rfl, fun _ => rfl, fun _ => rfl⟩ <;> intro k <;>
    by_cases hk : k = m <;> simp [hk, hl, ho, hc, ht, hi]

theorem same_addWaiter (s : Mem Mid Tid D) (m : Mid) : Same s (s.addWaiter m) :=
  same_setMutex rfl rfl rfl rfl rfl

theorem same_removeWaiter (s : Mem Mid Tid D) (m : Mid) : Same s (s.removeWaiter m) :=
  same_setMutex rfl rfl rfl rfl rfl

theorem owner_setMutex (mx : Mutex Tid) :
    ((s.setMutex m mx).mutex k).owner = if k = m then mx.owner else (s.mutex k).owner := by
  by_cases hk : k = m <;> simp [hk]

variable [DecidableEq Tid]

namespace Mem

@[simp] theorem ownMutex_mutex (s : Mem Mid Tid D) (t : Tid) (m : Mid) :
    (s.ownMutex t m).mutex = s.mutex := by
  simp only [ownMutex]
  split <;> rfl

@[simp] theorem disownMutex_mutex (s : Mem Mid Tid D) (t : Tid) (m : Mid) :
    (s.disownMutex t m).mutex = s.mutex := by
  simp only [disownMutex]
  split <;> rfl

theorem ownMutex_thread_ne (s : Mem Mid Tid D) (m : Mid) (hu : u ≠ t) :
    (s.ownMutex t m).thread u = s.thread u := by
  simp only [ownMutex]
  split <;> simp [hu, setThread]

theorem disownMutex_thread_ne (s : Mem Mid Tid D) (m : Mid) (hu : u ≠ t) :
    (s.disownMutex t m).thread u = s.thread u := by
  simp only [disownMutex]
  split <;> simp [hu, setThread]

theorem take_mutex (s : Mem Mid Tid D) (t : Tid) (m k : Mid) :
    (s.take t m).mutex k = if k = m then
      { s.mutex m with locked := true, owner := some t, ownerPid := s.pid, count := 1 }
      else s.mutex k := by
  simp [take]

end Mem

/-! ## The books over an acquire and a release -/

theorem Books.take (hb : Books s t xs) (hfree : (s.mutex m).owner = none) :
    ∃ ys, Books (s.take t m) t ys := by
  obtain ⟨hne, hm⟩ := hb.notMem_of_free hfree
  by_cases hown : (s.thread t).mutexOwned = none
  · -- the first mutex: it becomes `mutex_owned`
    refine ⟨xs, by simpa [Mem.take, Mem.ownMutex, hown] using hb.ring, fun k => ?_, fun k hk => ?_⟩
    · have hk := hb.owned k
      by_cases hkm : k = m
      · simp [Mem.take, Mem.ownMutex, hown, hkm]
      · simp only [hown, reduceCtorEq, false_or] at hk
        simp [Mem.take, Mem.ownMutex, hown, hkm, hk, Ne.symm hkm]
    · have hkm : m ≠ k := fun h => hm (h ▸ hk)
      simp [Mem.take, Mem.ownMutex, hown, hkm]
  · -- a further one: it goes to the end of the ring
    refine ⟨xs ++ [m], ?_, fun k => ?_, fun k hk => ?_⟩
    · simpa [Mem.take, Mem.ownMutex, hown] using pthRingAppend_ring hb.ring hm
    · by_cases hkm : k = m <;> simp [Mem.take, Mem.ownMutex, hown, hkm, hb.owned k]
    · rcases List.mem_append.mp hk with hk | hk
      · simpa [Mem.take, Mem.ownMutex, hown] using hb.apart k hk
      · rw [List.mem_singleton.mp hk]
        simpa [Mem.take, Mem.ownMutex, hown] using hne

theorem Books.take_ne (hb : Books s t xs) (hb' : Books s u ys) (hu : u ≠ t)
    (hfree : (s.mutex m).owner = none) : Books (s.take t m) u ys := by
  refine hb'.frame (Mem.ownMutex_thread_ne _ m hu) (fun y hy => ?_) fun k => ?_
  · have hym : y ≠ m := fun h => (hb'.notMem_of_free hfree).2 (h ▸ hy)
    have hfr := pthRingAppend_frame hb.ring hym (hb.disjoint hb' hu hy)
    by_cases hown : (s.thread t).mutexOwned = none <;> simp [Mem.take, Mem.ownMutex, hown, hfr]
  · by_cases hkm : k = m <;> simp [Mem.take_mutex, hkm, hfree, Ne.symm hu]

theorem Books.giveUp_owned (hb : Books s t xs) (hown : (s.thread t).mutexOwned = some m) :
    Books (s.giveUp t m) t xs ∧ ((s.giveUp t m).thread t).mutexOwned = none := by
  refine ⟨⟨?_, ?_, ?_⟩, ?_⟩
  · simpa [Mem.giveUp, Mem.disownMutex, hown] using hb.ring
  · intro k
    have hk := hb.owned k
    by_cases hkm : k = m
    · subst hkm
      have hnot : k ∉ xs := fun h => hb.apart k h hown
      simp [Mem.giveUp, Mem.disownMutex, hown, hnot]
    · rw [hown] at hk
      simp [Mem.giveUp, Mem.disownMutex, hown, hkm, hk, Ne.symm hkm]
  · intro k _
    simp [Mem.giveUp, Mem.disownMutex, hown]
  · simp [Mem.giveUp, Mem.disownMutex, hown]

theorem Books.giveUp_ring (hb : Books s t (xs ++ m :: ys)) :
    Books (s.giveUp t m) t (xs ++ ys) ∧
      ((s.giveUp t m).thread t).mutexOwned = (s.thread t).mutexOwned := by
  have hown : (s.thread t).mutexOwned ≠ some m := hb.apart m (by simp)
  have hm : m ∉ xs ++ ys :=
    (List.nodup_cons.mp (List.perm_middle.nodup_iff.mp hb.ring.nodup)).1
  refine ⟨⟨?_, fun k => ?_, fun k hk => ?_⟩, by simp [Mem.giveUp, Mem.disownMutex, hown]⟩
  · simpa [Mem.giveUp, Mem.disownMutex, hown] using pthRingDelete_ring hb.ring
  · have hk := hb.owned k
    by_cases hkm : k = m
    · subst hkm
      simpa [Mem.giveUp, Mem.disownMutex, hown] using hm
    · simp only [List.mem_append, List.mem_cons, hkm, false_or] at hk
      simp [Mem.giveUp, Mem.disownMutex, hown, hkm, hk]
  · have hk' : k ∈ xs ++ m :: ys := by
      rcases List.mem_append.mp hk with h | h <;> simp [h]
    simpa [Mem.giveUp, Mem.disownMutex, hown] using hb.apart k hk'

theorem Books.giveUp_ne (hb : Books s t xs) (hb' : Books s u ys) (hu : u ≠ t)
    (hown : (s.mutex m).owner = some t) : Books (s.giveUp t m) u ys := by
  refine hb'.frame (Mem.disownMutex_thread_ne _ m hu) (fun y hy => ?_) fun k => ?_
  · by_cases ho : (s.thread t).mutexOwned = some m
    · simp [Mem.giveUp, Mem.disownMutex, ho]
    · have hm : m ∈ xs := ((hb.owned m).mp hown).resolve_left ho
      simp [Mem.giveUp, Mem.disownMutex, ho, pthRingDelete_frame hb.ring hm (hb.disjoint hb' hu hy)]
  · by_cases hkm : k = m <;> simp [Mem.giveUp, hkm, hown, Ne.symm hu]

/-! ## Soundness over an acquire and a release -/

@[simp] theorem heldSet_apply (held : Mid → Tid → Nat) (m k : Mid) (t u : Tid) (n : Nat) :
    heldSet held m t n k u = if k = m ∧ u = t then n else held k u := by
  unfold heldSet
  by_cases hk : k = m
  · subst hk
    simp [Function.update_apply]
  · simp [hk]

/-- A first acquire. -/
theorem Sound.take (hs : Sound s held) (hfree : (s.mutex m).owner = none) :
    Sound (s.take t m) (heldSet held m t (held m t + 1)) := by
  have hzero : ∀ u, held m u = 0 := fun u => hs.others m u (by simp [hfree])
  obtain ⟨xs, hb⟩ := hs.books t
  refine ⟨fun k => ?_, fun u => ?_, fun k u hk => ?_, fun k hk => ?_, fun k u hk => ?_⟩
  · by_cases hk : k = m <;> simp [Mem.take_mutex, hk, hs.locked]
  · by_cases hu : u = t
    · exact hu ▸ hb.take hfree
    · exact (hs.books u).imp fun _ hb' => hb.take_ne hb' hu hfree
  · by_cases hkm : k = m
    · subst hkm
      obtain rfl : t = u := by simpa [Mem.take_mutex] using hk
      have hr := Unsigned.one_lt_range
      simp [Mem.take_mutex, hzero, Nat.mod_eq_of_lt hr, Nat.le_of_lt hr]
    · rw [Mem.take_mutex, if_neg hkm] at hk
      simpa [Mem.take_mutex, hkm] using hs.own k u hk
  · by_cases hkm : k = m
    · simp [Mem.take_mutex, hkm] at hk
    · rw [Mem.take_mutex, if_neg hkm] at hk
      simpa [Mem.take_mutex, hkm] using hs.free k hk
  · by_cases hkm : k = m
    · subst hkm
      have hut : u ≠ t := fun h => hk (by simp [Mem.take_mutex, h])
      simp [hut, hzero]
    · rw [Mem.take_mutex, if_neg hkm] at hk
      simpa [hkm] using hs.others k u hk

section

variable (hs : Sound s held) (hown : (s.mutex m).owner = some t)
include hs hown

theorem Sound.setCount (hn : 1 ≤ n) (hle : n ≤ Unsigned.range) {mx : Mutex Tid}
    (hmx : mx = { s.mutex m with count := n % Unsigned.range }) :
    Sound (s.setMutex m mx) (heldSet held m t n) := by
  have howner : ∀ k, ((s.setMutex m mx).mutex k).owner = (s.mutex k).owner := fun k => by
    by_cases hk : k = m <;> simp [hk, hmx]
  refine ⟨fun k => ?_, fun u => ?_, fun k u hk => ?_, fun k hk => ?_, fun k u hk => ?_⟩ <;>
    try rw [howner k] at hk
  · rw [howner k, ← hs.locked k]
    by_cases hk : k = m <;> simp [hk, hmx]
  · obtain ⟨xs, hb⟩ := hs.books u
    exact ⟨xs, hb.ring, fun k => by rw [howner k]; exact hb.owned k, hb.apart⟩
  · by_cases hkm : k = m
    · subst hkm
      cases hown.symm.trans hk
      simp [hmx, hn, hle]
    · simpa [hkm] using hs.own k u hk
  · have hkm : k ≠ m := by
      rintro rfl
      cases hown.symm.trans hk
    simpa [hkm] using hs.free k hk
  · have hku : ¬ (k = m ∧ u = t) := fun h => hk (h.1 ▸ h.2 ▸ hown)
    rw [heldSet_apply, if_neg hku]
    exact hs.others k u hk

/-- A repeated acquire. -/
theorem Sound.again (hc : 1 ≤ (s.mutex m).count) :
    Sound (s.setMutex m { s.mutex m with count := Unsigned.incr (s.mutex m).count })
      (heldSet held m t (held m t + 1)) := by
  obtain ⟨hpos, hle, hcount⟩ := hs.own m t hown
  -- a count of 0 with an owner means that the counter has wrapped around
  have hlt : held m t < Unsigned.range := by
    rcases Nat.lt_or_eq_of_le hle with h | h
    · exact h
    · rw [hcount, h, Nat.mod_self] at hc
      omega
  refine hs.setCount hown (by omega) hlt ?_
  rw [hcount, Unsigned.incr_mod]

theorem Sound.giveUp :
    Sound (s.giveUp t m) (heldSet held m t 0) := by
  have howner : ∀ k, ((s.giveUp t m).mutex k).owner =
      if k = m then none else (s.mutex k).owner := fun k => by
    by_cases hk : k = m <;> simp [Mem.giveUp, hk]
  obtain ⟨xs, hb⟩ := hs.books t
  refine ⟨fun k => ?_, fun u => ?_, fun k u hk => ?_, fun k hk => ?_, fun k u hk => ?_⟩ <;>
    try rw [howner k] at hk
  · by_cases hk : k = m <;> simp [Mem.giveUp, hk, hs.locked]
  · by_cases hu : u = t
    · subst hu
      by_cases ho : (s.thread u).mutexOwned = some m
      · exact ⟨xs, (hb.giveUp_owned ho).1⟩
      · have hm : m ∈ xs := ((hb.owned m).mp hown).resolve_left ho
        obtain ⟨as, bs, rfl⟩ := List.append_of_mem hm
        exact ⟨as ++ bs, hb.giveUp_ring.1⟩
    · exact (hs.books u).imp fun _ hb' => hb.giveUp_ne hb' hu hown
  · obtain ⟨hkm, hk⟩ := Option.ite_none_left_eq_some.mp hk
    simpa [Mem.giveUp, hkm] using hs.own k u hk
  · by_cases hkm : k = m
    · simp [Mem.giveUp, hkm]
    · rw [if_neg hkm] at hk
      simpa [Mem.giveUp, hkm] using hs.free k hk
  · by_cases hkm : k = m
    · subst hkm
      by_cases hu : u = t
      · simp [hu]
      · simp [hu, hs.others k u (by simp [hown, Ne.symm hu])]
    · rw [if_neg hkm] at hk
      simpa [hkm] using hs.others k u hk

/-- A release. -/
theorem Sound.releaseLocked [DecidableEq D] :
    Sound (s.releaseLocked t m) (heldSet held m t (held m t - 1)) := by
  obtain ⟨hpos, hle, hcount⟩ := hs.own m t hown
  simp only [Mem.releaseLocked]
  split
  case isTrue hz =>
    rw [(hs.decr_eq_zero_iff hown).mp hz]
    exact (hs.giveUp hown).congr (same_wakeWaiter _ t m)
  case isFalse hz =>
    rw [hs.decr_eq_zero_iff hown] at hz
    refine hs.setCount hown (by omega) (by omega) ?_
    rw [hcount, Unsigned.decr_mod hpos]

end

theorem releaseLocked_owner [DecidableEq D] (s : Mem Mid Tid D) (t : Tid) (m k : Mid) :
    ((s.releaseLocked t m).mutex k).owner =
      if k = m ∧ Unsigned.decr (s.mutex m).count = 0 then none else (s.mutex k).owner := by
  simp only [Mem.releaseLocked]
  split
  case isTrue hz =>
    rw [(same_wakeWaiter _ t m).owner k]
    by_cases hk : k = m <;> simp [Mem.giveUp, hk, hz]
  case isFalse hz => by_cases hk : k = m <;> simp [hk, hz]

end Ngpt.Sync
