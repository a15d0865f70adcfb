import Ngpt.Alloc.Separation
import Ngpt.Errno
import Mathlib.Logic.Function.Iterate

/-!
# ngpt — the memory of a read-write lock (`pth_sync.c`)

`pth_rwlock_init` gets one chunk for the two mutexes of a lock that is not shared, of twice the size
of a mutex. `pth_rwlock_destroy` gives it back, but with twice the size of a read-write lock. The
allocator finds the list of a chunk by its size alone: with the wrong one it looks for a header of
another order, which the mchunk of the chunk does not have.

The lookup reads the pages below the chunk. Nothing is known of pages that are not the allocator's,
so that none of the pages that are read imitates a header is an assumption (`Genuine`).

Result: `rwlock_restores_iff`.
-/

namespace Ngpt.Alloc

open WordMemory LinkedRing Transition

/-! ## The functions -/

/-- `sizeof(pth_mutex_t)` and `sizeof(pth_rwlock_t)`. -/
structure Sizes where
  mutex  : Nat
  rwlock : Nat

/-- The structures of `pth.h` on the i386. -/
def i386 : Sizes := ⟨64, 32⟩

/-- `pth_mutex_init` without attributes, on the mutex at the address `mx`. The state is the low byte
of its word, and the index the upper half. -/
def pthMutexInit (m : Mem) (mx : Nat) : Mem :=
  -- rfutex_init: pshared is a bit of its word
  let m := store m (mx + 48) (m (mx + 48) - m (mx + 48) % 2)
  let m := store m (mx + 52) mx
  let m := store m (mx + 44) 1
  let m := store m mx (m mx % 2 ^ 16 + (2 ^ 16 - 1) * 2 ^ 16)
  let m := store m (mx + 4) 0
  let m := store m (mx + 28) 0
  let m := store m (mx + 32) 0
  let m := store m mx (m mx - m mx % 2 ^ 8 + 1)
  let m := store m (mx + 8) 0
  let m := store m (mx + 56) 0
  let m := store m (mx + 12) 0
  -- pth_qlock_init
  let m := store (fill m ⟨mx + 16, 12⟩ 0) (mx + 16) 0
  let m := store m (mx + 36) (mx + 36)
  let m := store m (mx + 40) (mx + 36)
  store m (mx + 60) 0

/-- `mutex->mx_state & PTH_MUTEX_LOCKED`. -/
def isLocked (m : Mem) (mx : Nat) : Bool := m mx / 2 % 2 == 1

structure PthRwlock where
  state   : Nat
  readers : Nat
  mutexRd : Nat
  mutexRw : Nat
  pshared : Bool

/-- `pth_rwlock_init` of a lock that is not shared. -/
def pthRwlockInit (S : Sizes) (cal : Nat) (map : Option Nat) (rwlock : PthRwlock) (s : State) :
    Errno × PthRwlock × State :=
  let rwlock := { rwlock with state := 1, readers := 0 }
  match s.calGet cal (S.mutex <<< 1) map with
  | (none, s) => (.enomem, { rwlock with mutexRd := 0 }, s)
  | (some p, s) =>
    let rwlock := { rwlock with mutexRd := p, mutexRw := p + S.mutex }
    let m := pthMutexInit s.mem rwlock.mutexRd
    let m := pthMutexInit m rwlock.mutexRw
    (.ok, { rwlock with pshared := false }, { s with mem := m })

/-- `pth_rwlock_destroy`. The mutexes of a shared lock are not the allocator's. -/
def pthRwlockDestroy (S : Sizes) (rwlock : PthRwlock) (s : State) : Errno × State :=
  if isLocked s.mem rwlock.mutexRd || isLocked s.mem rwlock.mutexRw then (.ebusy, s)
  else if rwlock.pshared = false then (.ok, s.calPut rwlock.mutexRd (S.rwlock <<< 1))
  else (.ok, s)

/-! ## What is said of them -/

/-- As many chunks are in use as were in `s`, in every class, and `p` is on the free list of its
order `o`. -/
def Restored (cal : Nat) (s s' : State) (p o : Nat) : Prop :=
  (∀ o', IsOrder o' → s'.mem (ChunkList.used (listAt cal o')) =
    s.mem (ChunkList.used (listAt cal o'))) ∧
  ∃ xs, IsRing (links s'.mem) (anchor cal .chunks o) xs ∧ p ∈ xs

/-- Of the pages that the lookup of `p` can read, only those of headers start like a header. -/
def Genuine (s : State) (p order : Nat) : Prop :=
  ∀ j < getTotalPagesByOrder order,
    isHeader s.mem order (pageBelow^[j] (p - p % pageSize)) = true →
      ∃ x ∈ s.mchunks, x.1 = pageBelow^[j] (p - p % pageSize)

instance (s : State) (p order : Nat) : Decidable (Genuine s p order) := by
  unfold Genuine; infer_instance

/-- The fields of a mutex fit, and both requests are for chunks. -/
structure Sizes.Ok (S : Sizes) : Prop where
  mutex  : 64 ≤ S.mutex
  get    : S.mutex <<< 1 < calChunkThresholdSize
  rwlock : 0 < S.rwlock
  put    : S.rwlock <<< 1 < calChunkThresholdSize

variable {cal p o b c j mx w size np : Nat} {m : Mem} {s : State} {P : Pool} {x y : Nat × Nat}
  {free : Nat → List Nat}

/-! ## Mutexes -/

theorem pthMutexInit_off (hw : w < mx ∨ mx + 64 ≤ w) : pthMutexInit m mx w = m w := by
  simp (disch := omega) only [pthMutexInit, store_ne]
  rw [fill_off _ _ (by simp only; omega)]
  simp (disch := omega) only [store_ne]

theorem pthMutexInit_unlocked (m : Mem) (mx : Nat) : isLocked (pthMutexInit m mx) mx = false := by
  obtain ⟨v, hv⟩ : ∃ v, pthMutexInit m mx mx = v - v % 256 + 1 := by
    simp (disch := omega) only [pthMutexInit, store_ne]
    rw [fill_off _ _ (by simp only; omega)]
    simp (disch := omega) only [store_ne, store_self]
    exact ⟨_, rfl⟩
  have heven : (v - v % 256 + 1) / 2 % 2 = 0 := by omega
  simp [isLocked, hv, heven]

/-! ## The lookup -/

theorem pageBelow_iterate (np j : Nat) :
    pageBelow^[j] np + j * pageSize = np ∨
      np + Unsigned.range ≤ pageBelow^[j] np + j * pageSize := by
  induction j with
  | zero => exact Or.inl (by simp)
  | succ j ih =>
    rw [Function.iterate_succ_apply', Nat.succ_mul]
    generalize pageBelow^[j] np = q at ih
    unfold pageBelow
    have hle : pageSize ≤ Unsigned.range := by
      unfold Unsigned.range
      decide
    split <;> omega

theorem pageBelow_iterate_add (b k i : Nat) :
    pageBelow^[i] (b + (k + i) * pageSize) = b + k * pageSize := by
  induction i with
  | zero => rfl
  | succ i ih => rw [Function.iterate_succ_apply, ← Nat.add_assoc, pageBelow_succ, ih]

theorem walkBack_none {order pages : Nat}
    (hnot : ∀ j < pages, isHeader m order (pageBelow^[j] np) = false) :
    walkBack m order pages np = none := by
  induction pages generalizing np with
  | zero => rfl
  | succ pages ih =>
    have hfirst : isHeader m order np = false := hnot 0 (by omega)
    rw [walkBack, hfirst]
    refine ih fun j hj => ?_
    rw [← Function.iterate_succ_apply]
    exact hnot (j + 1) (by omega)

theorem genuine_contains (hP : (s.pool free).Wf cal) (hR : Represents cal s.mem (s.pool free))
    (hx : x ∈ s.mchunks) (hj : j < getTotalPagesByOrder o)
    (hpage : x.1 = pageBelow^[j] (c - c % pageSize)) (hheader : isHeader s.mem o x.1 = true) :
    x.2 = o ∧ x.1 + j * pageSize = c - c % pageSize := by
  have ho : x.2 = o := by
    have horder : s.mem (MchunkHeader.order x.1) = x.2 := (hR.header x hx).order
    simp only [isHeader, Bool.and_eq_true, beq_iff_eq] at hheader
    exact horder.symm.trans hheader.2.2
  refine ⟨ho, ?_⟩
  have hbound := (hP.mchunk x hx).bound
  have hle : j * pageSize ≤ getTotalPagesByOrder x.2 * pageSize := by
    rw [ho]
    exact Nat.mul_le_mul_right _ hj.le
  rcases pageBelow_iterate (c - c % pageSize) j with heq | hwrap
  · rw [hpage]
    exact heq
  · rw [← hpage] at hwrap
    omega

/-- From a chunk no header of another order is found. -/
theorem lookup_wrong_order (hP : (s.pool free).Wf cal)
    (hR : Represents cal s.mem (s.pool free)) (hgen : Genuine s c o) (hy : y ∈ s.mchunks)
    (hc : c ∈ chunksOf y) (hne : y.2 ≠ o) : getMchunkHeaderByChunk s.mem c o = none := by
  refine walkBack_none fun j hj => ?_
  by_contra hheader
  rw [Bool.not_eq_false] at hheader
  obtain ⟨x, hx, hpage⟩ := hgen j hj hheader
  rw [← hpage] at hheader
  obtain ⟨rfl, hin⟩ := genuine_contains hP hR hx hj hpage hheader
  -- the chunk is in both mchunks
  have hxy : y ≠ x := fun h => hne (h ▸ rfl)
  have hout := chunk_notMem (hP.mchunk y hy).order hc (hP.regions_apart hy hx hxy)
  have hle : (j + 1) * pageSize ≤ getTotalPagesByOrder x.2 * pageSize := Nat.mul_le_mul_right _ hj
  have hmod : c % pageSize < pageSize := Nat.mod_lt c (by decide)
  have hmod' : c % pageSize ≤ c := Nat.mod_le c pageSize
  rw [Nat.succ_mul] at hle
  simp only [mchunkSpan] at hout
  omega

theorem lookup_same_order (hI : Inv cal s) (hP : (s.pool free).Wf cal)
    (hR : Represents cal s.mem (s.pool free)) (hgen : Genuine s c y.2) (hy : y ∈ s.mchunks)
    (hc : c ∈ chunksOf y) : getMchunkHeaderByChunk s.mem c y.2 = some y.1 := by
  obtain ⟨j, hj, hpage⟩ := chunk_page (hP.mchunk y hy) hc
  rw [getMchunkHeaderByChunk, hpage]
  refine walkBack_eq ((hR.header y hy).isHeader hI.pos hI.bound) (fun k hk hkj => ?_) hj
  by_contra hheader
  rw [Bool.not_eq_false] at hheader
  have hdown : pageBelow^[j - k] (c - c % pageSize) = y.1 + k * pageSize := by
    have hsum : j = k + (j - k) := by omega
    rw [hpage]
    nth_rewrite 2 [hsum]
    exact pageBelow_iterate_add y.1 k (j - k)
  -- a page of the mchunk would be the first one of another mchunk
  obtain ⟨x, hx, hbase⟩ := hgen (j - k) (by omega) (by rw [hdown]; exact hheader)
  rw [hdown] at hbase
  have hpos : 0 < pageSize := by decide
  have hkpos : 0 < k * pageSize := Nat.mul_pos hk hpos
  have hxy : y ≠ x := by
    rintro rfl
    omega
  have hap := hP.regions_apart hy hx hxy
  have hfits := header_fits (hP.mchunk x hx).order
  have hlt : (k + 1) * pageSize ≤ getTotalPagesByOrder y.2 * pageSize :=
    Nat.mul_le_mul_right _ (by omega)
  rw [Nat.succ_mul] at hlt
  simp only [Span.Apart, mchunkSpan] at hap
  omega

/-! ## Initialised and destroyed -/

theorem pthRwlockInit_ok {S : Sizes} (hS : S.Ok) (hI : Inv cal s) {map : Option Nat}
    (hmap : ∀ b ∈ map, Fresh cal s ⟨b, mapSize (S.mutex <<< 1)⟩) {rw rw' : PthRwlock} {s₁ : State}
    (hinit : pthRwlockInit S cal map rw s = (.ok, rw', s₁)) :
    Inv cal s₁ ∧ s₁.outstanding = (rw'.mutexRd, S.mutex <<< 1) :: s.outstanding ∧
      rw'.pshared = false ∧ isLocked s₁.mem rw'.mutexRd = false ∧
      isLocked s₁.mem rw'.mutexRw = false := by
  have hmutex := hS.mutex
  have hdouble : S.mutex <<< 1 = S.mutex + S.mutex := by
    rw [Nat.shiftLeft_eq]
    omega
  have hpos : 0 < S.mutex <<< 1 := by omega
  rcases allocate_grants hI hpos hmap with hr | ⟨p, m, mchunks, free, hr, hP, hR, -⟩
  · have heq : s.calGet cal (S.mutex <<< 1) map = (none, s) := by simp only [State.calGet, hr]
    simp only [pthRwlockInit, heq, Prod.mk.injEq, reduceCtorEq, false_and] at hinit
  · have heq : s.calGet cal (S.mutex <<< 1) map = (some p, { s with
        mem := m, mchunks := mchunks, outstanding := (p, S.mutex <<< 1) :: s.outstanding }) := by
      simp only [State.calGet, hr]
    simp only [pthRwlockInit, heq, Prod.mk.injEq, true_and] at hinit
    obtain ⟨rfl, rfl⟩ := hinit
    have hsize : S.mutex <<< 1 ≤ blockSize (S.mutex <<< 1) := size_le_blockSize hpos
    refine ⟨⟨hI.pos, hI.bound, hI.mhOrder, hI.mhPow2Size, free, hP, hR.congr ?_⟩, rfl, rfl, ?_,
      pthMutexInit_unlocked _ _⟩
    · intro w hw
      have hoff := kept_off_block hP List.mem_cons_self hw
      simp only at hoff
      show pthMutexInit (pthMutexInit m p) (p + S.mutex) w = m w
      rw [pthMutexInit_off (by omega), pthMutexInit_off (by omega)]
    · have hfirst : isLocked (pthMutexInit (pthMutexInit m p) (p + S.mutex)) p =
          isLocked (pthMutexInit m p) p := by
        rw [isLocked, pthMutexInit_off (by omega)]
        rfl
      exact hfirst.trans (pthMutexInit_unlocked m p)

theorem pthRwlockDestroy_eq {S : Sizes} (hS : S.Ok) {rwlock : PthRwlock}
    (hpshared : rwlock.pshared = false) (hrd : isLocked s.mem rwlock.mutexRd = false)
    (hrw : isLocked s.mem rwlock.mutexRw = false) :
    pthRwlockDestroy S rwlock s = (.ok, { s with
      outstanding := s.outstanding.erase (rwlock.mutexRd, S.rwlock <<< 1) }.chunkCachePut
        rwlock.mutexRd (S.rwlock <<< 1)) := by
  simp [pthRwlockDestroy, hrd, hrw, hpshared, State.calPut, hS.put]

theorem chunkCachePut_congr {size' : Nat} (h : getOrderBySize size' = getOrderBySize size) :
    s.chunkCachePut p size' = s.chunkCachePut p size := by
  simp only [State.chunkCachePut, h]

theorem Inv.used_eq_taken (hI : Inv cal s) (ho : IsOrder o) :
    s.mem (ChunkList.used (listAt cal o)) =
      (s.outstanding.filterMap (Pool.takenPtr o)).length := by
  obtain ⟨free, -, hR⟩ := hI.pool
  exact hR.used o ho

/-- **The memory of a read-write lock.** After a successful `pth_rwlock_init`, in any state
that correct calls reach and with no page that imitates a header, `pth_rwlock_destroy` restores
the usage exactly if the size it passes has the order of the size that was asked for. -/
theorem rwlock_restores_iff (cal : Nat) (S : Sizes) (s s₁ : State) (map : Option Nat)
    (rwlock rwlock' : PthRwlock) (hS : S.Ok)
    (hs : Reachable (State.step cal) (Allowed cal) (Initial cal) s)
    (hmap : ∀ b ∈ map, Fresh cal s ⟨b, mapSize (S.mutex <<< 1)⟩)
    (hinit : pthRwlockInit S cal map rwlock s = (.ok, rwlock', s₁))
    (hgen : Genuine s₁ rwlock'.mutexRd (getOrderBySize (S.rwlock <<< 1))) :
    (pthRwlockDestroy S rwlock' s₁).1 = .ok ∧
      (Restored cal s (pthRwlockDestroy S rwlock' s₁).2 rwlock'.mutexRd
          (getOrderBySize (S.mutex <<< 1)) ↔
        getOrderBySize (S.rwlock <<< 1) = getOrderBySize (S.mutex <<< 1)) := by
  have hI : Inv cal s :=
    hs.invariant (fun s h => h.inv) fun s a s' hI hok hstep => step_inv hI hok hstep
  obtain ⟨hI₁, hout, hpshared, hrd, hrw⟩ := pthRwlockInit_ok hS hI hmap hinit
  obtain ⟨free, hP, hR⟩ := hI₁.pool
  have hmem : (rwlock'.mutexRd, S.mutex <<< 1) ∈ s₁.outstanding := hout ▸ List.mem_cons_self
  have ho := (getOrderBySize_spec (hP.sizes _ hmem) hS.get).1
  obtain ⟨y, hy, hyo, hc⟩ := Pool.mem_chunks.mp (hP.small_chunk hmem hS.get).2
  rw [pthRwlockDestroy_eq hS hpshared hrd hrw]
  refine ⟨rfl, ?_⟩
  by_cases hsame : getOrderBySize (S.rwlock <<< 1) = getOrderBySize (S.mutex <<< 1)
  · -- the chunk goes back, and what is left was there before
    refine iff_of_true ?_ hsame
    rw [chunkCachePut_congr hsame]
    rw [hsame] at hgen
    have hlookup : ∀ x ∈ s₁.mchunks, x.2 = getOrderBySize (S.mutex <<< 1) →
        rwlock'.mutexRd ∈ chunksOf x → getMchunkHeaderByChunk s₁.mem rwlock'.mutexRd
          (getOrderBySize (S.mutex <<< 1)) = some x.1 := by
      intro x hx hxo hcx
      rw [← hxo] at hgen ⊢
      exact lookup_same_order hI₁ hP hR hgen hx hcx
    obtain ⟨m, heq, hR', -⟩ := chunkCachePut_refines (s := { s₁ with
      outstanding := s₁.outstanding.erase (rwlock'.mutexRd, S.rwlock <<< 1) }) hP hR hmem hS.get
      hlookup
    rw [heq]
    refine ⟨fun o' ho' => ?_, _, hR'.ring .chunks _ ho, ?_⟩
    · have hleft : s₁.outstanding.erase (rwlock'.mutexRd, S.mutex <<< 1) = s.outstanding := by
        rw [hout, List.erase_cons_head]
      rw [hI.used_eq_taken ho', ← hleft]
      exact hR'.used o' ho'
    · have hfree : ((s₁.pool free).give rwlock'.mutexRd (S.mutex <<< 1)).free
          (getOrderBySize (S.mutex <<< 1)) = rwlock'.mutexRd :: _ := Function.update_self _ _ _
      show rwlock'.mutexRd ∈ ((s₁.pool free).give rwlock'.mutexRd (S.mutex <<< 1)).free _
      rw [hfree]
      exact List.mem_cons_self
  · -- no header is found, and the chunk stays in use
    refine iff_of_false ?_ hsame
    have hnone : getMchunkHeaderByChunk s₁.mem rwlock'.mutexRd (getOrderBySize (S.rwlock <<< 1)) =
        none := lookup_wrong_order hP hR hgen hy hc fun h => hsame (h.symm.trans hyo)
    rintro ⟨hcounters, -⟩
    have hcount := hcounters _ ho
    simp only [State.chunkCachePut, hnone] at hcount
    rw [hI₁.used_eq_taken ho, hI.used_eq_taken ho, hout, List.filterMap_cons,
      Pool.takenPtr_self hS.get] at hcount
    simp at hcount

/-- `pth_rwlock_init` on the i386, as the first call of the allocator. -/
def firstRwlock : Errno × PthRwlock × State :=
  pthRwlockInit i386 1024 (some 65536) ⟨0, 0, 0, 0, false⟩ (initState (fun _ => 7) 1024)

theorem i386_ok : i386.Ok := ⟨by decide, by decide, by decide, by decide⟩

theorem rwlock_restores_iff_i386 :
    firstRwlock.1 = .ok ∧ Genuine firstRwlock.2.2 firstRwlock.2.1.mutexRd 6 ∧
      (pthRwlockDestroy i386 firstRwlock.2.1 firstRwlock.2.2).1 = .ok ∧
      (Restored 1024 (initState (fun _ => 7) 1024)
          (pthRwlockDestroy i386 firstRwlock.2.1 firstRwlock.2.2).2 firstRwlock.2.1.mutexRd
          (getOrderBySize (i386.mutex <<< 1)) ↔
        getOrderBySize (i386.rwlock <<< 1) = getOrderBySize (i386.mutex <<< 1)) := by
  have hok : firstRwlock.1 = .ok := by decide +kernel
  have hgen : Genuine firstRwlock.2.2 firstRwlock.2.1.mutexRd
      (getOrderBySize (i386.rwlock <<< 1)) := by
    decide +kernel
  have hmap : ∀ b ∈ some 65536, Fresh 1024 (initState (fun _ => 7) 1024)
      ⟨b, mapSize (i386.mutex <<< 1)⟩ := by
    decide +kernel
  have hinit : firstRwlock = (.ok, firstRwlock.2.1, firstRwlock.2.2) := by
    rw [← hok]
  exact ⟨hok, hgen, rwlock_restores_iff 1024 i386 _ _ (some 65536) _ _ i386_ok
    (.init (initState_initial _)) hmap hinit hgen⟩

/-- After the lock has been destroyed one chunk of 128 bytes is in use, where there was none. -/
theorem rwlock_leaks_i386 :
    firstRwlock.1 = .ok ∧ (pthRwlockDestroy i386 firstRwlock.2.1 firstRwlock.2.2).1 = .ok ∧
      (initState (fun _ => 7) 1024).mem (ChunkList.used (listAt 1024 7)) = 0 ∧
      (pthRwlockDestroy i386 firstRwlock.2.1 firstRwlock.2.2).2.mem
        (ChunkList.used (listAt 1024 7)) = 1 ∧
      ¬ Restored 1024 (initState (fun _ => 7) 1024)
        (pthRwlockDestroy i386 firstRwlock.2.1 firstRwlock.2.2).2 firstRwlock.2.1.mutexRd
        (getOrderBySize (i386.mutex <<< 1)) := by
  have hbefore : (initState (fun _ => 7) 1024).mem (ChunkList.used (listAt 1024 7)) = 0 := by
    decide +kernel
  have hafter : (pthRwlockDestroy i386 firstRwlock.2.1 firstRwlock.2.2).2.mem
      (ChunkList.used (listAt 1024 7)) = 1 := by
    decide +kernel
  refine ⟨by decide +kernel, by decide +kernel, hbefore, hafter, ?_⟩
  rintro ⟨hcounters, -⟩
  have hcount := hcounters 7 (by decide)
  rw [hbefore, hafter] at hcount
  cases hcount

end Ngpt.Alloc
