import Ngpt.Alloc.Cal
import Mathlib.Data.List.Nodup
import Mathlib.Data.List.Perm.Basic
import Mathlib.Order.Interval.Finset.Nat
import Mathlib.Tactic.IntervalCases

/-!
# ngpt — what the chunk allocator is for

A `Pool` is the allocator without its memory: the mchunks, the free chunks of every
order and the blocks handed out. It is well formed (`Pool.Wf`) when the mchunks and the
large blocks are apart and every chunk of every mchunk is either free or handed out, once.

* `Wf.take`, `Wf.grow`, `Wf.give`, `Wf.map`, `Wf.unmap` — the operations of the allocator
  keep a pool well formed;
* `Wf.blocks_apart` — in a well-formed pool no two blocks share an address.
-/

namespace Ngpt.Alloc

open Function WordMemory

/-! ## Orders -/

/-- The orders for which there is a chunk list. -/
def IsOrder (o : Nat) : Prop := calChunkOrderMin ≤ o ∧ o ≤ calChunkOrderMax

instance (o : Nat) : Decidable (IsOrder o) := inferInstanceAs (Decidable (_ ∧ _))

/-- Where the first chunk of an mchunk is. -/
def firstOffset (o : Nat) : Nat := if o < 5 then 32 else 2 ^ o

def chunkCount (o : Nat) : Nat := (getTotalPagesByOrder o * pageSize - firstOffset o) / 2 ^ o

/-- The numbers of an mchunk: the chunks begin after the header, fill the pages to the
end, and are aligned. -/
structure Geometry (o : Nat) : Prop where
  header : sizeofMchunkHeader ≤ firstOffset o
  size   : 16 ≤ 2 ^ o
  some   : 1 ≤ chunkCount o
  fits   : firstOffset o + 2 ^ o * chunkCount o = getTotalPagesByOrder o * pageSize
  first  : 2 ^ o ∣ firstOffset o
  page   : 2 ^ o ∣ pageSize

theorem geometry {o : Nat} (ho : IsOrder o) : Geometry o := by
  obtain ⟨hmin, hmax⟩ := ho
  simp only [calChunkOrderMin, calChunkOrderMax] at hmin hmax
  interval_cases o <;> exact ⟨by decide, by decide, by decide, by decide, by decide, by decide⟩

theorem header_fits {o : Nat} (ho : IsOrder o) : 32 ≤ getTotalPagesByOrder o * pageSize := by
  have hheader : 32 ≤ _ := (geometry ho).header
  have hfits := (geometry ho).fits
  omega

theorem getPow2Order_spec {size : Nat} (hpos : 0 < size) (hlt : size < Unsigned.range) :
    size ≤ 2 ^ getPow2Order size ∧ ∀ k, size ≤ 2 ^ k → getPow2Order size ≤ k := by
  have hmod : (BitVec.ofNat 32 size).toNat = size := by
    unfold Unsigned.range at hlt
    simpa using Nat.mod_eq_of_lt hlt
  have hle : 2 ^ size.log2 ≤ size := Nat.log2_self_le (by omega)
  have hgt : size < 2 ^ (size.log2 + 1) := Nat.lt_log2_self
  simp only [getPow2Order, Queue.findFirstMsBit, hmod]
  split
  next h =>
    refine ⟨by omega, ?_⟩
    intro k hk
    exact (Nat.pow_lt_pow_iff_right Nat.one_lt_two).mp (h.trans_le hk)
  next h =>
    refine ⟨by omega, ?_⟩
    intro k hk
    exact (Nat.pow_le_pow_iff_right Nat.one_lt_two).mp (hle.trans hk)

theorem threshold_lt_range : calChunkThresholdSize < Unsigned.range := by
  unfold Unsigned.range
  decide

theorem getOrderBySize_spec {size : Nat} (hpos : 0 < size) (hlt : size < calChunkThresholdSize) :
    IsOrder (getOrderBySize size) ∧ size ≤ 2 ^ getOrderBySize size := by
  obtain ⟨hle, hmin⟩ := getPow2Order_spec hpos (hlt.trans threshold_lt_range)
  have hmax := hmin calChunkOrderMax hlt.le
  simp only [getOrderBySize]
  split
  next h => exact ⟨by decide, hle.trans (Nat.pow_le_pow_right (by decide) h.le)⟩
  next h => exact ⟨⟨by omega, hmax⟩, hle⟩

theorem le_roundSize (size : Nat) : size ≤ roundSize pageSize size := by
  simp only [roundSize, pageSize]
  omega

theorem size_le_blockSize {size : Nat} (hpos : 0 < size) : size ≤ blockSize size := by
  unfold blockSize
  split
  next h => exact (getOrderBySize_spec hpos h).2
  · exact le_roundSize size

/-! ## Chunks -/

/-- The chunks of an mchunk, in the order in which they are linked. -/
def chunksOf (x : Nat × Nat) : List Nat :=
  List.range' (x.1 + firstOffset x.2) (chunkCount x.2) (2 ^ x.2)

def chunkSpan (c o : Nat) : Span := ⟨c, 2 ^ o⟩

/-- The blocks on the free lists of all orders. -/
def cachedSpans (free : Nat → List Nat) : List Span :=
  (List.range' calChunkOrderMin calChunkHeads).flatMap fun o => (free o).map (chunkSpan · o)

/-- What is left of an mchunk after its header. -/
def dataSpan (x : Nat × Nat) : Span :=
  ⟨x.1 + sizeofMchunkHeader, getTotalPagesByOrder x.2 * pageSize - sizeofMchunkHeader⟩

/-- An mchunk as the kernel and the allocator make it. -/
structure MchunkOk (cal : Nat) (x : Nat × Nat) : Prop where
  order   : IsOrder x.2
  pos     : 0 < x.1
  aligned : x.1 % pageSize = 0
  bound   : x.1 + getTotalPagesByOrder x.2 * pageSize < Unsigned.range
  cal     : (mchunkSpan x).Apart ⟨cal, sizeofCal⟩

variable {cal c c' o o' : Nat} {x y : Nat × Nat}

theorem MchunkOk.apart_cal (hx : MchunkOk cal x) :
    x.1 + getTotalPagesByOrder x.2 * pageSize ≤ cal ∨ cal + sizeofCal ≤ x.1 := hx.cal

/-- The chunks of an mchunk lie behind its header, in its pages. -/
theorem chunk_within (ho : IsOrder x.2) (hc : c ∈ chunksOf x) :
    (chunkSpan c x.2).Within (dataSpan x) := by
  have hg := geometry ho
  have hheader := hg.header
  have hfits := hg.fits
  obtain ⟨i, hi, rfl⟩ := List.mem_range'.mp hc
  have hle : 2 ^ x.2 * (i + 1) ≤ 2 ^ x.2 * chunkCount x.2 := Nat.mul_le_mul_left _ hi
  rw [Nat.mul_succ] at hle
  refine ⟨?_, ?_⟩
  · show x.1 + sizeofMchunkHeader ≤ x.1 + firstOffset x.2 + 2 ^ x.2 * i
    omega
  · show x.1 + firstOffset x.2 + 2 ^ x.2 * i + 2 ^ x.2 ≤ x.1 + sizeofMchunkHeader +
      (getTotalPagesByOrder x.2 * pageSize - sizeofMchunkHeader)
    omega

theorem chunk_aligned (hx : MchunkOk cal x) (hc : c ∈ chunksOf x) : 2 ^ x.2 ∣ c := by
  have hg := geometry hx.order
  obtain ⟨i, -, rfl⟩ := List.mem_range'.mp hc
  have hbase : 2 ^ x.2 ∣ x.1 := hg.page.trans (Nat.dvd_of_mod_eq_zero hx.aligned)
  exact Nat.dvd_add (Nat.dvd_add hbase hg.first) (Nat.dvd_mul_right _ _)

/-- Two chunks of an mchunk do not overlap. -/
theorem chunk_apart (hc : c ∈ chunksOf x) (hc' : c' ∈ chunksOf x) (hne : c ≠ c') :
    (chunkSpan c x.2).Apart (chunkSpan c' x.2) := by
  obtain ⟨i, -, rfl⟩ := List.mem_range'.mp hc
  obtain ⟨j, -, rfl⟩ := List.mem_range'.mp hc'
  rcases Nat.lt_trichotomy i j with h | rfl | h
  · have hle : 2 ^ x.2 * (i + 1) ≤ 2 ^ x.2 * j := Nat.mul_le_mul_left _ h
    rw [Nat.mul_succ] at hle
    left
    show x.1 + firstOffset x.2 + 2 ^ x.2 * i + 2 ^ x.2 ≤ x.1 + firstOffset x.2 + 2 ^ x.2 * j
    omega
  · exact absurd rfl hne
  · have hle : 2 ^ x.2 * (j + 1) ≤ 2 ^ x.2 * i := Nat.mul_le_mul_left _ h
    rw [Nat.mul_succ] at hle
    right
    show x.1 + firstOffset x.2 + 2 ^ x.2 * j + 2 ^ x.2 ≤ x.1 + firstOffset x.2 + 2 ^ x.2 * i
    omega

theorem chunksOf_nodup (x : Nat × Nat) : (chunksOf x).Nodup :=
  List.nodup_range' (2 ^ x.2) (Nat.two_pow_pos x.2)

theorem data_within (ho : IsOrder x.2) : (dataSpan x).Within (mchunkSpan x) := by
  have hfits : sizeofMchunkHeader ≤ _ := header_fits ho
  refine ⟨?_, ?_⟩
  · show x.1 ≤ x.1 + sizeofMchunkHeader
    omega
  · show x.1 + sizeofMchunkHeader + (getTotalPagesByOrder x.2 * pageSize - sizeofMchunkHeader) ≤
      x.1 + getTotalPagesByOrder x.2 * pageSize
    omega

theorem chunk_in_region (ho : IsOrder x.2) (hc : c ∈ chunksOf x) :
    (chunkSpan c x.2).Within (mchunkSpan x) := by
  obtain ⟨h₁, h₂⟩ := chunk_within ho hc
  obtain ⟨h₃, h₄⟩ := data_within ho
  exact ⟨h₃.trans h₁, h₂.trans h₄⟩

theorem chunk_notMem {r : Span} (ho : IsOrder x.2) (hc : c ∈ chunksOf x)
    (hap : (mchunkSpan x).Apart r) : c < r.base ∨ r.base + r.len ≤ c := by
  obtain ⟨h₁, h₂⟩ := chunk_in_region ho hc
  have hpos := Nat.two_pow_pos x.2
  simp only [Span.Apart, chunkSpan] at h₁ h₂ hap
  omega

theorem chunksOf_disjoint (hx : IsOrder x.2) (hy : IsOrder y.2)
    (hap : (mchunkSpan x).Apart (mchunkSpan y)) : List.Disjoint (chunksOf x) (chunksOf y) := by
  intro c hcx hcy
  have hout := chunk_notMem hx hcx hap
  obtain ⟨h₁, h₂⟩ := chunk_in_region hy hcy
  have hpos := Nat.two_pow_pos y.2
  simp only [chunkSpan] at h₁ h₂
  omega

/-! ## Pools -/

structure Pool where
  mchunks     : List (Nat × Nat)
  free        : Nat → List Nat
  outstanding : List (Nat × Nat)

namespace Pool

/-- The pointer of a block that was cut from a chunk list of order `o`. -/
def takenPtr (o : Nat) (x : Nat × Nat) : Option Nat :=
  if x.2 < calChunkThresholdSize ∧ getOrderBySize x.2 = o then some x.1 else none

/-- The chunks of order `o` that are handed out. -/
def taken (P : Pool) (o : Nat) : List Nat := P.outstanding.filterMap (takenPtr o)

/-- All chunks of order `o`. -/
def chunks (P : Pool) (o : Nat) : List Nat := (P.mchunks.filter (·.2 = o)).flatMap chunksOf

structure Wf (cal : Nat) (P : Pool) : Prop where
  mchunk  : ∀ x ∈ P.mchunks, MchunkOk cal x
  regions : P.mchunks.Pairwise fun x y => (mchunkSpan x).Apart (mchunkSpan y)
  large   : ∀ y ∈ P.outstanding, calChunkThresholdSize ≤ y.2 →
    (blockSpan y).Apart ⟨cal, sizeofCal⟩ ∧ ∀ x ∈ P.mchunks, (blockSpan y).Apart (mchunkSpan x)
  parts   : ∀ o, (P.free o ++ P.taken o).Perm (P.chunks o)
  sizes   : ∀ x ∈ P.outstanding, 0 < x.2
  blocks  : P.outstanding.Pairwise fun x y => (blockSpan x).Apart (blockSpan y)

-- the operations of the allocator, on a pool

def take (P : Pool) (c size : Nat) : Pool :=
  { P with
    free := update P.free (getOrderBySize size) (P.free (getOrderBySize size)).tail
    outstanding := (c, size) :: P.outstanding }

def grow (P : Pool) (b o : Nat) : Pool :=
  { P with
    mchunks := P.mchunks ++ [(b, o)]
    free := update P.free o (chunksOf (b, o) ++ P.free o) }

def give (P : Pool) (c size : Nat) : Pool :=
  { P with
    free := update P.free (getOrderBySize size) (c :: P.free (getOrderBySize size))
    outstanding := P.outstanding.erase (c, size) }

def map (P : Pool) (p size : Nat) : Pool := { P with outstanding := (p, size) :: P.outstanding }

def unmap (P : Pool) (p size : Nat) : Pool :=
  { P with outstanding := P.outstanding.erase (p, size) }

variable {P : Pool} {p b size : Nat} {xs : List Nat}

theorem mem_chunks : c ∈ P.chunks o ↔ ∃ x ∈ P.mchunks, x.2 = o ∧ c ∈ chunksOf x := by
  simp only [chunks, List.mem_flatMap, List.mem_filter, decide_eq_true_eq, and_assoc]

theorem mem_taken : p ∈ P.taken o ↔
    ∃ z, (p, z) ∈ P.outstanding ∧ z < calChunkThresholdSize ∧ getOrderBySize z = o := by
  simp only [taken, List.mem_filterMap, takenPtr, Option.ite_none_right_eq_some, Option.some.injEq]
  constructor
  · rintro ⟨⟨p, z⟩, hx, hz, rfl⟩
    exact ⟨z, hx, hz⟩
  · rintro ⟨z, hx, hz⟩
    exact ⟨(p, z), hx, hz, rfl⟩

theorem takenPtr_self (hsize : size < calChunkThresholdSize) :
    takenPtr (getOrderBySize size) (p, size) = some p := by
  simp [takenPtr, hsize]

theorem takenPtr_ne (h : o ≠ getOrderBySize size) : takenPtr o (p, size) = none := by
  simp [takenPtr, Ne.symm h]

theorem takenPtr_large (hsize : calChunkThresholdSize ≤ size) : takenPtr o (p, size) = none := by
  simp [takenPtr, Nat.not_lt.mpr hsize]

theorem taken_take (hsize : size < calChunkThresholdSize) :
    (P.take c size).taken o =
      if o = getOrderBySize size then c :: P.taken o else P.taken o := by
  split
  next ho =>
    subst ho
    simp [taken, take, takenPtr_self hsize]
  next ho => simp [taken, take, takenPtr_ne ho]

theorem taken_map (hsize : calChunkThresholdSize ≤ size) : (P.map p size).taken o = P.taken o := by
  simp [taken, map, takenPtr_large hsize]

theorem taken_erase (o : Nat) (hx : x ∈ P.outstanding) :
    (P.taken o).Perm ((takenPtr o x).toList ++ (P.outstanding.erase x).filterMap (takenPtr o)) := by
  have hperm := (List.perm_cons_erase hx).filterMap (takenPtr o)
  rw [List.filterMap_cons] at hperm
  cases h : takenPtr o x <;> simpa [h, taken] using hperm

theorem chunks_grow (P : Pool) (b o o' : Nat) :
    (P.grow b o).chunks o' = P.chunks o' ++ if o = o' then chunksOf (b, o) else [] := by
  by_cases h : o = o' <;> simp [chunks, grow, h]

/-! ## Reading a well-formed pool -/

namespace Wf

theorem blockSpan_small (hsize : x.2 < calChunkThresholdSize) :
    blockSpan x = chunkSpan x.1 (getOrderBySize x.2) := by
  simp [blockSpan, chunkSpan, blockSize, hsize]

variable (hP : Wf cal P)
include hP

theorem mem_free_or_taken : c ∈ P.free o ∨ c ∈ P.taken o ↔ c ∈ P.chunks o := by
  rw [← List.mem_append]
  exact (hP.parts o).mem_iff

theorem regions_apart (hx : x ∈ P.mchunks) (hy : y ∈ P.mchunks) (hne : x ≠ y) :
    (mchunkSpan x).Apart (mchunkSpan y) := by
  have hsymm : Std.Symm fun x y : Nat × Nat => (mchunkSpan x).Apart (mchunkSpan y) :=
    ⟨fun _ _ h => h.symm⟩
  exact hP.regions.forall hx hy hne

theorem chunk_in (hc : c ∈ P.chunks o) :
    ∃ x ∈ P.mchunks, x.2 = o ∧ c ∈ chunksOf x ∧ (chunkSpan c o).Within (mchunkSpan x) := by
  obtain ⟨x, hx, rfl, hcx⟩ := mem_chunks.mp hc
  exact ⟨x, hx, rfl, hcx, chunk_in_region (hP.mchunk x hx).order hcx⟩

theorem chunks_apart (hc : c ∈ P.chunks o) (hc' : c' ∈ P.chunks o')
    (hne : c = c' → o ≠ o') : (chunkSpan c o).Apart (chunkSpan c' o') := by
  obtain ⟨x, hx, rfl, hcx, hin⟩ := hP.chunk_in hc
  obtain ⟨y, hy, rfl, hcy, hin'⟩ := hP.chunk_in hc'
  by_cases hxy : x = y
  · subst hxy
    exact chunk_apart hcx hcy fun h => hne h rfl
  · exact (hP.regions_apart hx hy hxy).of_within hin hin'

theorem chunk_unique (hx : x ∈ P.mchunks) (hy : y ∈ P.mchunks)
    (hcx : c ∈ chunksOf x) (hcy : c ∈ chunksOf y) : x = y := by
  by_contra hne
  exact chunksOf_disjoint (hP.mchunk x hx).order (hP.mchunk y hy).order
    (hP.regions_apart hx hy hne) hcx hcy

theorem chunks_nodup (o : Nat) : (P.chunks o).Nodup := by
  refine List.nodup_flatMap.mpr ⟨fun x _ => chunksOf_nodup x, ?_⟩
  have hsub : (P.mchunks.filter (·.2 = o)).Pairwise
      fun x y => (mchunkSpan x).Apart (mchunkSpan y) := hP.regions.filter _
  refine hsub.imp_of_mem ?_
  intro x y hx hy hxy
  exact chunksOf_disjoint (hP.mchunk x (List.mem_of_mem_filter hx)).order
    (hP.mchunk y (List.mem_of_mem_filter hy)).order hxy

theorem nodup (o : Nat) : (P.free o ++ P.taken o).Nodup :=
  (hP.parts o).nodup_iff.mpr (hP.chunks_nodup o)

theorem length_chunks_lt (o : Nat) : (P.chunks o).length < Unsigned.range := by
  have hsub : (P.chunks o).toFinset ⊆ Finset.Ioo 0 Unsigned.range := by
    intro c hc
    obtain ⟨x, hx, rfl, -, h₁, h₂⟩ := hP.chunk_in (List.mem_toFinset.mp hc)
    have hpos := (hP.mchunk x hx).pos
    have hbound := (hP.mchunk x hx).bound
    have hpow := Nat.two_pow_pos x.2
    simp only [chunkSpan, mchunkSpan] at h₁ h₂
    rw [Finset.mem_Ioo]
    omega
  have hcard := Finset.card_le_card hsub
  rw [List.toFinset_card_of_nodup (hP.chunks_nodup o), Nat.card_Ioo] at hcard
  have hrange := Unsigned.one_lt_range
  omega

/-! ## Operations -/

theorem small_chunk (hx : x ∈ P.outstanding) (hsize : x.2 < calChunkThresholdSize) :
    x.1 ∈ P.taken (getOrderBySize x.2) ∧ x.1 ∈ P.chunks (getOrderBySize x.2) := by
  have htaken : x.1 ∈ P.taken (getOrderBySize x.2) := mem_taken.mpr ⟨x.2, hx, hsize, rfl⟩
  exact ⟨htaken, hP.mem_free_or_taken.mp (Or.inr htaken)⟩

theorem free_apart (hc : c ∈ P.free o) (hx : x ∈ P.outstanding) :
    (chunkSpan c o).Apart (blockSpan x) := by
  have hcell := hP.mem_free_or_taken.mp (Or.inl hc)
  by_cases hsize : x.2 < calChunkThresholdSize
  · obtain ⟨htaken, hx'⟩ := hP.small_chunk hx hsize
    rw [blockSpan_small hsize]
    refine hP.chunks_apart hcell hx' ?_
    rintro rfl rfl
    exact (List.nodup_append.mp (hP.nodup _)).2.2 _ hc _ htaken rfl
  · obtain ⟨y, hy, -, -, hin⟩ := hP.chunk_in hcell
    have hlarge := (hP.large x hx (Nat.not_lt.mp hsize)).2 y hy
    exact (hlarge.symm).of_within hin ⟨le_rfl, le_rfl⟩

theorem take (hpos : 0 < size) (hsize : size < calChunkThresholdSize)
    (hfree : P.free (getOrderBySize size) = c :: xs) : Wf cal (P.take c size) where
  mchunk := hP.mchunk
  regions := hP.regions
  large := by
    intro y hy hlarge
    rcases List.mem_cons.mp hy with rfl | hy
    · exact absurd hsize (Nat.not_lt.mpr hlarge)
    · exact hP.large y hy hlarge
  parts := by
    intro o
    rw [taken_take hsize]
    show (update P.free _ _ o ++ _).Perm _
    by_cases ho : o = getOrderBySize size
    · subst ho
      have hparts := hP.parts (getOrderBySize size)
      rw [hfree] at hparts
      rw [update_self, if_pos rfl, hfree, List.tail_cons]
      exact List.perm_middle.trans hparts
    · rw [update_of_ne ho, if_neg ho]
      exact hP.parts o
  sizes := by
    intro y hy
    rcases List.mem_cons.mp hy with rfl | hy
    · exact hpos
    · exact hP.sizes y hy
  blocks := by
    refine List.pairwise_cons.mpr ⟨?_, hP.blocks⟩
    intro y hy
    rw [blockSpan_small hsize]
    exact hP.free_apart (by rw [hfree]; exact List.mem_cons_self) hy

theorem grow (hx : MchunkOk cal (b, o))
    (hnew : ∀ y ∈ P.mchunks, (mchunkSpan (b, o)).Apart (mchunkSpan y))
    (hlarge : ∀ y ∈ P.outstanding, calChunkThresholdSize ≤ y.2 →
      (mchunkSpan (b, o)).Apart (blockSpan y)) : Wf cal (P.grow b o) where
  mchunk := by
    intro x hx'
    rcases List.mem_append.mp hx' with h | h
    · exact hP.mchunk x h
    · rw [List.mem_singleton.mp h]
      exact hx
  regions := by
    refine List.pairwise_append.mpr ⟨hP.regions, List.pairwise_singleton _ _, ?_⟩
    intro x hx' y hy
    rw [List.mem_singleton.mp hy]
    exact (hnew x hx').symm
  large := by
    intro y hy hsize
    obtain ⟨hcal, hold⟩ := hP.large y hy hsize
    refine ⟨hcal, ?_⟩
    intro x hx'
    rcases List.mem_append.mp hx' with h | h
    · exact hold x h
    · rw [List.mem_singleton.mp h]
      exact (hlarge y hy hsize).symm
  parts := by
    intro o'
    have hparts := hP.parts o'
    rw [chunks_grow]
    show (update P.free o (chunksOf (b, o) ++ P.free o) o' ++ P.taken o').Perm _
    by_cases h : o = o'
    · subst h
      rw [update_self, if_pos rfl, List.append_assoc]
      exact List.perm_append_comm.trans (hparts.append_right _)
    · rw [update_of_ne (Ne.symm h), if_neg h, List.append_nil]
      exact hparts
  sizes := hP.sizes
  blocks := hP.blocks

theorem give (hx : (c, size) ∈ P.outstanding) (hsize : size < calChunkThresholdSize) :
    Wf cal (P.give c size) where
  mchunk := hP.mchunk
  regions := hP.regions
  large := fun y hy => hP.large y (List.mem_of_mem_erase hy)
  parts := by
    intro o
    have htaken := taken_erase o hx
    refine List.Perm.trans ?_ (hP.parts o)
    show (update P.free _ _ o ++ _).Perm _
    by_cases ho : o = getOrderBySize size
    · subst ho
      rw [takenPtr_self hsize] at htaken
      rw [update_self]
      exact List.perm_middle.symm.trans (htaken.symm.append_left _)
    · rw [takenPtr_ne ho] at htaken
      rw [update_of_ne ho]
      exact htaken.symm.append_left _
  sizes := fun y hy => hP.sizes y (List.mem_of_mem_erase hy)
  blocks := hP.blocks.sublist List.erase_sublist

theorem map (hsize : calChunkThresholdSize ≤ size)
    (hcal : (blockSpan (p, size)).Apart ⟨cal, sizeofCal⟩)
    (hnew : ∀ y ∈ P.mchunks, (blockSpan (p, size)).Apart (mchunkSpan y))
    (hlarge : ∀ y ∈ P.outstanding, calChunkThresholdSize ≤ y.2 →
      (blockSpan (p, size)).Apart (blockSpan y)) : Wf cal (P.map p size) where
  mchunk := hP.mchunk
  regions := hP.regions
  large := by
    intro y hy hy'
    rcases List.mem_cons.mp hy with rfl | hy
    · exact ⟨hcal, hnew⟩
    · exact hP.large y hy hy'
  parts := by
    intro o
    rw [taken_map hsize]
    exact hP.parts o
  sizes := by
    intro y hy
    rcases List.mem_cons.mp hy with rfl | hy
    · have hpos : 0 < calChunkThresholdSize := by decide
      exact hpos.trans_le hsize
    · exact hP.sizes y hy
  blocks := by
    refine List.pairwise_cons.mpr ⟨?_, hP.blocks⟩
    intro y hy
    by_cases hy' : y.2 < calChunkThresholdSize
    · obtain ⟨z, hz, -, -, hin⟩ := hP.chunk_in (hP.small_chunk hy hy').2
      rw [blockSpan_small hy']
      exact (hnew z hz).of_within ⟨le_rfl, le_rfl⟩ hin
    · exact hlarge y hy (Nat.not_lt.mp hy')

theorem unmap (hx : (p, size) ∈ P.outstanding)
    (hsize : calChunkThresholdSize ≤ size) : Wf cal (P.unmap p size) where
  mchunk := hP.mchunk
  regions := hP.regions
  large := fun y hy => hP.large y (List.mem_of_mem_erase hy)
  parts := by
    intro o
    have htaken := taken_erase o hx
    rw [takenPtr_large hsize] at htaken
    exact (htaken.symm.append_left _).trans (hP.parts o)
  sizes := fun y hy => hP.sizes y (List.mem_of_mem_erase hy)
  blocks := hP.blocks.sublist List.erase_sublist

/-! ## Separation -/

theorem free_pairwise (o : Nat) :
    ((P.free o).map (chunkSpan · o)).Pairwise Span.Apart := by
  have hnodup : (P.free o).Nodup := (List.nodup_append.mp (hP.nodup o)).1
  refine List.pairwise_map.mpr (hnodup.pairwise_of_forall_ne ?_)
  intro c hc c' hc' hne
  exact hP.chunks_apart (hP.mem_free_or_taken.mp (Or.inl hc)) (hP.mem_free_or_taken.mp (Or.inl hc'))
    fun h => absurd h hne

theorem blocks_apart :
    (P.outstanding.map blockSpan ++ cachedSpans P.free).Pairwise Span.Apart := by
  refine List.pairwise_append.mpr ⟨List.pairwise_map.mpr hP.blocks, ?_, ?_⟩
  · refine List.pairwise_flatMap.mpr ⟨fun o _ => hP.free_pairwise o, ?_⟩
    have horders : (List.range' calChunkOrderMin calChunkHeads).Nodup := by decide
    refine horders.imp ?_
    intro o o' hne s hs t ht
    obtain ⟨c, hc, rfl⟩ := List.mem_map.mp hs
    obtain ⟨c', hc', rfl⟩ := List.mem_map.mp ht
    exact hP.chunks_apart (hP.mem_free_or_taken.mp (Or.inl hc))
      (hP.mem_free_or_taken.mp (Or.inl hc')) fun _ => hne
  · intro s hs t ht
    obtain ⟨x, hx, rfl⟩ := List.mem_map.mp hs
    obtain ⟨o, -, ht⟩ := List.mem_flatMap.mp ht
    obtain ⟨c, hc, rfl⟩ := List.mem_map.mp ht
    exact (hP.free_apart hc hx).symm

theorem pointers_nodup : (P.outstanding.map Prod.fst).Nodup := by
  refine List.pairwise_map.mpr (hP.blocks.imp_of_mem ?_)
  intro x y hx hy hxy heq
  have hpos := (hP.sizes x hx).trans_le (size_le_blockSize (hP.sizes x hx))
  have hpos' := (hP.sizes y hy).trans_le (size_le_blockSize (hP.sizes y hy))
  simp only [Span.Apart, blockSpan] at hxy
  omega

end Wf

end Pool

end Ngpt.Alloc
