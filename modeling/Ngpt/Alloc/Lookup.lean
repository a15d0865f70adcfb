import Ngpt.Alloc.Refine

/-!
# ngpt — from a chunk back to its mchunk

`get_mchunk_header_by_chunk` is given a chunk and its order. It starts at the page of the
chunk and walks down page by page, to the first one that starts like a header of the order.
Nothing says where the mchunk starts: the walk may make as many steps as an mchunk of the
order has pages, also from a chunk in the first one.

An mchunk is taken from the moment when `chunk_cache_get` has hooked it to its list. What
happens to the memory afterwards is left open, but for the three words that the test reads
in the header.

Result: `header_lookup`.
-/

namespace Ngpt.Alloc

open WordMemory LinkedRing

variable {m m' : Mem} {cal b o c w : Nat}

/-! ## The pages that are read -/

/-- The pages whose first words the loop of `get_mchunk_header_by_chunk` reads. -/
def walkPages (m : Mem) (order : Nat) : Nat → Nat → List Nat
  | 0, _ => []
  | pages + 1, np =>
    np :: if isHeader m order np then [] else walkPages m order pages (pageBelow np)

/-- The pages that `get_mchunk_header_by_chunk` reads. -/
def lookupPages (m : Mem) (p order : Nat) : List Nat :=
  walkPages m order (getTotalPagesByOrder order) (p - p % pageSize)

theorem walkPages_ge {pages j np : Nat} (hfound : isHeader m o b = true)
    (hnp : np ∈ walkPages m o pages (b + j * pageSize)) : b ≤ np := by
  induction j generalizing pages with
  | zero =>
    cases pages with
    | zero => exact absurd hnp List.not_mem_nil
    | succ pages =>
      rw [walkPages, Nat.zero_mul, Nat.add_zero, if_pos hfound, List.mem_singleton] at hnp
      exact hnp.ge
  | succ j ih =>
    cases pages with
    | zero => exact absurd hnp List.not_mem_nil
    | succ pages =>
      rw [walkPages, pageBelow_succ] at hnp
      rcases List.mem_cons.mp hnp with rfl | hnp
      · exact Nat.le_add_right b _
      · split at hnp
        · exact absurd hnp List.not_mem_nil
        · exact ih hnp

/-! ## A new mchunk -/

/-- The chunks of an mchunk as `mchunk_header_get_chunks` leaves them: those that are
reached from `first_chunk`. -/
def Carved (m : Mem) (h c : Nat) : Prop :=
  ∃ i, c = (links m).next^[i] (m (MchunkHeader.firstChunk h))

theorem Split.mem_chunksOf (ho : IsOrder o) (hs : Split m m' (b, o)) (hc : Carved m' b c) :
    c ∈ chunksOf (b, o) := by
  obtain ⟨i, rfl⟩ := hc
  rw [chunksOf_cons ho, hs.firstChunk]
  induction i with
  | zero => exact List.mem_cons_self
  | succ i ih =>
    rw [Function.iterate_succ_apply']
    exact (hs.ring.next_prev_mem ih).1

/-- What `chunk_cache_get` finds when it gets a region for a new mchunk: its list of chunks
is empty, and its list of mchunks has no node in the region. -/
structure Unlisted (cal : Nat) (m : Mem) (x : Nat × Nat) : Prop where
  chunks  : listEmpty m (ChunkList.head (listAt cal x.2)) = true
  mchunks : m (ChunkList.mchunkHead (listAt cal x.2) + 4) < x.1 ∨
    x.1 + getTotalPagesByOrder x.2 * pageSize ≤ m (ChunkList.mchunkHead (listAt cal x.2) + 4)

theorem MchunkOk.cal_outside (hx : MchunkOk cal (b, o)) (h₁ : listAt cal o ≤ w)
    (h₂ : w < listAt cal o + sizeofChunkList) :
    w < b ∨ b + getTotalPagesByOrder o * pageSize ≤ w := by
  obtain ⟨h₃, h₄⟩ := isOrder_iff.mp hx.order
  have hcal : b + getTotalPagesByOrder o * pageSize ≤ cal ∨ cal + 224 ≤ b := hx.apart_cal
  simp only [listAt, chunkList, sizeofChunkList, getIndexByOrder, calChunkOrderMin] at h₁ h₂
  omega

theorem markMchunk_list {m₁ : Mem} {t : Nat} (hx : MchunkOk cal (b, o))
    (hs : Split m m₁ (b, o))
    (h₁ : listAt cal o ≤ w) (h₂ : w < listAt cal o + sizeofChunkList)
    (h₃ : w ≠ ChunkList.total (listAt cal o)) : markMchunk m₁ cal o b t w = m w := by
  have hfits : sizeofMchunkHeader ≤ _ := header_fits (o := o) hx.order
  have hoff := hx.cal_outside h₁ h₂
  rw [markMchunk_off h₃ (by omega), hs.frame w hoff]

theorem markMchunk_firstChunk {m₁ : Mem} {t : Nat} (hx : MchunkOk cal (b, o))
    (hs : Split m m₁ (b, o)) :
    markMchunk m₁ cal o b t (MchunkHeader.firstChunk b) = b + firstOffset o := by
  have hfits := header_fits (o := o) hx.order
  refine (markMchunk_off (hx.off_cal (k := .chunks) hx.order ?_ ?_).2 ?_).trans hs.firstChunk
  all_goals
    simp only [MchunkHeader.firstChunk]
    omega

theorem hookMchunk_word {m₁ : Mem} (hx : MchunkOk cal (b, o)) (hu : Unlisted cal m (b, o))
    (hs : Split m m₁ (b, o))
    (hw : HeaderWord (b, o) w) :
    ∃ t, hookMchunk m₁ cal (listAt cal o) b w = markMchunk m₁ cal o b t w := by
  obtain ⟨t, ht⟩ : ∃ t, (m₁ (ChunkList.total (listAt cal o)) + m₁ (MchunkHeader.used b)) %
      Unsigned.range = t := ⟨_, rfl⟩
  have hfits := header_fits hx.order
  have hout : ∀ w, listAt cal o ≤ w → w < listAt cal o + sizeofChunkList →
      w ≠ ChunkList.total (listAt cal o) → markMchunk m₁ cal o b t w = m w :=
    fun _ => markMchunk_list hx hs
  refine ⟨t, ?_⟩
  rw [hookMchunk_eq ht (markMchunk_firstChunk hx hs)]
  have hring := markMchunk_ring (t := t) hx hs
  generalize markMchunk m₁ cal o b t = m₂ at hring hout
  -- the nodes that are stored to: the two anchors, two chunks and the node that was last
  have hchunks : anchor cal .chunks o = listAt cal o + 4 := rfl
  have hmchunks : anchor cal .mchunks o = listAt cal o + 12 := rfl
  have hsize : sizeofChunkList = 28 := rfl
  have htotal : ChunkList.total (listAt cal o) = listAt cal o + 20 := rfl
  have hanchor := hx.cal_outside (w := listAt cal o + 4) (by omega) (by omega)
  have hanchor' := hx.cal_outside (w := listAt cal o + 8) (by omega) (by omega)
  have hanchor'' := hx.cal_outside (w := listAt cal o + 16) (by omega) (by omega)
  have hempty : m₂ (listAt cal o + 4) = listAt cal o + 4 := by
    rw [hout _ (by omega) (by omega) (by omega)]
    exact beq_iff_eq.mp hu.chunks
  have hlast : m₂ (listAt cal o + 16) = m (listAt cal o + 16) :=
    hout _ (by omega) (by omega) (by omega)
  have hu' : m (listAt cal o + 16) < b ∨
      b + getTotalPagesByOrder o * pageSize ≤ m (listAt cal o + 16) := hu.mchunks
  obtain ⟨hf, hf'⟩ := chunk_range hx.order (by
    rw [chunksOf_cons hx.order]
    exact List.mem_cons_self)
  obtain ⟨he, he'⟩ := chunk_range (n := m₂ (b + firstOffset o + 4)) hx.order (by
    rw [chunksOf_cons hx.order]
    exact (hring.next_prev_mem List.mem_cons_self).2)
  simp only at hf hf' he he'
  obtain ⟨hlow, hhigh, -, hnode, hnode'⟩ := hw
  simp only [sizeofMchunkHeader, MchunkHeader.node] at hlow hhigh hnode hnode'
  simp only [listInsertTail, listInsertList, spliceAfter, insertBetween, hchunks, hmchunks,
    hempty, MchunkHeader.node]
  generalize m₂ (b + firstOffset o + 4) = e at he he'
  generalize b + firstOffset o = f at hf hf'
  simp (disch := omega) only [store_ne, Nat.add_assoc, Nat.reduceAdd, hlast]

theorem hookMchunk_isHeader {m₁ : Mem} (hpos : 0 < cal) (hlt : cal < Unsigned.range)
    (hx : MchunkOk cal (b, o)) (hu : Unlisted cal m (b, o)) (hs : Split m m₁ (b, o))
    (hkept : ∀ w ∈ [MchunkHeader.chunkCache b, MchunkHeader.notChunkCache b, MchunkHeader.order b],
      m' w = hookMchunk m₁ cal (listAt cal o) b w) : isHeader m' o b = true := by
  have hword : ∀ w ∈ [MchunkHeader.chunkCache b, MchunkHeader.notChunkCache b,
      MchunkHeader.order b], HeaderWord (b, o) w := by
    simp only [List.mem_cons, List.not_mem_nil, or_false, HeaderWord, MchunkHeader.chunkCache,
      MchunkHeader.notChunkCache, MchunkHeader.order, MchunkHeader.used, MchunkHeader.node,
      sizeofMchunkHeader]
    omega
  have hmarked : ∀ w ∈ [MchunkHeader.chunkCache b, MchunkHeader.notChunkCache b,
      MchunkHeader.order b], ∃ t, m' w = markMchunk m₁ cal o b t w := by
    intro w hw
    rw [hkept w hw]
    exact hookMchunk_word hx hu hs (hword w hw)
  refine isHeader_of_words ?_ ?_ ?_ hpos hlt
  · obtain ⟨t, ht⟩ := hmarked (MchunkHeader.chunkCache b) (by simp)
    rw [ht]
    simp [markMchunk, store, MchunkHeader.chunkCache, MchunkHeader.notChunkCache,
      MchunkHeader.used]
  · obtain ⟨t, ht⟩ := hmarked (MchunkHeader.notChunkCache b) (by simp)
    rw [ht]
    simp [markMchunk, store, MchunkHeader.notChunkCache, MchunkHeader.used]
  · obtain ⟨t, ht⟩ := hmarked (MchunkHeader.order b) (by simp)
    have hfits := header_fits (o := o) hx.order
    rw [ht, markMchunk_off (hx.off_cal (k := .chunks) hx.order ?_ ?_).2 ?_]
    · exact hs.order
    all_goals
      simp only [MchunkHeader.order]
      omega

/-- **The header of a chunk.** From each chunk of an mchunk that has been split and hooked to
its list, in any later memory with the same header, `get_mchunk_header_by_chunk` finds that
header and reads no page below, if no other page of the mchunk starts like one. -/
theorem header_lookup (m : Mem) (cal b o : Nat) (hpos : 0 < cal) (hlt : cal < Unsigned.range)
    (hx : MchunkOk cal (b, o)) (hu : Unlisted cal m (b, o)) (r : Nat × Mem)
    (hr : mchunkHeaderGetChunks (getPow2Order sizeofMchunkHeader)
      (2 ^ getPow2Order sizeofMchunkHeader) m o (some b) = some r)
    (c : Nat) (hc : Carved r.2 r.1 c) (m' : Mem)
    (hkept : ∀ w ∈ [MchunkHeader.chunkCache r.1, MchunkHeader.notChunkCache r.1,
      MchunkHeader.order r.1], m' w = hookMchunk r.2 cal (listAt cal o) r.1 w)
    (hno : ∀ k < getTotalPagesByOrder o, 0 < k → isHeader m' o (r.1 + k * pageSize) = false) :
    getMchunkHeaderByChunk m' c o = some r.1 ∧ ∀ np ∈ lookupPages m' c o, r.1 ≤ np := by
  obtain ⟨m₁, hget, hs⟩ := mchunkHeaderGetChunks_spec (m := m) (h := b) hx.order
  have horder : getPow2Order sizeofMchunkHeader = 5 := by decide
  rw [horder] at hr
  cases hget.symm.trans hr
  have hfound : isHeader m' o b = true := hookMchunk_isHeader hpos hlt hx hu hs hkept
  have hmem := hs.mem_chunksOf hx.order hc
  refine ⟨getMchunkHeaderByChunk_spec hx hfound hmem hno, fun np hnp => ?_⟩
  obtain ⟨j, -, hpage⟩ := chunk_page hx hmem
  rw [lookupPages, hpage] at hnp
  exact walkPages_ge hfound hnp

/-- Five pages for chunks of the last order; the chunk is the fourth, in the third page. -/
theorem header_lookup_fourth :
    ∃ r c, mchunkHeaderGetChunks (getPow2Order sizeofMchunkHeader)
        (2 ^ getPow2Order sizeofMchunkHeader) (calInit (fun _ => 0) 4096) 11 (some 8192) = some r ∧
      Carved r.2 r.1 c ∧ c = 8192 + 2 * pageSize ∧
      getMchunkHeaderByChunk (hookMchunk r.2 4096 (listAt 4096 11) r.1) c 11 = some r.1 ∧
      ∀ np ∈ lookupPages (hookMchunk r.2 4096 (listAt 4096 11) r.1) c 11, r.1 ≤ np := by
  have hx : MchunkOk 4096 (8192, 11) :=
    ⟨by decide, by decide, by decide, by decide +kernel, by decide⟩
  have hu : Unlisted 4096 (calInit (fun _ => 0) 4096) (8192, 11) :=
    ⟨by decide +kernel, by decide +kernel⟩
  have hc : Carved (splitMchunk 5 32 11 8192 (fill (calInit (fun _ => 0) 4096)
      ⟨8192, 20480⟩ 0)) 8192 16384 := ⟨3, by decide +kernel⟩
  refine ⟨_, 16384, rfl, hc, rfl, ?_⟩
  exact header_lookup _ 4096 8192 11 (by decide) (by decide +kernel) hx hu _ rfl _ hc _
    (fun _ _ => rfl) (by decide +kernel)

end Ngpt.Alloc
