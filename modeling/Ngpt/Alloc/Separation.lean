import Ngpt.Alloc.Refine

/-!
# ngpt — the allocator keeps memory apart

The invariant of a run is that some pool is well formed and represented by the memory
(`Inv`). Every call keeps it, and so does every store of a client to memory of its own.

Result: `cal_separation`.
-/

namespace Ngpt.Alloc

open WordMemory LinkedRing Transition

def State.pool (s : State) (free : Nat → List Nat) : Pool := ⟨s.mchunks, free, s.outstanding⟩

structure Inv (cal : Nat) (s : State) : Prop where
  pos        : 0 < cal
  bound      : cal < Unsigned.range
  mhOrder    : s.mhOrder = 5
  mhPow2Size : s.mhPow2Size = 32
  pool       : ∃ free, (s.pool free).Wf cal ∧ Represents cal s.mem (s.pool free)

variable {cal size p c b o : Nat} {map : Option Nat} {s s' : State} {P : Pool} {m : Mem}

/-! ## Asking for memory -/

/-- The outcome of a request: nothing happens, or a zeroed block joins those handed out. -/
def Granted (cal : Nat) (s : State) (size : Nat) (r : Option Nat × State) : Prop :=
  r = (none, s) ∨ ∃ p m mchunks free, r = (some p, { s with mem := m, mchunks := mchunks }) ∧
    Pool.Wf cal ⟨mchunks, free, (p, size) :: s.outstanding⟩ ∧
    Represents cal m ⟨mchunks, free, (p, size) :: s.outstanding⟩ ∧
    ∀ w, p ≤ w → w < p + blockSize size → m w = 0

theorem listEmpty_iff (hR : Represents cal m P) (ho : IsOrder o) :
    listEmpty m (ChunkList.head (listAt cal o)) = true ↔ P.free o = [] := by
  have hring := hR.ring .chunks o ho
  rw [listEmpty, beq_iff_eq]
  exact hring.next_head_eq_iff

theorem takeChunk_grants (hP : P.Wf cal) (hR : Represents cal m P) (hpos : 0 < size)
    (hsize : size < calChunkThresholdSize) (hfree : P.free (getOrderBySize size) ≠ [])
    (hout : P.outstanding = s.outstanding) {r : Nat × Mem}
    (hr : r = takeChunk m (listAt cal (getOrderBySize size)) (getOrderBySize size)) :
    Granted cal s size (some r.1, { s with mem := r.2, mchunks := P.mchunks }) := by
  obtain ⟨c, xs, hcons⟩ := List.exists_cons_of_ne_nil hfree
  obtain ⟨rfl, hR', hzero⟩ := takeChunk_refines hP hR hpos hsize hcons hr
  have hP' := hP.take hpos hsize hcons
  refine Or.inr ⟨r.1, r.2, P.mchunks, (P.take r.1 size).free, rfl, ?_, ?_, ?_⟩
  · rw [← hout]
    exact hP'
  · rw [← hout]
    exact hR'
  · intro w h₁ h₂
    simp only [blockSize, hsize, if_true] at h₂
    exact hzero w h₁ h₂

theorem Pool.map_view (hsize : calChunkThresholdSize ≤ size) : (P.map p size).view = P.view := by
  refine View.ext rfl rfl rfl ?_
  funext o
  show ((P.map p size).taken o).length = (P.taken o).length
  rw [Pool.taken_map hsize]

theorem Pool.unmap_view (hx : (p, size) ∈ P.outstanding) (hsize : calChunkThresholdSize ≤ size) :
    (P.unmap p size).view = P.view := by
  refine View.ext rfl rfl rfl ?_
  funext o
  have hlen := (Pool.taken_erase o hx).length_eq
  rw [Pool.takenPtr_large hsize] at hlen
  exact hlen.symm

theorem Fresh.mchunkOk (ho : IsOrder o)
    (hb : Fresh cal s ⟨b, getTotalPagesByOrder o * pageSize⟩) : MchunkOk cal (b, o) :=
  ⟨ho, hb.pos, hb.aligned, hb.bound, hb.cal⟩

/-- A memory in which a list has a chunk to take: that of the state, or that with a new mchunk. -/
structure Ready (cal : Nat) (s : State) (o : Nat) (m : Mem) (P : Pool) : Prop where
  wf          : P.Wf cal
  represents  : Represents cal m P
  outstanding : P.outstanding = s.outstanding
  free        : P.free o ≠ []
  mchunks     : s.mchunks ⊆ P.mchunks
  used        : ∀ x ∈ P.mchunks,
    (x ∈ s.mchunks ∧ m (MchunkHeader.used x.1) = s.mem (MchunkHeader.used x.1)) ∨
      (Fresh cal s (mchunkSpan x) ∧ m (MchunkHeader.used x.1) = 0 ∧
        ∀ c xs, P.free o = c :: xs → c ∈ chunksOf x)

theorem Ready.of_free {free : Nat → List Nat} (hP : (s.pool free).Wf cal)
    (hR : Represents cal s.mem (s.pool free)) (hfree : (s.pool free).free o ≠ []) :
    Ready cal s o s.mem (s.pool free) :=
  ⟨hP, hR, rfl, hfree, fun _ h => h, fun _ hx => Or.inl ⟨hx, rfl⟩⟩

theorem Ready.of_hook {free : Nat → List Nat} (hP : (s.pool free).Wf cal)
    (hR : Represents cal s.mem (s.pool free)) (ho : IsOrder o) (hfree : (s.pool free).free o = [])
    (hb : Fresh cal s ⟨b, getTotalPagesByOrder o * pageSize⟩) (hsplit : Split s.mem m (b, o)) :
    Ready cal s o (hookMchunk m cal (listAt cal o) b) ((s.pool free).grow b o) := by
  have hP' := hP.grow (hb.mchunkOk ho) hb.mchunks hb.outstanding
  have hused := hookMchunk_used hP hP' hR hsplit hfree
  have hnew : ((s.pool free).grow b o).free o = chunksOf (b, o) ++ _ := Function.update_self _ _ _
  refine ⟨hP', hookMchunk_refines hP hP' hR hsplit hfree, rfl, ?_,
    List.subset_append_left _ _, ?_⟩
  · rw [hnew, chunksOf_cons ho]
    exact List.cons_ne_nil _ _
  · intro x hmem
    rcases List.mem_append.mp hmem with hmem | hmem
    · exact Or.inl ⟨hmem, hused.2 x hmem⟩
    · rw [List.mem_singleton.mp hmem]
      refine Or.inr ⟨hb, hused.1, fun c xs hcons => ?_⟩
      rw [hnew, chunksOf_cons ho] at hcons
      rw [chunksOf_cons ho, ← (List.cons.inj hcons).1]
      exact List.mem_cons_self

/-- The fast, the slow and the large path of `cal_get`. -/
theorem allocate_cases (hI : Inv cal s) (hpos : 0 < size)
    (hmap : ∀ b ∈ map, Fresh cal s ⟨b, mapSize size⟩) :
    s.allocate cal size map = (none, s) ∨
    (size < calChunkThresholdSize ∧ ∃ m P, Ready cal s (getOrderBySize size) m P ∧
      ∃ r, r = takeChunk m (listAt cal (getOrderBySize size)) (getOrderBySize size) ∧
        s.allocate cal size map = (some r.1, { s with mem := r.2, mchunks := P.mchunks })) ∨
    (calChunkThresholdSize ≤ size ∧ ∃ b, Fresh cal s (blockSpan (b, size)) ∧
      s.allocate cal size map =
        (some b, { s with mem := fill s.mem (blockSpan (b, size)) 0 })) := by
  obtain ⟨free, hP, hR⟩ := hI.pool
  unfold State.allocate
  split
  next hsize =>
    have ho := (getOrderBySize_spec hpos hsize).1
    have hmh : ¬ s.mhOrder = 0 := by
      rw [hI.mhOrder]
      decide
    simp only [State.chunkCacheGet, hmh, if_false]
    split
    · rename_i hempty
      have hfree : (s.pool free).free (getOrderBySize size) = [] := (listEmpty_iff hR ho).mp hempty
      cases map with
      | none => exact Or.inl rfl
      | some b =>
        have hb := hmap b rfl
        simp only [mapSize, hsize, if_true] at hb
        obtain ⟨m, hget, hsplit⟩ := mchunkHeaderGetChunks_spec (m := s.mem) (h := b) ho
        simp only [hI.mhOrder, hI.mhPow2Size, hget]
        exact Or.inr (Or.inl ⟨hsize, _, _, Ready.of_hook hP hR ho hfree hb hsplit, _, rfl, rfl⟩)
    · rename_i hempty
      have hfree : (s.pool free).free (getOrderBySize size) ≠ [] := fun h =>
        hempty ((listEmpty_iff hR ho).mpr h)
      exact Or.inr (Or.inl ⟨hsize, s.mem, s.pool free, Ready.of_free hP hR hfree, _, rfl, rfl⟩)
  next hsize =>
    have hlarge := Nat.not_lt.mp hsize
    cases map with
    | none => exact Or.inl rfl
    | some b =>
      have hb := hmap b rfl
      simp only [mapSize, hsize, if_false] at hb
      have hspan : blockSpan (b, size) = ⟨b, roundSize pageSize size⟩ := by
        simp [blockSpan, blockSize, hsize]
      refine Or.inr (Or.inr ⟨hlarge, b, ?_, ?_⟩)
      · rw [hspan]
        exact hb
      · rw [hspan]
        rfl

/-- What `cal_get` returns. -/
theorem allocate_grants (hI : Inv cal s) (hpos : 0 < size)
    (hmap : ∀ b ∈ map, Fresh cal s ⟨b, mapSize size⟩) :
    Granted cal s size (s.allocate cal size map) := by
  rcases allocate_cases hI hpos hmap with heq | ⟨hsize, m, P, hready, r, hr, heq⟩ |
    ⟨hlarge, b, hb, heq⟩
  · exact Or.inl heq
  · rw [heq]
    exact takeChunk_grants hready.wf hready.represents hpos hsize hready.free hready.outstanding hr
  · obtain ⟨free, hP, hR⟩ := hI.pool
    have hP' := hP.map hlarge hb.cal hb.mchunks hb.outstanding
    refine Or.inr ⟨b, _, s.mchunks, free, heq, hP', ?_, ?_⟩
    · show Layout cal _ ((s.pool free).map b size).view
      rw [Pool.map_view hlarge]
      refine hR.congr ?_
      intro w hw
      exact fill_off _ _ (kept_off_region hP.sited hb.cal hb.mchunks hw)
    · intro w h₁ h₂
      exact fill_mem _ _ h₁ h₂

theorem Granted.calGet (hI : Inv cal s) (hr : Granted cal s size (s.allocate cal size map)) :
    Inv cal (s.calGet cal size map).2 ∧ ∀ p, (s.calGet cal size map).1 = some p →
      p ∉ s.outstanding.map Prod.fst ∧
        ∀ w, p ≤ w → w < p + blockSize size → (s.calGet cal size map).2.mem w = 0 := by
  rcases hr with hr | ⟨p, m, mchunks, free, hr, hP, hR, hzero⟩
  · have heq : s.calGet cal size map = (none, s) := by
      simp only [State.calGet, hr]
    rw [heq]
    exact ⟨hI, fun p hp => by cases hp⟩
  · have heq : s.calGet cal size map = (some p, { s with
        mem := m, mchunks := mchunks, outstanding := (p, size) :: s.outstanding }) := by
      simp only [State.calGet, hr]
    rw [heq]
    refine ⟨⟨hI.pos, hI.bound, hI.mhOrder, hI.mhPow2Size, free, hP, hR⟩, ?_⟩
    intro q hq
    cases hq
    exact ⟨(List.nodup_cons.mp hP.pointers_nodup).1, hzero⟩

/-! ## Giving memory back and using it -/

theorem Inv.lookup (hI : Inv cal s) (hno : NoImitation s o) :
    ∀ x ∈ s.mchunks, x.2 = o → c ∈ chunksOf x → getMchunkHeaderByChunk s.mem c o = some x.1 := by
  rintro x hx rfl hc
  obtain ⟨free, hP, hR⟩ := hI.pool
  exact getMchunkHeaderByChunk_spec (hP.mchunk x hx) ((hR.header x hx).isHeader hI.pos hI.bound) hc
    (hno x hx)

theorem Inv.calPut (hI : Inv cal s) (hx : (p, size) ∈ s.outstanding)
    (hno : NoImitation s (getOrderBySize size)) : Inv cal (s.calPut p size) := by
  obtain ⟨free, hP, hR⟩ := hI.pool
  unfold State.calPut
  split
  next hsize =>
    obtain ⟨m, heq, hR', -⟩ := chunkCachePut_refines
      (s := { s with outstanding := s.outstanding.erase (p, size) }) hP hR hx hsize (hI.lookup hno)
    rw [heq]
    exact ⟨hI.pos, hI.bound, hI.mhOrder, hI.mhPow2Size, _, hP.give hx hsize, hR'⟩
  next hsize =>
    have hlarge := Nat.not_lt.mp hsize
    refine ⟨hI.pos, hI.bound, hI.mhOrder, hI.mhPow2Size, free, hP.unmap hx hlarge, ?_⟩
    show Layout cal s.mem ((s.pool free).unmap p size).view
    rw [Pool.unmap_view hx hlarge]
    exact hR

theorem kept_off_block {x : Nat × Nat} {w : Nat} (hP : P.Wf cal) (hx : x ∈ P.outstanding)
    (hw : Kept cal P.view w) : w < x.1 ∨ x.1 + blockSize x.2 ≤ w := by
  by_cases hsize : x.2 < calChunkThresholdSize
  · obtain ⟨htaken, hchunk⟩ := hP.small_chunk hx hsize
    obtain ⟨y, hy, ho, hcy⟩ := Pool.mem_chunks.mp hchunk
    have hnot : x.1 ∉ P.view.lists .chunks y.2 := by
      intro hfree
      rw [ho] at hfree
      exact (List.nodup_append.mp (hP.nodup _)).2.2 _ hfree _ htaken rfl
    have hoff := kept_off_chunk hP.sited hy hcy hnot hw
    rw [ho] at hoff
    simpa only [blockSize, hsize, if_true] using hoff
  · obtain ⟨hcal, hap⟩ := hP.large x hx (Nat.not_lt.mp hsize)
    exact kept_off_region hP.sited hcal hap hw

theorem Inv.store {a v : Nat} (hI : Inv cal s)
    (hx : ∃ x ∈ s.outstanding, x.1 ≤ a ∧ a + 4 ≤ x.1 + blockSize x.2) :
    Inv cal { s with mem := store s.mem a v } := by
  obtain ⟨free, hP, hR⟩ := hI.pool
  obtain ⟨x, hx, h₁, h₂⟩ := hx
  refine ⟨hI.pos, hI.bound, hI.mhOrder, hI.mhPow2Size, free, hP, hR.congr ?_⟩
  intro w hw
  have hoff := kept_off_block hP hx hw
  exact store_ne _ _ (by omega)

theorem step_inv {a : Action} (hI : Inv cal s) (hok : Allowed cal s a)
    (h : s.step cal a = some s') : Inv cal s' := by
  cases a with
  | get size map =>
    cases h
    exact ((allocate_grants hI hok.1 hok.2).calGet hI).1
  | put ptr size =>
    cases h
    exact hI.calPut hok.1 hok.2
  | store a v =>
    cases h
    exact hI.store hok.2.2

/-! ## Initialisation -/

/-- Both lists of a `struct chunk_list_st` are empty. -/
def EmptyLists (m : Mem) (list : Nat) : Prop :=
  m (list + 4) = list + 4 ∧ m (list + 8) = list + 4 ∧ m (list + 12) = list + 12 ∧
    m (list + 16) = list + 12

theorem chunkListInit_empty (m : Mem) (list : Nat) : EmptyLists (chunkListInit m list) list := by
  simp [EmptyLists, chunkListInit, lnodeInit, store, ChunkList.head, ChunkList.mchunkHead]

theorem chunkListInit_off {list w : Nat} (m : Mem) (hw : w < list ∨ list + 20 ≤ w) :
    chunkListInit m list w = m w := by
  simp only [chunkListInit, lnodeInit, ChunkList.head, ChunkList.mchunkHead]
  simp (disch := omega) only [store_ne]

theorem chunkCacheInit_spec (m : Mem) (cal n : Nat) :
    let m' := (List.range n).foldl (fun m cnt => chunkListInit m (chunkList cal cnt)) m
    (∀ i < n, EmptyLists m' (chunkList cal i)) ∧
      ∀ i, m' (chunkList cal i + 20) = m (chunkList cal i + 20) ∧
        m' (chunkList cal i + 24) = m (chunkList cal i + 24) := by
  induction n with
  | zero => simp
  | succ n ih =>
    simp only [List.range_succ, List.foldl_append, List.foldl_cons, List.foldl_nil] at ih ⊢
    obtain ⟨hempty, hcounters⟩ := ih
    generalize (List.range n).foldl (fun m cnt => chunkListInit m (chunkList cal cnt)) m = m₁ at *
    refine ⟨?_, ?_⟩
    · intro i hi
      by_cases hin : i = n
      · subst hin
        exact chunkListInit_empty m₁ _
      · obtain ⟨h₁, h₂, h₃, h₄⟩ := hempty i (by omega)
        simp only [EmptyLists, chunkList, sizeofChunkList] at h₁ h₂ h₃ h₄ ⊢
        rw [chunkListInit_off _ (by omega), chunkListInit_off _ (by omega),
          chunkListInit_off _ (by omega), chunkListInit_off _ (by omega)]
        exact ⟨h₁, h₂, h₃, h₄⟩
    · intro i
      obtain ⟨h₁, h₂⟩ := hcounters i
      simp only [chunkList, sizeofChunkList] at h₁ h₂ ⊢
      rw [chunkListInit_off _ (by omega), chunkListInit_off _ (by omega)]
      exact ⟨h₁, h₂⟩

theorem calInit_represents (m : Mem) (cal : Nat) :
    Represents cal (calInit m cal) ⟨[], fun _ => [], []⟩ := by
  obtain ⟨hempty, hcounters⟩ := chunkCacheInit_spec (fill m ⟨cal, sizeofCal⟩ 0) cal calChunkHeads
  have hzero : ∀ o, IsOrder o → ∀ d, d < 28 →
      fill m ⟨cal, sizeofCal⟩ 0 (chunkList cal (getIndexByOrder o) + d) = 0 := by
    intro o ho d hd
    obtain ⟨h₁, h₂⟩ := isOrder_iff.mp ho
    refine fill_mem _ _ ?_ ?_
    · simp only [chunkList, sizeofChunkList]
      omega
    · simp only [chunkList, sizeofChunkList, getIndexByOrder, sizeofCal, calChunkHeads,
        calChunkOrderMax, calChunkOrderMin]
      omega
  refine ⟨?_, ?_, ?_, ?_⟩
  · intro k o ho
    obtain ⟨h₁, h₂⟩ := isOrder_iff.mp ho
    have hidx : getIndexByOrder o < calChunkHeads := by
      simp only [getIndexByOrder, calChunkHeads, calChunkOrderMax, calChunkOrderMin]
      omega
    obtain ⟨h₃, h₄, h₅, h₆⟩ := hempty _ hidx
    cases k with
    | chunks => exact IsRing.empty_iff.mpr ⟨h₃, h₄⟩
    | mchunks => exact IsRing.empty_iff.mpr ⟨h₅, h₆⟩
  · intro x hx
    cases hx
  · intro o ho
    exact (hcounters _).1.trans (hzero o ho 20 (by decide))
  · intro o ho
    exact (hcounters _).2.trans (hzero o ho 24 (by decide))

theorem Initial.inv (h : Initial cal s) : Inv cal s := by
  obtain ⟨m, rfl⟩ := h.state
  have hbound := h.bound
  have horder : getPow2Order sizeofMchunkHeader = 5 := by decide
  have hsize : 2 ^ getPow2Order sizeofMchunkHeader = 32 := by decide
  refine ⟨h.pos, by omega, horder, hsize, fun _ => [], ?_, calInit_represents m cal⟩
  exact ⟨by simp [initState, State.pool], by simp [initState, State.pool],
    by simp [initState, State.pool], by simp [initState, State.pool, Pool.taken, Pool.chunks],
    by simp [initState, State.pool], by simp [initState, State.pool]⟩

/-! ## Separation -/

/-- A chunk is aligned to its size and lies in an mchunk of its order, after the header. -/
def InMchunk (s : State) (c o : Nat) : Prop :=
  2 ^ o ∣ c ∧ ∃ b, (b, o) ∈ s.mchunks ∧ (chunkSpan c o).Within (dataSpan (b, o))

/-- What the allocator guarantees in a state whose free lists are `free`. -/
structure Separated (cal : Nat) (s : State) (free : Nat → List Nat) : Prop where
  lists       : ∀ o, IsOrder o →
    IsRing (links s.mem) (ChunkList.head (chunkList cal (getIndexByOrder o))) (free o)
  apart       : (s.outstanding.map blockSpan ++ cachedSpans free).Pairwise Span.Apart
  once        : (s.outstanding.map Prod.fst).Nodup
  size        : ∀ x ∈ s.outstanding, x.2 ≤ blockSize x.2
  outstanding : ∀ x ∈ s.outstanding, x.2 < calChunkThresholdSize →
    InMchunk s x.1 (getOrderBySize x.2)
  cached      : ∀ o, IsOrder o → ∀ c ∈ free o, InMchunk s c o
  counters    : ∀ o, IsOrder o →
    s.mem (ChunkList.total (chunkList cal (getIndexByOrder o))) =
      s.mem (ChunkList.used (chunkList cal (getIndexByOrder o))) + (free o).length

theorem Inv.separated (hI : Inv cal s) : ∃ free, Separated cal s free := by
  obtain ⟨free, hP, hR⟩ := hI.pool
  have hin : ∀ {c o}, c ∈ (s.pool free).chunks o → InMchunk s c o := by
    intro c o hc
    obtain ⟨⟨b, _⟩, hx, rfl, hcx⟩ := Pool.mem_chunks.mp hc
    have hok := hP.mchunk _ hx
    exact ⟨chunk_aligned hok hcx, b, hx, chunk_within hok.order hcx⟩
  refine ⟨free, ?_, hP.blocks_apart, hP.pointers_nodup, ?_, ?_, ?_, ?_⟩
  · intro o ho
    exact hR.ring .chunks o ho
  · intro x hx
    exact size_le_blockSize (hP.sizes x hx)
  · intro x hx hsize
    exact hin (hP.small_chunk hx hsize).2
  · intro o _ c hc
    exact hin (hP.mem_free_or_taken.mp (Or.inl hc))
  · intro o ho
    have htotal : s.mem (ChunkList.total (listAt cal o)) = ((s.pool free).chunks o).length :=
      hR.total o ho
    have hused : s.mem (ChunkList.used (listAt cal o)) = ((s.pool free).taken o).length :=
      hR.used o ho
    have hlen : (free o).length + ((s.pool free).taken o).length =
        ((s.pool free).chunks o).length := hP.length_taken_le o
    show s.mem (ChunkList.total (listAt cal o)) =
      s.mem (ChunkList.used (listAt cal o)) + (free o).length
    omega

/-- **Separation.** In every state that correct calls reach, the blocks handed out and the free
chunks share no address, chunks are aligned and large enough, and the counters agree with the
free lists. A block that `cal_get` returns is not handed out already and holds zeros. -/
theorem cal_separation (cal : Nat) (s : State)
    (hs : Reachable (State.step cal) (Allowed cal) (Initial cal) s) :
    (∃ free, Separated cal s free) ∧
      ∀ size map p, Allowed cal s (.get size map) → (s.calGet cal size map).1 = some p →
        p ∉ s.outstanding.map Prod.fst ∧
          ∀ w, p ≤ w → w < p + blockSize size → (s.calGet cal size map).2.mem w = 0 := by
  have hI : Inv cal s :=
    hs.invariant (fun s h => h.inv) fun s a s' hI hok hstep => step_inv hI hok hstep
  refine ⟨hI.separated, ?_⟩
  intro size map p hok hp
  exact ((allocate_grants hI hok.1 hok.2).calGet hI).2 p hp

/-- A chunk of 2048 bytes is taken from a new mchunk, written to, put back and taken again,
and a block of two pages is mapped. -/
def reuse : List Action :=
  [.get 1500 (some 65536), .store 67592 77, .put 67584 1500, .get 1200 none,
    .get 5000 (some 131072)]

theorem initState_initial (m : Mem) : Initial 1024 (initState m 1024) :=
  ⟨by decide, by decide, by unfold Unsigned.range; decide, m, rfl⟩

theorem cal_separation_reuse :
    ∃ s, runOk (State.step 1024) (Allowed 1024) (initState (fun _ => 7) 1024) reuse = some s ∧
      s.outstanding = [(131072, 5000), (67584, 1200)] ∧ s.mchunks = [(65536, 11)] ∧
      ∃ free, Separated 1024 s free := by
  refine exists_and_of_any₂ (fun _ => id) (by decide +kernel) fun s hs _ _ => ?_
  exact (cal_separation 1024 s (reachable_of_runOk (.init (initState_initial _)) hs)).1

end Ngpt.Alloc
