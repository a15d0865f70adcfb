import Ngpt.Alloc.Split

/-!
# ngpt — the allocator's code refines its pool

A memory represents a pool when it lays out the pool's view. The code on the memory then
does what the pool operations say.
-/

namespace Ngpt.Alloc

open Function WordMemory LinkedRing

/-- What the allocator keeps of a pool. -/
def Pool.view (P : Pool) : View where
  mchunks := P.mchunks
  lists
    | .chunks, o => P.free o
    | .mchunks, o => (P.mchunks.filter (·.2 = o)).map fun x => MchunkHeader.node x.1
  total o := (P.chunks o).length
  used o := (P.taken o).length

def Represents (cal : Nat) (m : Mem) (P : Pool) : Prop := Layout cal m P.view

variable {cal c o n w b h t size : Nat} {k : ListKind} {m m' : Mem} {V : View} {P : Pool}
  {x y : Nat × Nat} {xs : List Nat}

theorem Pool.Wf.sited (hP : P.Wf cal) : Sited cal P.view where
  mchunk := hP.mchunk
  regions := fun x hx y hy hne => hP.regions_apart hx hy hne
  nodes := by
    intro k o n hn
    cases k with
    | chunks => exact Pool.mem_chunks.mp (hP.mem_free_or_taken.mp (Or.inl hn))
    | mchunks =>
      obtain ⟨x, hx, rfl⟩ := List.mem_map.mp hn
      obtain ⟨hx, ho⟩ := List.mem_filter.mp hx
      exact ⟨x, hx, of_decide_eq_true ho, List.mem_singleton_self _⟩

/-! ## What the allocator does not keep -/

section

variable (hS : Sited cal V)
include hS

theorem kept_cases (hw : Kept cal V w) :
    (cal ≤ w ∧ w < cal + sizeofCal) ∨
      ∃ x ∈ V.mchunks, x.1 ≤ w ∧ w < x.1 + getTotalPagesByOrder x.2 * pageSize ∧
        ((w < x.1 + 32 ∧ w ≠ x.1 + 16) ∨
          ∃ n ∈ V.lists .chunks x.2, n ∈ chunksOf x ∧ (w = n ∨ w = n + 4)) := by
  rcases hw with hw | ⟨x, hx, h₁, h₂, h₃⟩ | ⟨k, o, n, hn, hw⟩
  · exact Or.inl hw
  · have hfits := header_fits (hS.mchunk x hx).order
    simp only [sizeofMchunkHeader] at h₂
    exact Or.inr ⟨x, hx, h₁, by omega, Or.inl ⟨h₂, h₃⟩⟩
  · obtain ⟨x, hx, rfl, hplace⟩ := hS.nodes k o n hn
    obtain ⟨h₁, h₂⟩ := place_in (hS.mchunk x hx).order hplace
    refine Or.inr ⟨x, hx, by omega, by omega, ?_⟩
    rcases h₂ with ⟨-, h₂⟩ | ⟨rfl, -⟩
    · exact Or.inl (by omega)
    · exact Or.inr ⟨n, hn, hplace, hw⟩

theorem kept_in (hy : y ∈ V.mchunks) (hw : Kept cal V w)
    (hlt : w < y.1 + getTotalPagesByOrder y.2 * pageSize) : (w < y.1 + 32 ∧ w ≠ y.1 + 16) ∨
      ∃ n ∈ V.lists .chunks y.2, n ∈ chunksOf y ∧ (w = n ∨ w = n + 4) := by
  rcases kept_cases hS hw with hw | ⟨x, hx, h₃, h₄, hw⟩
  · have hcal := (hS.mchunk y hy).apart_cal
    omega
  · by_cases hxy : x = y
    · exact hxy ▸ hw
    · have hap := hS.apart hx hy hxy
      omega

theorem kept_off_region {r : Span} (hcal : r.Apart ⟨cal, sizeofCal⟩)
    (hap : ∀ x ∈ V.mchunks, r.Apart (mchunkSpan x)) (hw : Kept cal V w) :
    w < r.base ∨ r.base + r.len ≤ w := by
  rcases kept_cases hS hw with hw | ⟨x, hx, h₁, h₂, -⟩
  · simp only [Span.Apart] at hcal
    omega
  · have h := hap x hx
    simp only [Span.Apart, mchunkSpan] at h
    omega

theorem kept_off_chunk (hy : y ∈ V.mchunks) (hc : c ∈ chunksOf y)
    (hnot : c ∉ V.lists .chunks y.2) (hw : Kept cal V w) : w < c ∨ c + 2 ^ y.2 ≤ w := by
  have ho := (hS.mchunk y hy).order
  have hstart : y.1 + 32 ≤ c := (chunk_within ho hc).1
  have hend : c + 2 ^ y.2 ≤ y.1 + getTotalPagesByOrder y.2 * pageSize := (chunk_in_region ho hc).2
  by_contra hin
  rcases kept_in hS hy hw (by omega) with hw | ⟨n, hn, hplace, hw⟩
  · omega
  · have hsize := (geometry ho).size
    have hap := chunk_apart hplace hc fun h => hnot (h ▸ hn)
    simp only [Span.Apart, chunkSpan] at hap
    omega

theorem kept_ne_used (hy : y ∈ V.mchunks) (hw : Kept cal V w) :
    w ≠ MchunkHeader.used y.1 := by
  have hfits := header_fits (hS.mchunk y hy).order
  simp only [MchunkHeader.used]
  intro heq
  rcases kept_in hS hy hw (by omega) with hw | ⟨n, -, hplace, hw⟩
  · exact hw.2 heq
  · have hstart : y.1 + 32 ≤ n := (chunk_within (hS.mchunk y hy).order hplace).1
    omega

theorem used_apart (hx : x ∈ V.mchunks) :
    (MchunkHeader.used x.1 < cal ∨ cal + sizeofCal ≤ MchunkHeader.used x.1) ∧
      (∀ y ∈ V.mchunks, ∀ c ∈ chunksOf y,
        MchunkHeader.used x.1 < c ∨ c + 2 ^ y.2 ≤ MchunkHeader.used x.1) ∧
      ∀ y ∈ V.mchunks, x ≠ y → MchunkHeader.used x.1 ≠ MchunkHeader.used y.1 := by
  have hfits := header_fits (hS.mchunk x hx).order
  have hcal := (hS.mchunk x hx).apart_cal
  simp only [MchunkHeader.used]
  refine ⟨by omega, fun y hy c hc => ?_, fun y hy hxy => ?_⟩
  · have hstart : y.1 + 32 ≤ c := (chunk_within (hS.mchunk y hy).order hc).1
    have hend : c + 2 ^ y.2 ≤ y.1 + getTotalPagesByOrder y.2 * pageSize :=
      (chunk_in_region (hS.mchunk y hy).order hc).2
    by_cases hxy : x = y
    · subst hxy
      omega
    · have hap := hS.apart hx hy hxy
      omega
  · have hfits' := header_fits (hS.mchunk y hy).order
    have hap := hS.apart hx hy hxy
    omega

theorem used_off (ho : IsOrder o) (hx : x ∈ V.mchunks)
    (hn : n ∈ Zone cal V k o) : MchunkHeader.used x.1 ≠ n ∧ MchunkHeader.used x.1 ≠ n + 4 := by
  refine header_off hS ho hx ?_ ?_ ?_ ?_ hn
  all_goals
    simp only [MchunkHeader.used, MchunkHeader.node, sizeofMchunkHeader]
    omega

end

/-! ## Taking a chunk -/

theorem Pool.take_view (hsize : size < calChunkThresholdSize)
    (hfree : P.free (getOrderBySize size) = c :: xs) :
    (P.take c size).view = (P.view.setList .chunks (getOrderBySize size) xs).setUsed
      (getOrderBySize size) ((P.taken (getOrderBySize size)).length + 1) := by
  refine View.ext rfl ?_ rfl ?_
  · funext k o
    cases k with
    | chunks =>
      simp [Pool.view, Pool.take, View.setUsed, View.setList, update_apply, hfree]
    | mchunks => simp [Pool.view, Pool.take, View.setUsed, View.setList]
  · funext o
    show ((P.take c size).taken o).length = update P.view.used _ _ o
    rw [Pool.taken_take hsize, update_apply]
    split <;> simp_all [Pool.view]

theorem Pool.Wf.length_taken_le (hP : P.Wf cal) (o : Nat) :
    (P.free o).length + (P.taken o).length = (P.chunks o).length := by
  rw [← List.length_append]
  exact (hP.parts o).length_eq

theorem Represents.head_eq (hR : Represents cal m P) (ho : IsOrder o) (hfree : P.free o = c :: xs) :
    m (ChunkList.head (listAt cal o)) = c := by
  have hlist : P.view.lists .chunks o = c :: xs := hfree
  have hring := hR.ring .chunks o ho
  rw [hlist] at hring
  exact hring.next_head_cons

/-- The end of `chunk_cache_get` is `Pool.take`, and zeroes the chunk. -/
theorem takeChunk_refines (hP : P.Wf cal) (hR : Represents cal m P) (hpos : 0 < size)
    (hsize : size < calChunkThresholdSize) (hfree : P.free (getOrderBySize size) = c :: xs)
    {r : Nat × Mem}
    (hr : r = takeChunk m (listAt cal (getOrderBySize size)) (getOrderBySize size)) :
    r.1 = c ∧ Represents cal r.2 (P.take c size) ∧
      ∀ w, c ≤ w → w < c + 2 ^ getOrderBySize size → r.2 w = 0 := by
  have hview := Pool.take_view hsize hfree
  have ho := (getOrderBySize_spec hpos hsize).1
  generalize getOrderBySize size = o at *
  have hS := hP.sited
  have hnodup := (List.nodup_append.mp (hP.nodup o)).1
  rw [hfree] at hnodup
  have hchunk := hR.head_eq ho hfree
  have hfirst : c ∈ P.free o := hfree ▸ List.mem_cons_self
  obtain ⟨y, hy, rfl, hcy⟩ := hS.nodes .chunks o c hfirst
  -- the list without the chunk, then the counter
  have hL₁ : Layout cal (listDel m c) (P.view.setList .chunks y.2 xs) := hR.listDel hS ho hfree
  have hS₁ : Sited cal (P.view.setList .chunks y.2 xs) :=
    hS.setList fun n hn => hS.nodes .chunks y.2 n
      (show n ∈ P.free y.2 from hfree ▸ List.mem_cons_of_mem _ hn)
  have hused : listDel m c (ChunkList.used (listAt cal y.2)) = (P.taken y.2).length :=
    hL₁.used y.2 ho
  have hroom : (P.taken y.2).length + 1 < Unsigned.range := by
    have hlen := hP.length_taken_le y.2
    have hlt := hP.length_chunks_lt y.2
    rw [hfree, List.length_cons] at hlen
    omega
  have hL₂ := hL₁.setUsed (v := (P.taken y.2).length + 1) hS₁ ho
  subst hr
  simp only [takeChunk, hchunk, hused, Unsigned.incr_of_lt hroom]
  refine ⟨trivial, ?_, fun w h₁ h₂ => fill_mem _ _ h₁ h₂⟩
  -- the chunk is no longer on the list, so its words are not kept
  unfold Represents
  rw [hview]
  refine hL₂.congr fun w hw => fill_off _ _ (kept_off_chunk hS₁.setUsed hy hcy ?_ hw)
  simpa [View.setUsed, View.setList] using (List.nodup_cons.mp hnodup).1

theorem takeChunk_used (hP : P.Wf cal) (hR : Represents cal m P) (ho : IsOrder o)
    (hfree : P.free o = c :: xs) (hx : x ∈ P.mchunks) :
    (takeChunk m (listAt cal o) o).2 (MchunkHeader.used x.1) = m (MchunkHeader.used x.1) := by
  have hS := hP.sited
  have hlist : P.view.lists .chunks o = c :: xs := hfree
  obtain ⟨y, hy, rfl, hcy⟩ := hS.nodes .chunks o c (hlist ▸ List.mem_cons_self)
  obtain ⟨hcal, hchunks, -⟩ := used_apart hS hx
  have hin : cal ≤ ChunkList.used (listAt cal y.2) ∧ _ := counterWord_in ⟨_, ho, Or.inr rfl⟩
  simp only [takeChunk, hR.head_eq ho hfree]
  rw [fill_off _ _ (hchunks y hy c hcy), store_ne _ _ (by omega)]
  exact hR.listDel_off hS ho hlist fun n hn => used_off hS ho hx hn

/-! ## A new mchunk -/

theorem Layout.addMchunk (hL : Layout cal m V) (hx : Header cal m x) :
    Layout cal m (V.addMchunk x) where
  ring := hL.ring
  header := by
    intro y hy
    rcases List.mem_append.mp hy with hy | hy
    · exact hL.header y hy
    · rw [List.mem_singleton.mp hy]
      exact hx
  total := hL.total
  used := hL.used

/-- The stores of `chunk_cache_get` to the counter of the list and to the new header. -/
def markMchunk (m : Mem) (cal o h t : Nat) : Mem :=
  store (store (store (store m (ChunkList.total (listAt cal o)) t)
    (MchunkHeader.chunkCache h) cal) (MchunkHeader.notChunkCache h) (complement cal))
    (MchunkHeader.used h) 0

theorem markMchunk_off (hw : w ≠ ChunkList.total (listAt cal o))
    (hh : w < h ∨ h + sizeofMchunkHeader ≤ w ∨ (w ≠ h ∧ w ≠ h + 16 ∧ w ≠ h + 24)) :
    markMchunk m cal o h t w = m w := by
  simp only [sizeofMchunkHeader] at hh
  simp only [markMchunk, MchunkHeader.used, MchunkHeader.notChunkCache, MchunkHeader.chunkCache]
  simp (disch := omega) only [store_ne]

theorem markMchunk_layout {m₁ : Mem} (hS : Sited cal V) (hL : Layout cal m₁ V)
    (hx : MchunkOk cal (b, o)) (hap : ∀ y ∈ V.mchunks, (mchunkSpan (b, o)).Apart (mchunkSpan y))
    (hsplit : Split m m₁ (b, o)) :
    Layout cal (markMchunk m₁ cal o b t) ((V.setTotal o t).addMchunk (b, o)) := by
  have hfits := header_fits (o := o) hx.order
  have hL₂ := hL.setTotal (v := t) hS hx.order
  -- the allocator's own words are not in the new region
  have hcal : b + getTotalPagesByOrder o * pageSize ≤ cal ∨ cal + sizeofCal ≤ b := hx.apart_cal
  have htotal : cal ≤ ChunkList.total (listAt cal o) ∧ _ := counterWord_in ⟨_, hx.order, Or.inl rfl⟩
  have hmarked : ∀ w, b ≤ w → w < b + 32 → w ≠ b → w ≠ b + 16 → w ≠ b + 24 →
      markMchunk m₁ cal o b t w = m₁ w :=
    fun w _ _ _ _ _ => markMchunk_off (by omega) (by omega)
  refine Layout.addMchunk ?_ ⟨?_, ?_, (hmarked _ ?_ ?_ ?_ ?_ ?_).trans hsplit.order,
    (hmarked _ ?_ ?_ ?_ ?_ ?_).trans hsplit.pages,
    (hmarked _ ?_ ?_ ?_ ?_ ?_).trans hsplit.firstChunk⟩
  · refine hL₂.congr fun w hw => ?_
    have hoff := kept_off_region hS.setTotal hx.cal hap hw
    simp only [mchunkSpan] at hoff
    simp only [markMchunk, MchunkHeader.used, MchunkHeader.notChunkCache, MchunkHeader.chunkCache]
    simp (disch := omega) only [store_ne]
  · simp [markMchunk, store, MchunkHeader.used, MchunkHeader.notChunkCache,
      MchunkHeader.chunkCache]
  · simp [markMchunk, store, MchunkHeader.used, MchunkHeader.notChunkCache]
  all_goals
    simp only [MchunkHeader.order, MchunkHeader.pages, MchunkHeader.firstChunk]
    omega

theorem Pool.grow_view (hfree : P.free o = []) :
    (P.grow b o).view =
      ((((P.view.setTotal o ((P.chunks o).length + (chunksOf (b, o)).length)).addMchunk
        (b, o)).setList .chunks o (chunksOf (b, o)))).setList .mchunks o
          (P.view.lists .mchunks o ++ [MchunkHeader.node b]) := by
  refine View.ext rfl ?_ ?_ rfl
  · funext k o'
    cases k with
    | chunks =>
      by_cases h : o' = o <;>
        simp [Pool.view, Pool.grow, View.setTotal, View.addMchunk, View.setList, h, hfree]
    | mchunks =>
      by_cases h : o' = o
      · subst h
        simp [Pool.view, Pool.grow, View.setTotal, View.addMchunk, View.setList]
      · simp [Pool.view, Pool.grow, View.setTotal, View.addMchunk, View.setList, h, Ne.symm h]
  · funext o'
    show ((P.grow b o).chunks o').length = update P.view.total _ _ o'
    rw [Pool.chunks_grow, update_apply]
    by_cases h : o' = o
    · subst h
      simp
    · simp [h, Ne.symm h, Pool.view]

theorem hookMchunk_eq {f : Nat}
    (hsum : (m (ChunkList.total (listAt cal o)) + m (MchunkHeader.used b)) % Unsigned.range = t)
    (hfirst : markMchunk m cal o b t (MchunkHeader.firstChunk b) = f) :
    hookMchunk m cal (listAt cal o) b =
      listInsertTail (listInsertList (markMchunk m cal o b t) f (anchor cal .chunks o))
        (MchunkHeader.node b) (anchor cal .mchunks o) := by
  rw [← hfirst]
  simp only [hookMchunk, hsum]
  rfl

theorem MchunkOk.off_cal (hx : MchunkOk cal x) (ho : IsOrder o) (h₁ : x.1 ≤ n)
    (h₂ : n < x.1 + getTotalPagesByOrder x.2 * pageSize) :
    n ≠ anchor cal k o ∧ n ≠ ChunkList.total (listAt cal o) := by
  have hin : cal + 4 ≤ anchor cal k o ∧ _ := anchor_in ho
  have htotal : cal ≤ ChunkList.total (listAt cal o) ∧ _ := counterWord_in ⟨_, ho, Or.inl rfl⟩
  have hcal := hx.apart_cal
  omega

theorem chunk_range (ho : IsOrder x.2) (hn : n ∈ chunksOf x) :
    x.1 + 32 ≤ n ∧ n + 8 ≤ x.1 + getTotalPagesByOrder x.2 * pageSize :=
  ⟨(chunk_within ho hn).1, (place_in (k := .chunks) ho hn).1⟩

theorem markMchunk_ring {m₁ : Mem} (hx : MchunkOk cal (b, o)) (hsplit : Split m m₁ (b, o)) :
    IsRing (links (markMchunk m₁ cal o b t)) (b + firstOffset o) (chunksOf (b, o)).tail := by
  refine ring_congr ?_ hsplit.ring
  intro n hn
  rw [← chunksOf_cons hx.order] at hn
  obtain ⟨h₁, h₂⟩ := chunk_range hx.order hn
  have hhead : sizeofMchunkHeader = 32 := rfl
  have hoff := hx.off_cal (k := .chunks) (n := n) hx.order (by omega) (by omega)
  have hoff' := hx.off_cal (k := .chunks) (n := n + 4) hx.order (by omega) (by omega)
  exact ⟨markMchunk_off hoff.2 (by omega), markMchunk_off hoff'.2 (by omega)⟩

section Link

variable (hS : Sited cal V) (hL : Layout cal m V) (hx : x ∈ V.mchunks)
  (hring : IsRing (links m) (x.1 + firstOffset x.2) (chunksOf x).tail)
  (hfree : V.lists .chunks x.2 = [])
include hS hL hx hring hfree

theorem spliceMchunk_layout :
    Layout cal (listInsertList m (x.1 + firstOffset x.2) (anchor cal .chunks x.2))
      (V.setList .chunks x.2 (chunksOf x)) := by
  have hok := hS.mchunk x hx
  have hcons := chunksOf_cons hok.order
  have hL₁ := hL.listInsertList (k := .chunks) hS hok.order hring ?_ ?_
  · rwa [← hcons, hfree, List.append_nil] at hL₁
  · intro n hn
    rw [← hcons] at hn
    exact Or.inr ⟨x, hx, rfl, hn⟩
  · intro n hn hn'
    rw [← hcons] at hn
    rw [hfree, List.mem_singleton] at hn'
    obtain ⟨h₁, h₂⟩ := chunk_range hok.order hn
    exact (hok.off_cal hok.order (by omega) (by omega)).1 hn'

theorem linkMchunk_layout (hnode : MchunkHeader.node x.1 ∉ V.lists .mchunks x.2) :
    Layout cal
      (listInsertTail (listInsertList m (x.1 + firstOffset x.2) (anchor cal .chunks x.2))
        (MchunkHeader.node x.1) (anchor cal .mchunks x.2))
      ((V.setList .chunks x.2 (chunksOf x)).setList .mchunks x.2
        (V.lists .mchunks x.2 ++ [MchunkHeader.node x.1])) := by
  have hok := hS.mchunk x hx
  have hL₁ := spliceMchunk_layout hS hL hx hring hfree
  have hS₁ : Sited cal (V.setList .chunks x.2 (chunksOf x)) :=
    hS.setList fun n hn => ⟨x, hx, rfl, hn⟩
  have hsame : (V.setList .chunks x.2 (chunksOf x)).lists .mchunks x.2 =
      V.lists .mchunks x.2 := by
    simp [View.setList]
  have hL₂ := hL₁.listInsertTail (k := .mchunks) (e := MchunkHeader.node x.1) hS₁ hok.order ?_ ?_
  · rwa [hsame] at hL₂
  · exact Or.inr ⟨x, hx, rfl, List.mem_singleton_self _⟩
  · rw [hsame, List.mem_cons, not_or]
    have hfits := header_fits hok.order
    refine ⟨(hok.off_cal hok.order ?_ ?_).1, hnode⟩ <;>
      simp only [MchunkHeader.node] <;> omega

theorem linkMchunk_off (hw : ∀ k, ∀ n ∈ Zone cal V k x.2, w ≠ n ∧ w ≠ n + 4) :
    listInsertTail (listInsertList m (x.1 + firstOffset x.2) (anchor cal .chunks x.2))
      (MchunkHeader.node x.1) (anchor cal .mchunks x.2) w = m w := by
  have ho := (hS.mchunk x hx).order
  have hL₁ := spliceMchunk_layout hS hL hx hring hfree
  have hS₁ : Sited cal (V.setList .chunks x.2 (chunksOf x)) :=
    hS.setList fun n hn => ⟨x, hx, rfl, hn⟩
  have hnode : MchunkHeader.node x.1 ∈ Zone cal (V.setList .chunks x.2 (chunksOf x)) .mchunks x.2 :=
    Or.inr ⟨x, hx, rfl, List.mem_singleton_self _⟩
  rw [hL₁.listInsertTail_off hS₁ ho hnode (hw .mchunks)]
  refine hL.listInsertList_off hS ho hring ?_ (hw .chunks)
  intro n hn
  rw [← chunksOf_cons ho] at hn
  exact Or.inr ⟨x, hx, rfl, hn⟩

end Link

theorem Pool.mem_grow : (b, o) ∈ (P.grow b o).mchunks :=
  List.mem_append_right _ (List.mem_singleton_self _)

/-- The new mchunk is one the allocator can use, and it is apart from the others. -/
theorem Pool.Wf.grown (hP' : (P.grow b o).Wf cal) :
    MchunkOk cal (b, o) ∧ ∀ y ∈ P.mchunks, (mchunkSpan (b, o)).Apart (mchunkSpan y) := by
  refine ⟨hP'.mchunk _ Pool.mem_grow, fun y hy => ?_⟩
  exact ((List.pairwise_append.mp hP'.regions).2.2 y hy _ (List.mem_singleton_self _)).symm

section

variable {m₁ : Mem} (hP : P.Wf cal) (hP' : (P.grow b o).Wf cal) (hR : Represents cal m P)
  (hsplit : Split m m₁ (b, o))
include hP hP' hR hsplit

theorem hookMchunk_linked (ht : t = (P.chunks o).length + (chunksOf (b, o)).length) :
    hookMchunk m₁ cal (listAt cal o) b =
        listInsertTail
          (listInsertList (markMchunk m₁ cal o b t) (b + firstOffset o) (anchor cal .chunks o))
          (MchunkHeader.node b) (anchor cal .mchunks o) ∧
      Layout cal (markMchunk m₁ cal o b t) ((P.view.setTotal o t).addMchunk (b, o)) ∧
      Sited cal ((P.view.setTotal o t).addMchunk (b, o)) := by
  obtain ⟨hx, hap⟩ := hP'.grown
  have hL₁ : Layout cal m₁ P.view := by
    refine hR.congr ?_
    intro w hw
    exact hsplit.frame w (kept_off_region hP.sited hx.cal hap hw)
  -- the counter stays in its range
  have hsum : (m₁ (ChunkList.total (listAt cal o)) + m₁ (MchunkHeader.used b)) % Unsigned.range =
      t := by
    have hlt := hP'.length_chunks_lt o
    rw [Pool.chunks_grow, if_pos rfl, List.length_append, ← ht] at hlt
    have htotal : m₁ (ChunkList.total (listAt cal o)) = (P.chunks o).length :=
      hL₁.total o hx.order
    have hused : m₁ (MchunkHeader.used b) = (chunksOf (b, o)).length :=
      hsplit.used.trans List.length_range'.symm
    rw [htotal, hused, ← ht]
    exact Nat.mod_eq_of_lt hlt
  have hL₂ := markMchunk_layout (t := t) hP.sited hL₁ hx hap hsplit
  refine ⟨hookMchunk_eq hsum (hL₂.header (b, o) Pool.mem_grow).firstChunk, hL₂, hP'.mchunk,
    fun x hx y hy hne => hP'.regions_apart hx hy hne, ?_⟩
  intro k o' n hn
  obtain ⟨x, hx, hplace⟩ := hP.sited.nodes k o' n hn
  exact ⟨x, List.mem_append_left _ hx, hplace⟩

/-- The slow path of `chunk_cache_get` is `Pool.grow`. -/
theorem hookMchunk_refines (hfree : P.free o = []) :
    Represents cal (hookMchunk m₁ cal (listAt cal o) b) (P.grow b o) := by
  obtain ⟨hx, hap⟩ := hP'.grown
  have hnode : MchunkHeader.node b ∉ P.view.lists .mchunks o := by
    intro hn
    obtain ⟨y, hy, heq⟩ := List.mem_map.mp hn
    have hy' := (List.mem_filter.mp hy).1
    have hfits := header_fits (o := o) hx.order
    have hfits' := header_fits (hP.mchunk y hy').order
    have hne := hap y hy'
    simp only [MchunkHeader.node] at heq
    simp only [Span.Apart, mchunkSpan] at hne
    omega
  obtain ⟨t, ht⟩ : ∃ t, t = (P.chunks o).length + (chunksOf (b, o)).length := ⟨_, rfl⟩
  obtain ⟨heq, hL, hS⟩ := hookMchunk_linked hP hP' hR hsplit ht
  have hview : (P.grow b o).view = _ := Pool.grow_view hfree
  rw [← ht] at hview
  unfold Represents
  rw [hview, heq]
  exact linkMchunk_layout (x := (b, o)) hS hL Pool.mem_grow (markMchunk_ring hx hsplit) hfree hnode

theorem hookMchunk_used (hfree : P.free o = []) :
    hookMchunk m₁ cal (listAt cal o) b (MchunkHeader.used b) = 0 ∧
      ∀ x ∈ P.mchunks, hookMchunk m₁ cal (listAt cal o) b (MchunkHeader.used x.1) =
        m (MchunkHeader.used x.1) := by
  obtain ⟨hx, hap⟩ := hP'.grown
  obtain ⟨t, ht⟩ : ∃ t, t = (P.chunks o).length + (chunksOf (b, o)).length := ⟨_, rfl⟩
  obtain ⟨heq, hL, hS⟩ := hookMchunk_linked hP hP' hR hsplit ht
  have hmarked : ∀ x ∈ (P.grow b o).mchunks,
      hookMchunk m₁ cal (listAt cal o) b (MchunkHeader.used x.1) =
        markMchunk m₁ cal o b t (MchunkHeader.used x.1) := by
    intro x hmem
    rw [heq]
    exact linkMchunk_off (x := (b, o)) hS hL Pool.mem_grow (markMchunk_ring hx hsplit) hfree
      fun k n hn => used_off hS hx.order hmem hn
  refine ⟨?_, ?_⟩
  · rw [hmarked (b, o) Pool.mem_grow]
    simp [markMchunk]
  · intro x hmem
    have hap := hap x hmem
    have hfits := header_fits (hP.mchunk x hmem).order
    have hfits' := header_fits (o := o) hx.order
    have htotal := ((hP.mchunk x hmem).off_cal (k := .chunks) (n := MchunkHeader.used x.1) hx.order
      (by simp only [MchunkHeader.used]; omega) (by simp only [MchunkHeader.used]; omega)).2
    simp only [Span.Apart, mchunkSpan] at hap
    rw [hmarked x (List.mem_append_left _ hmem), markMchunk_off htotal
      (by simp only [MchunkHeader.used, sizeofMchunkHeader]; omega)]
    refine hsplit.frame _ ?_
    simp only [MchunkHeader.used]
    omega

end

/-! ## The walk back to the header -/

theorem pageBelow_succ (b j : Nat) : pageBelow (b + (j + 1) * pageSize) = b + j * pageSize := by
  simp only [pageBelow, Nat.succ_mul]
  rw [if_neg (by omega)]
  omega

theorem walkBack_eq {order pages j : Nat} (hfound : isHeader m order b = true)
    (hnot : ∀ k, 0 < k → k ≤ j → isHeader m order (b + k * pageSize) = false) (hj : j < pages) :
    walkBack m order pages (b + j * pageSize) = some b := by
  induction j generalizing pages with
  | zero =>
    obtain ⟨p, rfl⟩ : ∃ p, pages = p + 1 := ⟨pages - 1, by omega⟩
    simp [walkBack, hfound]
  | succ j ih =>
    obtain ⟨p, rfl⟩ : ∃ p, pages = p + 1 := ⟨pages - 1, by omega⟩
    have hnext : walkBack m order p (b + j * pageSize) = some b :=
      ih (fun k h₁ h₂ => hnot k h₁ (by omega)) (by omega)
    simp only [walkBack, hnot (j + 1) (by omega) le_rfl, Bool.false_eq_true, if_false,
      pageBelow_succ]
    exact hnext

theorem isHeader_of_words (hcache : m (MchunkHeader.chunkCache b) = cal)
    (hnot : m (MchunkHeader.notChunkCache b) = complement cal)
    (horder : m (MchunkHeader.order b) = o)
    (hpos : 0 < cal) (hlt : cal < Unsigned.range) : isHeader m o b = true := by
  have hcomp : complement (complement cal) = cal := by
    simp only [complement]
    omega
  simp only [isHeader, hcache, hnot, horder, hcomp]
  simp
  omega

theorem Header.isHeader (hh : Header cal m x) (hpos : 0 < cal) (hlt : cal < Unsigned.range) :
    isHeader m x.2 x.1 = true :=
  isHeader_of_words hh.chunkCache hh.notChunkCache hh.order hpos hlt

theorem chunk_page (hx : MchunkOk cal x) (hc : c ∈ chunksOf x) :
    ∃ j < getTotalPagesByOrder x.2, c - c % pageSize = x.1 + j * pageSize := by
  obtain ⟨h₁, h₂⟩ := chunk_range hx.order hc
  have haligned := hx.aligned
  simp only [pageSize] at h₂ haligned
  refine ⟨(c - x.1) / pageSize, ?_, ?_⟩ <;> simp only [pageSize] <;> omega

/-- The walk back from a chunk ends at its mchunk. -/
theorem getMchunkHeaderByChunk_spec (hx : MchunkOk cal x) (hfound : isHeader m x.2 x.1 = true)
    (hc : c ∈ chunksOf x)
    (hno : ∀ k < getTotalPagesByOrder x.2, 0 < k → isHeader m x.2 (x.1 + k * pageSize) = false) :
    getMchunkHeaderByChunk m c x.2 = some x.1 := by
  obtain ⟨j, hj, hpage⟩ := chunk_page hx hc
  rw [getMchunkHeaderByChunk, hpage]
  exact walkBack_eq hfound (fun k h₃ h₄ => hno k (by omega) h₃) hj

/-! ## Putting a chunk back -/

theorem Pool.length_taken_give (hx : (c, size) ∈ P.outstanding)
    (hsize : size < calChunkThresholdSize) :
    (P.taken o).length = ((P.give c size).taken o).length +
      if o = getOrderBySize size then 1 else 0 := by
  have hlen := (Pool.taken_erase o hx).length_eq
  rw [List.length_append] at hlen
  have hsame : ((P.give c size).taken o).length =
      ((P.outstanding.erase (c, size)).filterMap (Pool.takenPtr o)).length := rfl
  split
  case isTrue ho =>
    rw [ho, Pool.takenPtr_self hsize] at hlen
    exact ho ▸ hlen.trans (Nat.add_comm _ _)
  case isFalse ho =>
    rw [Pool.takenPtr_ne ho] at hlen
    exact hlen.trans (Nat.add_comm _ _)

theorem Pool.give_view (hx : (c, size) ∈ P.outstanding) (hsize : size < calChunkThresholdSize) :
    (P.give c size).view = (P.view.setUsed (getOrderBySize size)
      ((P.taken (getOrderBySize size)).length - 1)).setList .chunks (getOrderBySize size)
        (c :: P.free (getOrderBySize size)) := by
  refine View.ext rfl ?_ rfl ?_
  · funext k o
    cases k with
    | chunks => simp [Pool.view, Pool.give, View.setUsed, View.setList, update_apply]
    | mchunks => simp [Pool.view, Pool.give, View.setUsed, View.setList]
  · funext o
    have hlen := Pool.length_taken_give (o := o) hx hsize
    show ((P.give c size).taken o).length = update P.view.used _ _ o
    rw [update_apply]
    split
    case isTrue ho =>
      rw [if_pos ho] at hlen
      subst ho
      omega
    case isFalse ho =>
      rw [if_neg ho] at hlen
      exact hlen.symm

/-- `chunk_cache_put` is `Pool.give`. -/
theorem chunkCachePut_refines {s : State} (hP : P.Wf cal) (hR : Represents cal s.mem P)
    (hx : (c, size) ∈ P.outstanding) (hsize : size < calChunkThresholdSize)
    (hlookup : ∀ x ∈ P.mchunks, x.2 = getOrderBySize size → c ∈ chunksOf x →
      getMchunkHeaderByChunk s.mem c (getOrderBySize size) = some x.1) :
    ∃ m, s.chunkCachePut c size = { s with mem := m } ∧ Represents cal m (P.give c size) ∧
      ∀ x ∈ P.mchunks, m (MchunkHeader.used x.1) =
        if c ∈ chunksOf x then Unsigned.decr (s.mem (MchunkHeader.used x.1))
        else s.mem (MchunkHeader.used x.1) := by
  obtain ⟨htaken, hchunk⟩ := hP.small_chunk hx hsize
  have ho := (getOrderBySize_spec (hP.sizes _ hx) hsize).1
  have hview := Pool.give_view hx hsize
  simp only at htaken hchunk
  simp only [State.chunkCachePut]
  generalize getOrderBySize size = o at *
  obtain ⟨y, hy, rfl, hcy⟩ := Pool.mem_chunks.mp hchunk
  have hok := hP.mchunk y hy
  have hS := hP.sited
  have hfound := hlookup y hy rfl hcy
  have hcache : s.mem (MchunkHeader.chunkCache y.1) = cal := (hR.header y hy).chunkCache
  have hnot : c ∉ P.free y.2 := by
    intro hfree
    exact (List.nodup_append.mp (hP.nodup y.2)).2.2 c hfree c htaken rfl
  obtain ⟨hstart, hend⟩ := chunk_range hok.order hcy
  -- the node of the chunk and the field of the header are not kept
  have hL₁ : Layout cal (lnodeInit s.mem c) P.view := by
    refine hR.congr ?_
    intro w hw
    have hoff := kept_off_chunk hS hy hcy hnot hw
    have hsize := (geometry hok.order).size
    simp (disch := omega) only [lnodeInit, store_ne]
  generalize hm₁ : lnodeInit s.mem c = m₁ at *
  obtain ⟨v, hv⟩ : ∃ v, v = Unsigned.decr (m₁ (MchunkHeader.used y.1)) := ⟨_, rfl⟩
  have hL₂ : Layout cal (store m₁ (MchunkHeader.used y.1) v) P.view := by
    refine hL₁.congr ?_
    intro w hw
    exact store_ne _ _ (kept_ne_used hS hy hw)
  have hused : store m₁ (MchunkHeader.used y.1) v (ChunkList.used (listAt cal y.2)) =
      (P.taken y.2).length := hL₂.used y.2 ho
  have hone : 1 ≤ (P.taken y.2).length := List.length_pos_of_mem htaken
  have hL₃ := hL₂.setUsed (v := (P.taken y.2).length - 1) hS ho
  have hL₄ := hL₃.listInsert (k := .chunks) hS.setUsed ho
    (Or.inr ⟨y, hy, rfl, hcy⟩) ?_
  · refine ⟨_, ?_, hview ▸ hL₄, ?_⟩
    · simp only [hfound, hcache, ← hv]
      rw [← Unsigned.decr_of_pos hone, ← hused]
      rfl
    · intro x hx
      obtain ⟨hcal, hchunks, hne⟩ := used_apart hS hx
      have hin : cal ≤ ChunkList.used (listAt cal y.2) ∧ _ := counterWord_in ⟨_, ho, Or.inr rfl⟩
      have hoff := hchunks y hy c hcy
      have hsize := (geometry hok.order).size
      have hsame : m₁ (MchunkHeader.used x.1) = s.mem (MchunkHeader.used x.1) := by
        rw [← hm₁]
        simp (disch := omega) only [lnodeInit, store_ne]
      rw [hL₃.listInsert_off hS.setUsed ho (Or.inr ⟨y, hy, rfl, hcy⟩) fun n hn =>
        used_off hS.setUsed ho hx hn, store_ne _ _ (by omega)]
      by_cases hxy : x = y
      · subst hxy
        rw [store_self, if_pos hcy, hv, hsame]
      · rw [store_ne _ _ (hne y hy hxy), if_neg, hsame]
        intro hcx
        exact hxy (hP.chunk_unique hx hy hcx hcy)
  · rw [List.mem_cons, not_or]
    exact ⟨(hok.off_cal ho (by omega) (by omega)).1, hnot⟩

end Ngpt.Alloc
