import Ngpt.Alloc.Pool

/-!
# ngpt — the allocator's structures in memory

`Layout cal m V` says that the memory `m` holds what the view `V` lists: the free list and
the mchunk list of every order, the header of every mchunk and the two counters of every
list. All of them share one memory with the data of the clients, so each edit has to be
shown not to touch the rest. The nodes of a list stay in the list's own `Zone`, and zones
do not overlap (`zones_spaced`).

* `Layout.listDel`, `Layout.listInsert`, `Layout.listInsertTail`, `Layout.listInsertList` —
  the operations of `list.h` on one of the lists, each with the words it leaves alone (`_off`).
-/

namespace Ngpt.Alloc

open WordMemory LinkedRing

/-- Every `struct chunk_list_st` has the head of a free list and of a list of mchunks. -/
inductive ListKind where
  | chunks
  | mchunks
  deriving DecidableEq

def listAt (cal o : Nat) : Nat := chunkList cal (getIndexByOrder o)

def anchor (cal : Nat) : ListKind → Nat → Nat
  | .chunks, o => ChunkList.head (listAt cal o)
  | .mchunks, o => ChunkList.mchunkHead (listAt cal o)

/-- The list nodes in an mchunk. -/
def places : ListKind → Nat × Nat → List Nat
  | .chunks, x => chunksOf x
  | .mchunks, x => [MchunkHeader.node x.1]

/-- What the allocator keeps in memory. -/
@[ext]
structure View where
  mchunks : List (Nat × Nat)
  lists   : ListKind → Nat → List Nat
  total   : Nat → Nat
  used    : Nat → Nat

def View.setList (V : View) (k : ListKind) (o : Nat) (xs : List Nat) : View :=
  { V with lists := fun k' o' => if k' = k ∧ o' = o then xs else V.lists k' o' }

def View.setTotal (V : View) (o v : Nat) : View :=
  { V with total := Function.update V.total o v }

def View.setUsed (V : View) (o v : Nat) : View := { V with used := Function.update V.used o v }

def View.addMchunk (V : View) (x : Nat × Nat) : View := { V with mchunks := V.mchunks ++ [x] }

/-- The fields of an mchunk's header that do not change. -/
structure Header (cal : Nat) (m : Mem) (x : Nat × Nat) : Prop where
  chunkCache    : m (MchunkHeader.chunkCache x.1) = cal
  notChunkCache : m (MchunkHeader.notChunkCache x.1) = complement cal
  order         : m (MchunkHeader.order x.1) = x.2
  pages         : m (MchunkHeader.pages x.1) = getTotalPagesByOrder x.2
  firstChunk    : m (MchunkHeader.firstChunk x.1) = x.1 + firstOffset x.2

structure Layout (cal : Nat) (m : Mem) (V : View) : Prop where
  ring   : ∀ k o, IsOrder o → IsRing (links m) (anchor cal k o) (V.lists k o)
  header : ∀ x ∈ V.mchunks, Header cal m x
  total  : ∀ o, IsOrder o → m (ChunkList.total (listAt cal o)) = V.total o
  used   : ∀ o, IsOrder o → m (ChunkList.used (listAt cal o)) = V.used o

/-- The mchunks are apart and the nodes of every list are in mchunks of its order. -/
structure Sited (cal : Nat) (V : View) : Prop where
  mchunk  : ∀ x ∈ V.mchunks, MchunkOk cal x
  regions : ∀ x ∈ V.mchunks, ∀ y ∈ V.mchunks, x ≠ y → (mchunkSpan x).Apart (mchunkSpan y)
  nodes   : ∀ k o, ∀ n ∈ V.lists k o, ∃ x ∈ V.mchunks, x.2 = o ∧ n ∈ places k x

/-- Where the nodes of a list can be. -/
def Zone (cal : Nat) (V : View) (k : ListKind) (o : Nat) : Set Nat :=
  {n | n = anchor cal k o ∨ ∃ x ∈ V.mchunks, x.2 = o ∧ n ∈ places k x}

variable {cal o o' n n' w v e : Nat} {k k' : ListKind} {m m' : Mem} {V : View} {x : Nat × Nat}
  {xs ys : List Nat}

/-! ## Zones -/

theorem anchor_chunks (cal o : Nat) : anchor cal .chunks o = cal + 28 * (o - 4) + 4 := rfl

theorem anchor_mchunks (cal o : Nat) : anchor cal .mchunks o = cal + 28 * (o - 4) + 12 := rfl

theorem total_eq (cal o : Nat) : ChunkList.total (listAt cal o) = cal + 28 * (o - 4) + 20 := rfl

theorem used_eq (cal o : Nat) : ChunkList.used (listAt cal o) = cal + 28 * (o - 4) + 24 := rfl

theorem isOrder_iff : IsOrder o ↔ 4 ≤ o ∧ o ≤ 11 := Iff.rfl

theorem sizeofCal_eq : sizeofCal = 224 := rfl

theorem anchor_in (ho : IsOrder o) :
    cal + 4 ≤ anchor cal k o ∧ anchor cal k o + 8 ≤ cal + sizeofCal := by
  obtain ⟨h₁, h₂⟩ := isOrder_iff.mp ho
  cases k <;> simp only [anchor_chunks, anchor_mchunks, sizeofCal_eq] <;> omega

theorem place_in (ho : IsOrder x.2) (hn : n ∈ places k x) :
    n + 8 ≤ x.1 + getTotalPagesByOrder x.2 * pageSize ∧
      ((k = .mchunks ∧ n = x.1 + 4) ∨ (k = .chunks ∧ x.1 + 32 ≤ n)) := by
  have hfits := header_fits ho
  cases k with
  | chunks =>
    have hsize := (geometry ho).size
    obtain ⟨h₁, h₂⟩ := chunk_within ho hn
    simp only [chunkSpan, dataSpan, sizeofMchunkHeader] at h₁ h₂
    exact ⟨by omega, Or.inr ⟨rfl, h₁⟩⟩
  | mchunks =>
    have hn' : n = x.1 + 4 := List.mem_singleton.mp hn
    exact ⟨by omega, Or.inl ⟨rfl, hn'⟩⟩

theorem place_spaced (ho : IsOrder x.2) (hn : n ∈ places k x) (hn' : n' ∈ places k' x) :
    (k = k' ∧ n = n') ∨ n + 8 ≤ n' ∨ n' + 8 ≤ n := by
  obtain ⟨-, h⟩ := place_in ho hn
  obtain ⟨-, h'⟩ := place_in ho hn'
  rcases h with ⟨rfl, rfl⟩ | ⟨rfl, h⟩ <;> rcases h' with ⟨rfl, rfl⟩ | ⟨rfl, h'⟩
  · exact Or.inl ⟨rfl, rfl⟩
  · exact Or.inr (by omega)
  · exact Or.inr (by omega)
  · by_cases hne : n = n'
    · exact Or.inl ⟨rfl, hne⟩
    · have hsize := (geometry ho).size
      have hap := chunk_apart hn hn' hne
      simp only [Span.Apart, chunkSpan] at hap
      exact Or.inr (by omega)

theorem Sited.apart {y : Nat × Nat} (hS : Sited cal V) (hx : x ∈ V.mchunks) (hy : y ∈ V.mchunks)
    (hne : x ≠ y) : x.1 + getTotalPagesByOrder x.2 * pageSize ≤ y.1 ∨
      y.1 + getTotalPagesByOrder y.2 * pageSize ≤ x.1 := hS.regions x hx y hy hne

theorem zones_spaced (hS : Sited cal V) (ho : IsOrder o) (ho' : IsOrder o')
    (hn : n ∈ Zone cal V k o) (hn' : n' ∈ Zone cal V k' o') :
    (k = k' ∧ o = o' ∧ n = n') ∨ n + 8 ≤ n' ∨ n' + 8 ≤ n := by
  -- a node in an mchunk is apart from the allocator
  have hfar : ∀ {a b : Nat}, cal + 4 ≤ a ∧ a + 8 ≤ cal + sizeofCal →
      (∃ x ∈ V.mchunks, ∃ k, b ∈ places k x) → a + 8 ≤ b ∨ b + 8 ≤ a := by
    intro a b ha ⟨x, hx, k, hb⟩
    obtain ⟨h₁, h₂⟩ := place_in (hS.mchunk x hx).order hb
    have hcal := (hS.mchunk x hx).apart_cal
    omega
  rcases hn with rfl | ⟨x, hx, rfl, hn⟩
  · rcases hn' with rfl | ⟨y, hy, rfl, hn'⟩
    · obtain ⟨h₁, h₂⟩ := isOrder_iff.mp ho
      obtain ⟨h₃, h₄⟩ := isOrder_iff.mp ho'
      cases k <;> cases k' <;>
        simp only [anchor_chunks, anchor_mchunks, true_and, reduceCtorEq, false_and, false_or] <;>
        omega
    · exact Or.inr (hfar (anchor_in ho) ⟨y, hy, k', hn'⟩)
  · rcases hn' with rfl | ⟨y, hy, rfl, hn'⟩
    · exact Or.inr (hfar (anchor_in ho') ⟨x, hx, k, hn⟩).symm
    · by_cases hxy : x = y
      · subst hxy
        rcases place_spaced (hS.mchunk x hx).order hn hn' with ⟨hk, hnn⟩ | h
        · exact Or.inl ⟨hk, rfl, hnn⟩
        · exact Or.inr h
      · obtain ⟨h₁, h₂⟩ := place_in (hS.mchunk x hx).order hn
        obtain ⟨h₃, h₄⟩ := place_in (hS.mchunk y hy).order hn'
        have hap := hS.apart hx hy hxy
        exact Or.inr (by omega)

theorem zone_spaced (hS : Sited cal V) (ho : IsOrder o) : Spaced (Zone cal V k o) := by
  intro a ha b hb hne
  rcases zones_spaced hS ho ho ha hb with ⟨-, -, h⟩ | h
  · exact absurd h hne
  · exact h

theorem Sited.mem_zone (hS : Sited cal V) (hn : n ∈ anchor cal k o :: V.lists k o) :
    n ∈ Zone cal V k o := by
  rcases List.mem_cons.mp hn with rfl | hn
  · exact Or.inl rfl
  · exact Or.inr (hS.nodes k o n hn)

/-! ## Words outside the lists -/

/-- A word of a header that is neither in its list node nor its `used` field. -/
def HeaderWord (x : Nat × Nat) (w : Nat) : Prop :=
  x.1 ≤ w ∧ w < x.1 + sizeofMchunkHeader ∧ w ≠ MchunkHeader.used x.1 ∧
    w ≠ MchunkHeader.node x.1 ∧ w ≠ MchunkHeader.node x.1 + 4

/-- A word of a list that holds one of its two counters. -/
def CounterWord (cal w : Nat) : Prop :=
  ∃ o, IsOrder o ∧ (w = ChunkList.total (listAt cal o) ∨ w = ChunkList.used (listAt cal o))

theorem Header.congr (hw : ∀ w, HeaderWord x w → m' w = m w) (h : Header cal m x) :
    Header cal m' x := by
  refine ⟨(hw _ ?_).trans h.chunkCache, (hw _ ?_).trans h.notChunkCache, (hw _ ?_).trans h.order,
    (hw _ ?_).trans h.pages, (hw _ ?_).trans h.firstChunk⟩
  all_goals
    simp only [HeaderWord, MchunkHeader.chunkCache, MchunkHeader.notChunkCache,
      MchunkHeader.order, MchunkHeader.pages, MchunkHeader.firstChunk, MchunkHeader.used,
      MchunkHeader.node, sizeofMchunkHeader]
    omega

theorem header_off (hS : Sited cal V) (ho : IsOrder o) (hx : x ∈ V.mchunks) (h₁ : x.1 ≤ w)
    (h₂ : w < x.1 + sizeofMchunkHeader) (h₃ : w ≠ MchunkHeader.node x.1)
    (h₄ : w ≠ MchunkHeader.node x.1 + 4) (hn : n ∈ Zone cal V k o) : w ≠ n ∧ w ≠ n + 4 := by
  simp only [sizeofMchunkHeader, MchunkHeader.node] at h₂ h₃ h₄
  have hfits := header_fits (hS.mchunk x hx).order
  rcases hn with rfl | ⟨y, hy, rfl, hn⟩
  · have hin : cal + 4 ≤ anchor cal k o ∧ _ := anchor_in ho
    have hcal := (hS.mchunk x hx).apart_cal
    omega
  · obtain ⟨hend, hkind⟩ := place_in (hS.mchunk y hy).order hn
    by_cases hxy : x = y
    · subst hxy
      omega
    · have hap := hS.apart hx hy hxy
      omega

theorem headerWord_off (hS : Sited cal V) (ho : IsOrder o) (hx : x ∈ V.mchunks)
    (hw : HeaderWord x w) (hn : n ∈ Zone cal V k o) : w ≠ n ∧ w ≠ n + 4 := by
  obtain ⟨h₁, h₂, -, h₃, h₄⟩ := hw
  exact header_off hS ho hx h₁ h₂ h₃ h₄ hn

theorem counterWord_in (hw : CounterWord cal w) : cal ≤ w ∧ w < cal + sizeofCal := by
  obtain ⟨o, ho, hw⟩ := hw
  obtain ⟨h₁, h₂⟩ := isOrder_iff.mp ho
  rw [total_eq, used_eq] at hw
  rw [sizeofCal_eq]
  omega

theorem counterWord_off (hS : Sited cal V) (ho : IsOrder o) (hw : CounterWord cal w)
    (hn : n ∈ Zone cal V k o) : w ≠ n ∧ w ≠ n + 4 := by
  have hin := counterWord_in hw
  obtain ⟨o', ho', hw⟩ := hw
  rw [total_eq, used_eq] at hw
  obtain ⟨h₁, h₂⟩ := isOrder_iff.mp ho
  obtain ⟨h₃, h₄⟩ := isOrder_iff.mp ho'
  rcases hn with rfl | ⟨y, hy, rfl, hn⟩
  · cases k <;> simp only [anchor_chunks, anchor_mchunks] <;> omega
  · obtain ⟨hend, hkind⟩ := place_in (hS.mchunk y hy).order hn
    have hcal := (hS.mchunk y hy).apart_cal
    omega

/-! ## Frame -/

/-- The words the allocator keeps: its own structure, the headers but for their `used`
fields, and the nodes of its lists. -/
def Kept (cal : Nat) (V : View) (w : Nat) : Prop :=
  (cal ≤ w ∧ w < cal + sizeofCal) ∨
  (∃ x ∈ V.mchunks, x.1 ≤ w ∧ w < x.1 + sizeofMchunkHeader ∧ w ≠ MchunkHeader.used x.1) ∨
  ∃ k o, ∃ n ∈ V.lists k o, w = n ∨ w = n + 4

/-- A change of words the allocator does not keep. -/
theorem Layout.congr (hw : ∀ w, Kept cal V w → m' w = m w) (hL : Layout cal m V) :
    Layout cal m' V where
  ring := by
    intro k o ho
    have hin : cal + 4 ≤ anchor cal k o ∧ anchor cal k o + 8 ≤ cal + sizeofCal := anchor_in ho
    refine ring_congr ?_ (hL.ring k o ho)
    intro n hn
    rcases List.mem_cons.mp hn with rfl | hn
    · exact ⟨hw _ (Or.inl (by omega)), hw _ (Or.inl (by omega))⟩
    · exact ⟨hw _ (Or.inr (Or.inr ⟨k, o, n, hn, Or.inl rfl⟩)),
        hw _ (Or.inr (Or.inr ⟨k, o, n, hn, Or.inr rfl⟩))⟩
  header := by
    intro x hx
    refine (hL.header x hx).congr ?_
    rintro w ⟨h₁, h₂, h₃, -⟩
    exact hw w (Or.inr (Or.inl ⟨x, hx, h₁, h₂, h₃⟩))
  total := by
    intro o ho
    rw [← hL.total o ho]
    exact hw _ (Or.inl (counterWord_in ⟨o, ho, Or.inl rfl⟩))
  used := by
    intro o ho
    rw [← hL.used o ho]
    exact hw _ (Or.inl (counterWord_in ⟨o, ho, Or.inr rfl⟩))

section

variable (hS : Sited cal V)
include hS

theorem Layout.relink (hL : Layout cal m V) (ho : IsOrder o)
    (hw : ∀ w, (∀ n ∈ Zone cal V k o, w ≠ n ∧ w ≠ n + 4) → m' w = m w)
    (hring : IsRing (links m') (anchor cal k o) ys) : Layout cal m' (V.setList k o ys) where
  ring := by
    intro k' o' ho'
    simp only [View.setList]
    split
    next h =>
      obtain ⟨rfl, rfl⟩ := h
      exact hring
    next h =>
      refine ring_congr ?_ (hL.ring k' o' ho')
      intro n hn
      have hoff : ∀ a ∈ Zone cal V k o, n + 8 ≤ a ∨ a + 8 ≤ n := by
        intro a ha
        rcases zones_spaced hS ho' ho (hS.mem_zone hn) ha with ⟨hk, hoo, -⟩ | h'
        · exact absurd ⟨hk, hoo⟩ h
        · exact h'
      refine ⟨hw n ?_, hw (n + 4) ?_⟩
      · intro a ha
        have := hoff a ha
        omega
      · intro a ha
        have := hoff a ha
        omega
  header := by
    intro x hx
    refine (hL.header x hx).congr ?_
    intro w hword
    exact hw w fun n hn => headerWord_off hS ho hx hword hn
  total := by
    intro o' ho'
    rw [hw _ fun n hn => counterWord_off hS ho ⟨o', ho', Or.inl rfl⟩ hn]
    exact hL.total o' ho'
  used := by
    intro o' ho'
    rw [hw _ fun n hn => counterWord_off hS ho ⟨o', ho', Or.inr rfl⟩ hn]
    exact hL.used o' ho'

/-! ## Counters -/

theorem Layout.ring_counter (hL : Layout cal m V) (hw : CounterWord cal w)
    (ho : IsOrder o) : IsRing (links (store m w v)) (anchor cal k o) (V.lists k o) := by
  refine ring_congr ?_ (hL.ring k o ho)
  intro n hn
  obtain ⟨h₁, h₂⟩ := counterWord_off hS ho hw (hS.mem_zone hn)
  exact ⟨store_ne m v h₁.symm, store_ne m v h₂.symm⟩

theorem Layout.header_counter (hL : Layout cal m V) (hw : CounterWord cal w)
    (hx : x ∈ V.mchunks) : Header cal (store m w v) x := by
  refine (hL.header x hx).congr ?_
  rintro a ⟨h₁, h₂, -⟩
  refine store_ne m v ?_
  rintro rfl
  have hin := counterWord_in hw
  have hfits := header_fits (hS.mchunk x hx).order
  have hcal := (hS.mchunk x hx).apart_cal
  simp only [sizeofMchunkHeader] at h₂
  omega

theorem Sited.setUsed : Sited cal (V.setUsed o v) :=
  ⟨hS.mchunk, hS.regions, hS.nodes⟩

theorem Sited.setTotal : Sited cal (V.setTotal o v) :=
  ⟨hS.mchunk, hS.regions, hS.nodes⟩

/-- A store to `used` of a class. -/
theorem Layout.setUsed (hL : Layout cal m V) (ho : IsOrder o) :
    Layout cal (store m (ChunkList.used (listAt cal o)) v) (V.setUsed o v) where
  ring := fun k o' ho' => Layout.ring_counter (V := V) hS hL ⟨o, ho, Or.inr rfl⟩ ho'
  header := fun x hx => hL.header_counter hS ⟨o, ho, Or.inr rfl⟩ hx
  total := by
    intro o' ho'
    refine (store_ne m v ?_).trans (hL.total o' ho')
    rw [total_eq, used_eq]
    omega
  used := by
    intro o' ho'
    by_cases h : o' = o
    · subst h
      simp [View.setUsed]
    · simp only [View.setUsed, Function.update_of_ne h, ← hL.used o' ho']
      refine store_ne m v ?_
      obtain ⟨h₁, h₂⟩ := isOrder_iff.mp ho
      obtain ⟨h₃, h₄⟩ := isOrder_iff.mp ho'
      rw [used_eq, used_eq]
      omega

/-- A store to `total` of a class. -/
theorem Layout.setTotal (hL : Layout cal m V) (ho : IsOrder o) :
    Layout cal (store m (ChunkList.total (listAt cal o)) v) (V.setTotal o v) where
  ring := fun k o' ho' => Layout.ring_counter (V := V) hS hL ⟨o, ho, Or.inl rfl⟩ ho'
  header := fun x hx => hL.header_counter hS ⟨o, ho, Or.inl rfl⟩ hx
  total := by
    intro o' ho'
    by_cases h : o' = o
    · subst h
      simp [View.setTotal]
    · simp only [View.setTotal, Function.update_of_ne h, ← hL.total o' ho']
      refine store_ne m v ?_
      obtain ⟨h₁, h₂⟩ := isOrder_iff.mp ho
      obtain ⟨h₃, h₄⟩ := isOrder_iff.mp ho'
      rw [total_eq, total_eq]
      omega
  used := by
    intro o' ho'
    refine (store_ne m v ?_).trans (hL.used o' ho')
    rw [total_eq, used_eq]
    omega

/-! ## Lists -/

theorem Sited.setList
    (hys : ∀ n ∈ ys, ∃ x ∈ V.mchunks, x.2 = o ∧ n ∈ places k x) : Sited cal (V.setList k o ys) where
  mchunk := hS.mchunk
  regions := hS.regions
  nodes := by
    intro k' o' n hn
    simp only [View.setList] at hn
    split at hn
    next h =>
      obtain ⟨rfl, rfl⟩ := h
      exact hys n hn
    · exact hS.nodes k' o' n hn

end

theorem insertBetween_off {S : Set Nat} {e p n : Nat} (he : e ∈ S) (hp : p ∈ S) (hn : n ∈ S)
    (hw : ∀ a ∈ S, w ≠ a ∧ w ≠ a + 4) : insertBetween m e p n w = m w := by
  simp only [insertBetween]
  rw [store_ne _ _ (hw n hn).2, store_ne _ _ (hw p hp).1, store_ne _ _ (hw e he).2,
    store_ne _ _ (hw e he).1]

section Edits

variable (hS : Sited cal V) (hL : Layout cal m V) (ho : IsOrder o)
include hS hL ho

theorem Layout.listDel_off
    (hlist : V.lists k o = e :: xs) (hw : ∀ n ∈ Zone cal V k o, w ≠ n ∧ w ≠ n + 4) :
    listDel m e w = m w := by
  have hring := hL.ring k o ho
  have hin : ∀ n ∈ anchor cal k o :: V.lists k o, n ∈ Zone cal V k o := fun _ => hS.mem_zone
  rw [hlist] at hring hin
  obtain ⟨hnext, hprev⟩ := hring.next_prev_mem (List.mem_cons_of_mem _ List.mem_cons_self)
  have h₁ : w ≠ m e + 4 := (hw _ (hin _ hnext)).2
  have h₂ : w ≠ m (e + 4) := (hw _ (hin _ hprev)).1
  simp only [Alloc.listDel, unlink]
  rw [store_ne _ _ h₂, store_ne _ _ h₁]

theorem Layout.listDel
    (hlist : V.lists k o = e :: xs) : Layout cal (listDel m e) (V.setList k o xs) := by
  have hring := hL.ring k o ho
  have hin : ∀ n ∈ anchor cal k o :: V.lists k o, n ∈ Zone cal V k o := fun _ => hS.mem_zone
  rw [hlist] at hring hin
  exact hL.relink hS ho (fun _ => hL.listDel_off hS ho hlist)
    (ring_unlinkFirst (zone_spaced hS ho) hin hring)

theorem Layout.listInsert_off
    (he : e ∈ Zone cal V k o) (hw : ∀ n ∈ Zone cal V k o, w ≠ n ∧ w ≠ n + 4) :
    listInsert m e (anchor cal k o) w = m w := by
  obtain ⟨hnext, -⟩ := (hL.ring k o ho).next_prev_mem List.mem_cons_self
  exact insertBetween_off he (Or.inl rfl) (hS.mem_zone hnext) hw

theorem Layout.listInsert (he : e ∈ Zone cal V k o) (hnew : e ∉ anchor cal k o :: V.lists k o) :
    Layout cal (listInsert m e (anchor cal k o)) (V.setList k o (e :: V.lists k o)) :=
  hL.relink hS ho (fun _ => hL.listInsert_off hS ho he)
    (ring_insertHead (zone_spaced hS ho) (fun _ => hS.mem_zone) he hnew (hL.ring k o ho))

theorem Layout.listInsertTail_off
    (he : e ∈ Zone cal V k o) (hw : ∀ n ∈ Zone cal V k o, w ≠ n ∧ w ≠ n + 4) :
    listInsertTail m e (anchor cal k o) w = m w := by
  obtain ⟨-, hprev⟩ := (hL.ring k o ho).next_prev_mem List.mem_cons_self
  exact insertBetween_off he (hS.mem_zone hprev) (Or.inl rfl) hw

theorem Layout.listInsertTail (he : e ∈ Zone cal V k o) (hnew : e ∉ anchor cal k o :: V.lists k o) :
    Layout cal (listInsertTail m e (anchor cal k o)) (V.setList k o (V.lists k o ++ [e])) :=
  hL.relink hS ho (fun _ => hL.listInsertTail_off hS ho he)
    (ring_insertTail (zone_spaced hS ho) (fun _ => hS.mem_zone) he hnew (hL.ring k o ho))

theorem Layout.listInsertList_off {f : Nat} {fs : List Nat}
    (hf : IsRing (links m) f fs) (hin : ∀ n ∈ f :: fs, n ∈ Zone cal V k o)
    (hw : ∀ n ∈ Zone cal V k o, w ≠ n ∧ w ≠ n + 4) :
    listInsertList m f (anchor cal k o) w = m w := by
  obtain ⟨hnext, -⟩ := (hL.ring k o ho).next_prev_mem List.mem_cons_self
  obtain ⟨-, hlast⟩ := hf.next_prev_mem List.mem_cons_self
  have h₁ : w ≠ m (anchor cal k o) + 4 := (hw _ (hS.mem_zone hnext)).2
  have h₂ : w ≠ m (f + 4) := (hw _ (hin _ hlast)).1
  have h₃ : w ≠ f + 4 := (hw _ (hin f List.mem_cons_self)).2
  have h₄ : w ≠ anchor cal k o := (hw _ (Or.inl rfl)).1
  simp only [Alloc.listInsertList, spliceAfter]
  rw [store_ne _ _ h₁, store_ne _ _ h₂, store_ne _ _ h₃, store_ne _ _ h₄]

theorem Layout.listInsertList {f : Nat} {fs : List Nat}
    (hf : IsRing (links m) f fs) (hin : ∀ n ∈ f :: fs, n ∈ Zone cal V k o)
    (hdis : List.Disjoint (f :: fs) (anchor cal k o :: V.lists k o)) :
    Layout cal (listInsertList m f (anchor cal k o))
      (V.setList k o (f :: fs ++ V.lists k o)) :=
  hL.relink hS ho (fun _ => hL.listInsertList_off hS ho hf hin)
    (ring_spliceAfter (zone_spaced hS ho) (fun _ => hS.mem_zone) hin hdis (hL.ring k o ho) hf)

end Edits

end Ngpt.Alloc
