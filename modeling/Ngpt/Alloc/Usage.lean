import Ngpt.Alloc.Separation
import Mathlib.Data.Nat.ModEq

/-!
# ngpt — the usage counter of an mchunk

The field `used` of an mchunk's header is to be the number of its chunks that are in use.
`mchunk_header_get_chunks` first leaves the number of chunks in it, which `chunk_cache_get` adds to
the total of the list before it sets the field to 0. From then on `chunk_cache_put` counts it down
for every chunk that comes back, but no function counts it up: `chunk_cache_get` counts in the list
only.

Result: `used_iff_handed_out`.
-/

namespace Ngpt.Alloc

open WordMemory LinkedRing Transition

/-- The chunks of the mchunk that are outstanding. -/
def outstandingOf (s : State) (x : Nat × Nat) : Nat :=
  s.outstanding.countP fun e => e.1 ∈ chunksOf x

/-- Whether the call hands out a chunk of the mchunk. -/
def handsOut (cal : Nat) (x : Nat × Nat) (s : State) : Action → Nat
  | .get size map =>
    let r := s.calGet cal size map
    if x ∈ r.2.mchunks ∧ ∃ p ∈ r.1, p ∈ chunksOf x then 1 else 0
  | .put _ _ | .store _ _ => 0

/-- How many chunks of the mchunk a run hands out. -/
def handedOut (cal : Nat) (x : Nat × Nat) : State → List Action → Nat
  | _, [] => 0
  | s, a :: as =>
    match s.step cal a with
    | none => 0
    | some s' => handsOut cal x s a + handedOut cal x s' as

/-- The books of the mchunks, with `given` chunks handed out of each so far. -/
structure Booked (s : State) (given : Nat × Nat → Nat) : Prop where
  field   : ∀ x ∈ s.mchunks, s.mem (MchunkHeader.used x.1) < Unsigned.range
  balance : ∀ x ∈ s.mchunks,
    s.mem (MchunkHeader.used x.1) + given x ≡ outstandingOf s x [MOD Unsigned.range]
  born    : ∀ x ∈ s.mchunks, 1 ≤ given x
  unborn  : ∀ x, x ∉ s.mchunks → given x = 0

variable {cal size p a v : Nat} {map : Option Nat} {s s' : State} {P : Pool} {x : Nat × Nat}
  {given : Nat × Nat → Nat} {free : Nat → List Nat}

/-! ## Chunks in use -/

theorem block_notMem {e : Nat × Nat} (ho : IsOrder x.2) (hpos : 0 < e.2)
    (hap : (mchunkSpan x).Apart (blockSpan e)) : e.1 ∉ chunksOf x := by
  intro hc
  have hout := chunk_notMem ho hc hap
  have hle : e.2 ≤ blockSize e.2 := size_le_blockSize hpos
  simp only [blockSpan] at hout
  omega

theorem used_off_span {r : Span} (ho : IsOrder x.2) (hap : r.Apart (mchunkSpan x)) :
    MchunkHeader.used x.1 < r.base ∨ r.base + r.len ≤ MchunkHeader.used x.1 := by
  have hfits := header_fits ho
  simp only [Span.Apart, mchunkSpan] at hap
  simp only [MchunkHeader.used]
  omega

theorem used_off_block (hP : P.Wf cal) (hx : x ∈ P.mchunks) {e : Nat × Nat}
    (he : e ∈ P.outstanding) :
    MchunkHeader.used x.1 < e.1 ∨ e.1 + blockSize e.2 ≤ MchunkHeader.used x.1 := by
  by_cases hsize : e.2 < calChunkThresholdSize
  · obtain ⟨y, hy, ho, hcy⟩ := Pool.mem_chunks.mp (hP.small_chunk he hsize).2
    have hoff := (used_apart hP.sited hx).2.1 y hy e.1 hcy
    rw [ho] at hoff
    simpa only [blockSize, hsize, if_true] using hoff
  · exact used_off_span (hP.mchunk x hx).order ((hP.large e he (Nat.not_lt.mp hsize)).2 x hx)

theorem outstandingOf_fresh (hP : (s.pool free).Wf cal) (ho : IsOrder x.2)
    (hfresh : Fresh cal s (mchunkSpan x)) : outstandingOf s x = 0 := by
  rw [outstandingOf, List.countP_eq_zero]
  intro e he hc
  have hc := of_decide_eq_true hc
  by_cases hsize : e.2 < calChunkThresholdSize
  · obtain ⟨y, hy, -, hcy⟩ := Pool.mem_chunks.mp (hP.small_chunk he hsize).2
    exact chunksOf_disjoint ho (hP.mchunk y hy).order (hfresh.mchunks y hy) hc hcy
  · have hap := hfresh.outstanding e he (Nat.not_lt.mp hsize)
    exact block_notMem ho (hP.sizes e he) hap hc

theorem Fresh.notMem (ho : IsOrder x.2) (hfresh : Fresh cal s (mchunkSpan x)) : x ∉ s.mchunks := by
  intro hx
  have hap := hfresh.mchunks x hx
  have hfits := header_fits ho
  simp only [Span.Apart, mchunkSpan] at hap
  omega

theorem outstandingOf_lt (hP : (s.pool free).Wf cal) (hx : x ∈ s.mchunks) :
    outstandingOf s x < Unsigned.range := by
  have hsub : (s.outstanding.map Prod.fst).filter (· ∈ chunksOf x) ⊆ (s.pool free).chunks x.2 := by
    intro c hc
    exact Pool.mem_chunks.mpr ⟨x, hx, rfl, of_decide_eq_true (List.mem_filter.mp hc).2⟩
  have hnodup : ((s.outstanding.map Prod.fst).filter (· ∈ chunksOf x)).Nodup :=
    hP.pointers_nodup.filter _
  have hlen := (hnodup.subperm hsub).length_le
  have hcount : outstandingOf s x =
      ((s.outstanding.map Prod.fst).filter (· ∈ chunksOf x)).length := by
    rw [← List.countP_eq_length_filter, List.countP_map]
    rfl
  rw [hcount]
  exact hlen.trans_lt (hP.length_chunks_lt x.2)

/-! ## The calls -/

theorem allocate_used (hI : Inv cal s) (hpos : 0 < size)
    (hmap : ∀ b ∈ map, Fresh cal s ⟨b, mapSize size⟩) :
    s.mchunks ⊆ (s.allocate cal size map).2.mchunks ∧
      ∀ x ∈ (s.allocate cal size map).2.mchunks,
        (x ∈ s.mchunks ∧ (s.allocate cal size map).2.mem (MchunkHeader.used x.1) =
          s.mem (MchunkHeader.used x.1)) ∨
        (x ∉ s.mchunks ∧ outstandingOf s x = 0 ∧
          (s.allocate cal size map).2.mem (MchunkHeader.used x.1) = 0 ∧
          ∃ p ∈ (s.allocate cal size map).1, p ∈ chunksOf x) := by
  obtain ⟨free, hP, hR⟩ := hI.pool
  rcases allocate_cases hI hpos hmap with heq | ⟨hsize, m, P, hready, r, rfl, heq⟩ |
    ⟨hlarge, b, hb, heq⟩
  · rw [heq]
    exact ⟨fun _ h => h, fun x hx => Or.inl ⟨hx, rfl⟩⟩
  · rw [heq]
    refine ⟨hready.mchunks, fun x hx => ?_⟩
    obtain ⟨c, xs, hcons⟩ := List.exists_cons_of_ne_nil hready.free
    have htaken := takeChunk_used hready.wf hready.represents (getOrderBySize_spec hpos hsize).1
      hcons hx
    have hfirst := (takeChunk_refines hready.wf hready.represents hpos hsize hcons rfl).1
    rcases hready.used x hx with ⟨hmem, hused⟩ | ⟨hfresh, hused, hnew⟩
    · exact Or.inl ⟨hmem, htaken.trans hused⟩
    · have ho := (hready.wf.mchunk x hx).order
      exact Or.inr ⟨hfresh.notMem ho, outstandingOf_fresh hP ho hfresh, htaken.trans hused, _, rfl,
        hfirst ▸ hnew c xs hcons⟩
  · rw [heq]
    refine ⟨fun _ h => h, fun x hx => Or.inl ⟨hx, fill_off _ _ ?_⟩⟩
    exact used_off_span (hP.mchunk x hx).order (hb.mchunks x hx)

theorem Booked.get (h : Booked s given) (hI : Inv cal s) (hpos : 0 < size)
    (hmap : ∀ b ∈ map, Fresh cal s ⟨b, mapSize size⟩) :
    Booked (s.calGet cal size map).2
      fun x => given x + handsOut cal x s (.get size map) := by
  obtain ⟨hsub, hused⟩ := allocate_used hI hpos hmap
  rcases allocate_grants hI hpos hmap with hr | ⟨p, m, mchunks, free, hr, -⟩
  · have heq : s.calGet cal size map = (none, s) := by simp only [State.calGet, hr]
    simpa [handsOut, heq] using h
  · have heq : s.calGet cal size map = (some p, { s with
        mem := m, mchunks := mchunks, outstanding := (p, size) :: s.outstanding }) := by
      simp only [State.calGet, hr]
    rw [hr] at hsub hused
    simp only [handsOut, heq, Option.mem_some_iff, exists_eq_left']
    refine ⟨fun x hx => ?_, fun x hx => ?_, fun x hx => ?_, fun x hx => ?_⟩
    · rcases hused x hx with ⟨hmem, hkept⟩ | ⟨-, -, hzero, -⟩
      · rw [hkept]
        exact h.field x hmem
      · rw [hzero]
        exact Nat.zero_lt_of_lt Unsigned.one_lt_range
    · have hcount : outstandingOf { s with
            mem := m, mchunks := mchunks, outstanding := (p, size) :: s.outstanding } x =
          outstandingOf s x + if p ∈ chunksOf x then 1 else 0 := by
        simp [outstandingOf, List.countP_cons]
      have hgiven : (if x ∈ mchunks ∧ p ∈ chunksOf x then 1 else 0) =
          if p ∈ chunksOf x then 1 else 0 := by
        simp [show x ∈ mchunks from hx]
      rw [hcount, hgiven, ← Nat.add_assoc]
      refine Nat.ModEq.add_right _ ?_
      rcases hused x hx with ⟨hmem, hkept⟩ | ⟨hmem, hnone, hzero, -⟩
      · rw [hkept]
        exact h.balance x hmem
      · rw [hzero, hnone, h.unborn x hmem]
    · rcases hused x hx with ⟨hmem, -⟩ | ⟨-, -, -, q, hq, hc⟩
      · exact (h.born x hmem).trans (Nat.le_add_right _ _)
      · cases hq
        rw [if_pos ⟨hx, hc⟩]
        exact Nat.le_add_left 1 _
    · rw [h.unborn x fun hmem => hx (hsub hmem), if_neg fun hmem => hx hmem.1]

theorem Booked.put (h : Booked s given) (hI : Inv cal s) (hx : (p, size) ∈ s.outstanding)
    (hno : NoImitation s (getOrderBySize size)) : Booked (s.calPut p size) given := by
  obtain ⟨free, hP, hR⟩ := hI.pool
  have hcount : ∀ x, outstandingOf { s with outstanding := s.outstanding.erase (p, size) } x =
      outstandingOf s x - if p ∈ chunksOf x then 1 else 0 := by
    intro x
    simp [outstandingOf, List.countP_erase, hx]
  unfold State.calPut
  split
  next hsize =>
    obtain ⟨m, heq, -, hused⟩ := chunkCachePut_refines
      (s := { s with outstanding := s.outstanding.erase (p, size) }) hP hR hx hsize (hI.lookup hno)
    rw [heq]
    refine ⟨fun x hmem => ?_, fun x hmem => ?_, h.born, h.unborn⟩
    · show m _ < _
      rw [hused x hmem]
      split
      · exact Unsigned.decr_lt (h.field x hmem)
      · exact h.field x hmem
    · show m _ + given x ≡ outstandingOf { s with outstanding := s.outstanding.erase (p, size) } x
        [MOD _]
      have hbalance := h.balance x hmem
      rw [hused x hmem, hcount]
      split
      · rename_i hc
        have hone : 1 ≤ outstandingOf s x :=
          List.countP_pos_iff.mpr ⟨(p, size), hx, by simpa using hc⟩
        refine Nat.ModEq.add_right_cancel' 1 ?_
        rw [Nat.sub_add_cancel hone, Nat.add_right_comm]
        exact (Nat.ModEq.add_right _ (Unsigned.decr_succ_mod _)).trans hbalance
      · exact hbalance
  next hsize =>
    refine ⟨h.field, fun x hmem => ?_, h.born, h.unborn⟩
    have hap := (hP.large (p, size) hx (Nat.not_lt.mp hsize)).2 x hmem
    have hnot : p ∉ chunksOf x := block_notMem (hP.mchunk x hmem).order (hP.sizes _ hx) hap.symm
    rw [hcount, if_neg hnot]
    exact h.balance x hmem

theorem Booked.store (h : Booked s given) (hI : Inv cal s)
    (he : ∃ e ∈ s.outstanding, e.1 ≤ a ∧ a + 4 ≤ e.1 + blockSize e.2) :
    Booked { s with mem := store s.mem a v } given := by
  obtain ⟨free, hP, -⟩ := hI.pool
  obtain ⟨e, he, h₁, h₂⟩ := he
  have hkept : ∀ x ∈ s.mchunks,
      WordMemory.store s.mem a v (MchunkHeader.used x.1) = s.mem (MchunkHeader.used x.1) := by
    intro x hx
    have hoff := used_off_block hP hx he
    exact store_ne _ _ (by omega)
  refine ⟨fun x hx => ?_, fun x hx => ?_, h.born, h.unborn⟩
  · show WordMemory.store s.mem a v _ < _
    rw [hkept x hx]
    exact h.field x hx
  · show WordMemory.store s.mem a v _ + given x ≡ _ [MOD _]
    rw [hkept x hx]
    exact h.balance x hx

theorem Booked.step {action : Action} (h : Booked s given) (hI : Inv cal s)
    (hok : Allowed cal s action) (hstep : s.step cal action = some s') :
    Booked s' fun x => given x + handsOut cal x s action := by
  cases action with
  | get size map =>
    cases hstep
    exact h.get hI hok.1 hok.2
  | put ptr size =>
    cases hstep
    exact h.put hI hok.1 hok.2
  | store a v =>
    cases hstep
    exact h.store hI hok.2.2

theorem Booked.run {actions : List Action} (h : Booked s given) (hI : Inv cal s)
    (hrun : runOk (State.step cal) (Allowed cal) s actions = some s') :
    Inv cal s' ∧ Booked s' fun x => given x + handedOut cal x s actions := by
  induction actions generalizing s given with
  | nil =>
    cases hrun
    exact ⟨hI, h⟩
  | cons action actions ih =>
    obtain ⟨hok, hrun⟩ := Option.ite_none_right_eq_some.mp hrun
    obtain ⟨s₁, hstep, hrest⟩ := Option.bind_eq_some_iff.mp hrun
    simp only [handedOut, hstep, ← Nat.add_assoc]
    exact ih (h.step hI hok hstep) (step_inv hI hok hstep) hrest

/-! ## Runs -/

/-- **The usage counter.** After any calls of a correct client, `used` of an mchunk is the
number of its outstanding chunks if and only if the number of chunks handed out of it is a
positive multiple of `2 ^ 32`. -/
theorem used_iff_handed_out (cal : Nat) (s₀ s : State) (actions : List Action)
    (hs₀ : Initial cal s₀) (hrun : runOk (State.step cal) (Allowed cal) s₀ actions = some s)
    (x : Nat × Nat) (hx : x ∈ s.mchunks) :
    1 ≤ handedOut cal x s₀ actions ∧
      (s.mem (MchunkHeader.used x.1) = outstandingOf s x ↔
        handedOut cal x s₀ actions % Unsigned.range = 0) := by
  have hstart : Booked s₀ fun _ => 0 := by
    obtain ⟨m, rfl⟩ := hs₀.state
    exact ⟨fun x hx => absurd hx List.not_mem_nil, fun x hx => absurd hx List.not_mem_nil,
      fun x hx => absurd hx List.not_mem_nil, fun _ _ => rfl⟩
  obtain ⟨hI, hbooked⟩ := hstart.run hs₀.inv hrun
  obtain ⟨free, hP, -⟩ := hI.pool
  have hfield := hbooked.field x hx
  have hlt := outstandingOf_lt hP hx
  have hbalance := hbooked.balance x hx
  have hborn := hbooked.born x hx
  simp only [Nat.zero_add] at hbalance hborn
  refine ⟨hborn, ?_⟩
  rw [← Nat.dvd_iff_mod_eq_zero, ← Nat.modEq_zero_iff_dvd]
  constructor
  · intro heq
    rw [heq] at hbalance
    exact Nat.ModEq.add_left_cancel' _ hbalance
  · intro hzero
    have hsame : s.mem (MchunkHeader.used x.1) ≡ outstandingOf s x [MOD Unsigned.range] :=
      (Nat.ModEq.add_left _ hzero).symm.trans hbalance
    exact hsame.eq_of_lt_of_lt hfield hlt

/-- The chunk that is taken, put back and taken again has been counted down once. -/
theorem used_iff_handed_out_reuse :
    ∃ s, runOk (State.step 1024) (Allowed 1024) (initState (fun _ => 7) 1024) reuse = some s ∧
      handedOut 1024 (65536, 11) (initState (fun _ => 7) 1024) reuse = 2 ∧
      s.mem (MchunkHeader.used 65536) + 1 = Unsigned.range ∧ outstandingOf s (65536, 11) = 1 ∧
      1 ≤ handedOut 1024 (65536, 11) (initState (fun _ => 7) 1024) reuse ∧
      (s.mem (MchunkHeader.used 65536) = outstandingOf s (65536, 11) ↔
        handedOut 1024 (65536, 11) (initState (fun _ => 7) 1024) reuse % Unsigned.range = 0) := by
  obtain ⟨s, hs, hmchunks, hused, hout⟩ : ∃ s, runOk (State.step 1024) (Allowed 1024)
      (initState (fun _ => 7) 1024) reuse = some s ∧ s.mchunks = [(65536, 11)] ∧
      s.mem (MchunkHeader.used 65536) = 2 ^ 32 - 1 ∧ outstandingOf s (65536, 11) = 1 :=
    exists_of_any (by decide +kernel)
  refine ⟨s, hs, by decide +kernel, ?_, hout, ?_⟩
  · rw [hused]
    unfold Unsigned.range
    decide
  · exact used_iff_handed_out 1024 _ s reuse (initState_initial _) hs (65536, 11)
      (by simp [hmchunks])

/-- One chunk is handed out of a new mchunk, and its header says that none is in use. -/
theorem used_zero_after_get :
    ∃ s, runOk (State.step 1024) (Allowed 1024) (initState (fun _ => 7) 1024)
        [.get 1500 (some 65536)] = some s ∧
      s.mchunks = [(65536, 11)] ∧ s.mem (MchunkHeader.used 65536) = 0 ∧
      outstandingOf s (65536, 11) = 1 := by
  exact exists_of_any (by decide +kernel)

end Ngpt.Alloc
