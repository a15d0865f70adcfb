import Ngpt.Alloc.Layout

/-!
# ngpt — splitting an mchunk

`mchunk_header_get_chunks` writes the header of an mchunk and links its chunks into a
circular list without an anchor.
-/

namespace Ngpt.Alloc

open WordMemory LinkedRing

variable {step last chunk prev rounds n h o w : Nat} {m m' : Mem}

/-- The chunks from `chunk` on, `n` of them, are linked to each other, and the first one
back to `prev`. -/
structure LinkedRun (step chunk prev n : Nat) (m : Mem) (r : Nat × Mem) : Prop where
  result : r.1 = if n = 0 then prev else chunk + step * (n - 1)
  chain  : List.IsChain (links r.2).Linked (List.range' chunk n step)
  first  : 0 < n → r.2 (chunk + 4) = prev
  frame  : ∀ w, w < chunk ∨ chunk + step * n ≤ w → r.2 w = m w

/-- What the loop leaves behind, whatever the number of chunks. -/
theorem linkChunks_spec (hstep : 8 ≤ step) (hrounds : n ≤ rounds)
    (hlast : last = chunk + step * n) :
    LinkedRun step chunk prev n m (linkChunks step last rounds chunk prev m) := by
  induction n generalizing rounds chunk prev m with
  | zero =>
    have hstop : linkChunks step last rounds chunk prev m = (prev, m) := by
      cases rounds with
      | zero => rfl
      | succ rounds => simp [linkChunks, hlast]
    rw [hstop]
    exact ⟨rfl, List.isChain_nil, by simp, fun _ _ => rfl⟩
  | succ n ih =>
    obtain ⟨rounds, rfl⟩ : ∃ k, rounds = k + 1 := ⟨rounds - 1, by omega⟩
    rw [Nat.mul_succ] at hlast
    have hlt : chunk < last := by omega
    have hrun : LinkedRun step (chunk + step) chunk n
        (store (store m chunk (chunk + step)) (chunk + 4) prev)
        (linkChunks step last rounds (chunk + step) chunk
          (store (store m chunk (chunk + step)) (chunk + 4) prev)) :=
      ih (by omega) (by omega)
    have heq : linkChunks step last (rounds + 1) chunk prev m =
        linkChunks step last rounds (chunk + step) chunk
          (store (store m chunk (chunk + step)) (chunk + 4) prev) := by
      simp [linkChunks, hlt]
    rw [heq]
    generalize linkChunks step last rounds (chunk + step) chunk
      (store (store m chunk (chunk + step)) (chunk + 4) prev) = r at hrun
    have hnext : r.2 chunk = chunk + step := by
      rw [hrun.frame chunk (by omega), store_ne _ _ (by omega), store_self]
    have hprev : r.2 (chunk + 4) = prev := by
      rw [hrun.frame (chunk + 4) (by omega), store_self]
    refine ⟨?_, ?_, fun _ => hprev, ?_⟩
    · rw [hrun.result]
      cases n with
      | zero => simp
      | succ n =>
        rw [if_neg (by omega), if_neg (by omega)]
        simp only [Nat.add_sub_cancel, Nat.mul_succ]
        omega
    · have hchain := hrun.chain
      have hfirst := hrun.first
      cases n with
      | zero => exact List.isChain_singleton _
      | succ n =>
        rw [List.range'_succ] at hchain
        rw [List.range'_succ, List.range'_succ, List.isChain_cons_cons]
        exact ⟨⟨hnext, hfirst (by omega)⟩, hchain⟩
    · intro w hw
      rw [Nat.mul_succ] at hw
      rw [hrun.frame w (by omega), store_ne _ _ (by omega), store_ne _ _ (by omega)]

theorem LinkedRun.ring {r : Nat × Mem} (hstep : 8 ≤ step)
    (hr : LinkedRun step chunk (chunk + step * n) (n + 1) m r) :
    IsRing (links (store r.2 r.1 chunk)) chunk (List.range' (chunk + step) n step) := by
  have hlast : r.1 = chunk + step * n := by simpa using hr.result
  have hfirst := hr.first (Nat.succ_pos n)
  have hchain := hr.chain
  have hsplit : chunk :: List.range' (chunk + step) n step = List.range' chunk n step ++
      [chunk + step * n] := by
    rw [← List.range'_succ, List.range'_concat]
  -- the last chunk is a whole step above every other one
  have hbelow : ∀ a ∈ List.range' chunk n step, a + step ≤ r.1 := by
    intro a ha
    obtain ⟨i, hi, rfl⟩ := List.mem_range'.mp ha
    have hle : step * (i + 1) ≤ step * n := Nat.mul_le_mul_left _ hi
    rw [Nat.mul_succ] at hle
    omega
  rw [List.range'_succ] at hchain
  refine ⟨?_, ?_⟩
  · refine List.isChain_append.mpr ⟨?_, List.isChain_singleton _, ?_⟩
    · refine isChain_congr ?_ ?_ hchain
      · intro a ha
        rw [hsplit, List.dropLast_concat] at ha
        have := hbelow a ha
        exact store_ne _ _ (by omega)
      · intro a ha
        have hmem : a ∈ List.range' chunk n step ++ [chunk + step * n] := by
          rw [← hsplit]
          exact List.mem_cons_of_mem _ ha
        rcases List.mem_append.mp hmem with h | h
        · have := hbelow a h
          exact store_ne _ _ (by omega)
        · have := List.mem_singleton.mp h
          exact store_ne _ _ (by omega)
    · intro a ha b hb
      rw [hsplit, List.getLast?_concat, Option.mem_some_iff] at ha
      obtain rfl : chunk = b := by simpa using hb
      refine ⟨?_, ?_⟩
      · show store r.2 r.1 chunk a = chunk
        rw [← ha, ← hlast, store_self]
      · show store r.2 r.1 chunk (chunk + 4) = a
        have hne : chunk + 4 ≠ r.1 := by
          cases n with
          | zero => omega
          | succ n =>
            rw [Nat.mul_succ] at hlast
            omega
        rw [store_ne _ _ hne, hfirst, ha]
  · rw [← List.range'_succ]
    exact List.nodup_range' step (by omega)

/-! ## Whole mchunks -/

/-- An mchunk that has been split: its header, as far as it is known, and its chunks. -/
structure Split (m m' : Mem) (x : Nat × Nat) : Prop where
  order      : m' (MchunkHeader.order x.1) = x.2
  pages      : m' (MchunkHeader.pages x.1) = getTotalPagesByOrder x.2
  firstChunk : m' (MchunkHeader.firstChunk x.1) = x.1 + firstOffset x.2
  used       : m' (MchunkHeader.used x.1) = chunkCount x.2
  ring       : IsRing (links m') (x.1 + firstOffset x.2) (chunksOf x).tail
  frame      : ∀ w, w < x.1 ∨ x.1 + getTotalPagesByOrder x.2 * pageSize ≤ w → m' w = m w

/-- What was in the region before does not matter. -/
theorem Split.congr {m₀ : Mem} {x : Nat × Nat} (hs : Split m₀ m' x)
    (hframe : ∀ w, w < x.1 ∨ x.1 + getTotalPagesByOrder x.2 * pageSize ≤ w → m₀ w = m w) :
    Split m m' x :=
  { hs with frame := fun w hw => (hs.frame w hw).trans (hframe w hw) }

theorem chunksOf_cons {x : Nat × Nat} (ho : IsOrder x.2) :
    chunksOf x = (x.1 + firstOffset x.2) :: (chunksOf x).tail := by
  obtain ⟨n, hn⟩ : ∃ n, chunkCount x.2 = n + 1 := ⟨chunkCount x.2 - 1, by
    have := (geometry ho).some
    omega⟩
  simp [chunksOf, hn, List.range'_succ]

/-- The header and the ring of chunks of an mchunk; nothing outside its pages is written. -/
theorem splitMchunk_spec (ho : IsOrder o) : Split m (splitMchunk 5 32 o h m) (h, o) := by
  obtain ⟨hheader, hsize, hsome, hfits, -, -⟩ := geometry ho
  simp only [sizeofMchunkHeader] at hheader
  obtain ⟨n, hn⟩ : ∃ n, chunkCount o = n + 1 := ⟨chunkCount o - 1, by omega⟩
  have hfirst : (if o < 5 then h + 32 else h + 2 ^ o) = h + firstOffset o := by
    unfold firstOffset
    split <;> rfl
  have hend : h + getTotalPagesByOrder o * pageSize - (h + firstOffset o) =
      2 ^ o * chunkCount o := by
    omega
  have hcount : (h + getTotalPagesByOrder o * pageSize - (h + firstOffset o)) / 2 ^ o =
      chunkCount o := by
    rw [hend, Nat.mul_div_cancel_left _ (Nat.two_pow_pos o)]
  have hrounds : chunkCount o ≤ 2 ^ o * chunkCount o :=
    Nat.le_mul_of_pos_left _ (Nat.two_pow_pos o)
  simp only [splitMchunk, hfirst, hcount]
  -- the memory with the header written, before the chunks are linked
  generalize hm : store (store (store (store m (MchunkHeader.order h) o) (MchunkHeader.pages h)
    (getTotalPagesByOrder o)) (MchunkHeader.firstChunk h) (h + firstOffset o))
    (MchunkHeader.used h) (chunkCount o) = m₁
  rw [Nat.mul_comm (2 ^ o), hn, Nat.succ_mul] at hfits
  have hlast : h + getTotalPagesByOrder o * pageSize - 2 ^ o =
      h + firstOffset o + 2 ^ o * n := by
    rw [Nat.mul_comm (2 ^ o)]
    omega
  rw [hlast, hend]
  have hrun : LinkedRun (2 ^ o) (h + firstOffset o) (h + firstOffset o + 2 ^ o * n) (n + 1) m₁
      (linkChunks (2 ^ o) (h + getTotalPagesByOrder o * pageSize) (2 ^ o * chunkCount o)
        (h + firstOffset o) (h + firstOffset o + 2 ^ o * n) m₁) := by
    refine linkChunks_spec (by omega) (by omega) ?_
    rw [Nat.mul_succ, Nat.mul_comm (2 ^ o)]
    omega
  generalize linkChunks (2 ^ o) (h + getTotalPagesByOrder o * pageSize) (2 ^ o * chunkCount o)
    (h + firstOffset o) (h + firstOffset o + 2 ^ o * n) m₁ = r at hrun
  have hres : r.1 = h + firstOffset o + n * 2 ^ o := by
    rw [hrun.result, if_neg (by omega), Nat.add_sub_cancel, Nat.mul_comm]
  -- everything but the chunks is as it was
  have hoff : ∀ w, w < h + firstOffset o ∨ h + getTotalPagesByOrder o * pageSize ≤ w →
      store r.2 r.1 (h + firstOffset o) w = m₁ w := by
    intro w hw
    rw [store_ne _ _ (by omega), hrun.frame w ?_]
    rw [Nat.mul_succ, Nat.mul_comm (2 ^ o)]
    omega
  simp only [MchunkHeader.order, MchunkHeader.pages, MchunkHeader.firstChunk,
    MchunkHeader.used] at hm
  constructor
  case order | pages | firstChunk | used =>
    simp only [MchunkHeader.order, MchunkHeader.pages, MchunkHeader.firstChunk, MchunkHeader.used]
    rw [hoff _ (by omega), ← hm]
    simp [store]
  case ring =>
    have htail : (chunksOf (h, o)).tail =
        List.range' (h + firstOffset o + 2 ^ o) n (2 ^ o) := by
      simp [chunksOf, hn, List.range'_succ]
    rw [htail]
    exact hrun.ring (by omega)
  case frame =>
    intro w hw
    simp only at hw
    rw [hoff w (by omega), ← hm]
    simp (disch := omega) only [store_ne]

/-- The same of the whole function. -/
theorem mchunkHeaderGetChunks_spec (ho : IsOrder o) :
    ∃ m', mchunkHeaderGetChunks 5 32 m o (some h) = some (h, m') ∧ Split m m' (h, o) := by
  obtain ⟨m₁, hm⟩ : ∃ m₁, m₁ = fill m ⟨h, getTotalPagesByOrder o * pageSize⟩ 0 := ⟨_, rfl⟩
  have hsize : roundSize pageSize (pageSize * getTotalPagesByOrder o) =
      getTotalPagesByOrder o * pageSize := by
    simp only [roundSize, pageSize]
    omega
  refine ⟨splitMchunk 5 32 o h m₁, ?_, (splitMchunk_spec ho).congr fun w hw => ?_⟩
  · simp only [mchunkHeaderGetChunks, mmapAllocate, Option.map_some, hsize, hm]
  · rw [hm]
    exact fill_off _ _ hw

end Ngpt.Alloc
