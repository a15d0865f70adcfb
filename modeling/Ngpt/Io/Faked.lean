import Mathlib.Algebra.Group.Fin.Basic
import Mathlib.Algebra.GroupWithZero.Nat
import Mathlib.Algebra.Order.BigOperators.Group.List
import Mathlib.Algebra.Order.Group.Nat
import Ngpt.Lib.Unsigned

/-!
# ngpt — emulated vector I/O (`pth_writev_faked` and `pth_readv_faked`, `pth_high.c`)

Both functions go through one temporary block. `pth_writev_faked` copies every vector to the
start of it, since `cp` is never moved. `pth_readv_faked` moves `buffer` and reuses `bytes`
while it scatters, and frees what these have become; its `rv` is a `size_t`, for which an error
of `read` is a positive number.

Result: `faked_vectors`.
-/

namespace Ngpt.Faked

/-- A `char` of a buffer. -/
abbrev Byte := Fin 256

/-- The total number of bytes, as a `size_t`; `none` is the error `EINVAL`. -/
def totalBytes : Nat → List Nat → Option Nat
  | bytes, [] => if bytes = 0 then none else some bytes
  | bytes, len :: lens =>
    if len = 0 then none else totalBytes ((bytes + len) % Unsigned.range) lens

/-- `memcpy` of a buffer's first `copy` bytes to the start of the block. -/
def memcpy (buffer : Nat → Byte) (base : List Byte) (copy : Nat) : Nat → Byte :=
  fun i => (base.take copy).getD i (buffer i)

/-- The loop that is to concatenate the data. -/
def copyLoop : Nat → List (List Byte) → (Nat → Byte) → Nat → Byte
  | _, [], buffer => buffer
  | toCopy, base :: iov, buffer =>
    let copy := min base.length toCopy
    if toCopy - copy = 0 then memcpy buffer base copy
    else copyLoop (toCopy - copy) iov (memcpy buffer base copy)

/-- What is passed to `write`, and what is freed: address and size. -/
structure Written where
  passed : Option (List Byte)
  freed  : Option (Nat × Nat)

/-- `pth_writev_faked`; `addr` is the result of `pth_malloc`, with the contents `fill`. -/
def pthWritevFaked (addr : Option Nat) (fill : Nat → Byte) (iov : List (List Byte)) : Written :=
  match totalBytes 0 (iov.map List.length), addr with
  | some bytes, some addr =>
    ⟨some ((List.range bytes).map (copyLoop bytes iov fill)), some (addr, bytes)⟩
  | _, _ => ⟨none, none⟩

/-- The loop that scatters: the vectors, how far `buffer` has moved, and `bytes`. -/
def scatterLoop (buffer : Nat → Byte) : Nat → Nat → List (List Byte) → List (List Byte) × Nat × Nat
  | off, bytes, [] => ([], off, bytes)
  | off, bytes, base :: iov =>
    let copy := min base.length bytes
    let base' := (List.range copy).map (fun i => buffer (off + i)) ++ base.drop copy
    if bytes - copy = 0 then (base' :: iov, off + copy, bytes - copy)
    else
      let (iov', rest) := scatterLoop buffer (off + copy) (bytes - copy) iov
      (base' :: iov', rest)

/-- What is returned, the vectors afterwards, and what is freed. -/
structure Scattered where
  rv    : Int
  iov   : List (List Byte)
  freed : Option (Nat × Nat)

/-- `pth_readv_faked`; `data` is what `read` puts into the block, `none` if it fails. -/
def pthReadvFaked (addr : Option Nat) (fill : Nat → Byte) (data : Option (List Byte))
    (iov : List (List Byte)) : Scattered :=
  match totalBytes 0 (iov.map List.length), addr with
  | some bytes, some addr =>
    let buffer := memcpy fill (data.getD []) bytes
    let rv := (data.map List.length).getD (Unsigned.range - 1)
    let result := (data.map fun d => (d.length : Int)).getD (-1)
    if rv > 0 then
      let r := scatterLoop buffer 0 rv iov
      ⟨result, r.1, some (addr + r.2.1, r.2.2)⟩
    else ⟨result, iov, some (addr, bytes)⟩
  | _, _ => ⟨-1, iov, none⟩

/-- What `pth_writev_faked` is to do with the block at `addr`. -/
def WritesAll (addr : Nat) (iov : List (List Byte)) (r : Written) : Prop :=
  r.passed.getD [] = iov.flatten ∧ r.freed = r.passed.map fun data => (addr, data.length)

/-- What `pth_readv_faked` is to do with the block of `bytes` bytes at `addr`. -/
def ScattersAll (addr bytes : Nat) (data : Option (List Byte)) (iov : List (List Byte))
    (r : Scattered) : Prop :=
  r.rv = (data.map fun d => (d.length : Int)).getD (-1) ∧
    r.iov.map List.length = iov.map List.length ∧
    r.iov.flatten = data.getD [] ++ iov.flatten.drop (data.getD []).length ∧
    r.freed = some (addr, bytes)

variable {addr toCopy i : Nat} {fill buffer : Nat → Byte} {iov : List (List Byte)}
  {lens : List Nat}

theorem copyLoop_behind (hi : ∀ base ∈ iov, base.length ≤ i) :
    copyLoop toCopy iov buffer i = buffer i := by
  induction iov generalizing toCopy buffer with
  | nil => rfl
  | cons base iov ih =>
    have hsame : ∀ copy, memcpy buffer base copy i = buffer i := by
      intro copy
      have hbase := hi base List.mem_cons_self
      simp [memcpy, List.getElem?_eq_none (l := base.take copy) (i := i) (by simp; omega)]
    simp only [copyLoop]
    split
    · exact hsame _
    · rw [ih fun base' h => hi base' (List.mem_cons_of_mem base h), hsame]

theorem copyLoop_single (base : List Byte) :
    (List.range base.length).map (copyLoop base.length [base] fill) = base := by
  refine List.ext_getElem (by simp) fun i h₁ h₂ => ?_
  simp [copyLoop, memcpy, List.getElem?_eq_getElem h₂]

theorem writes_single {base : List Byte} (h₀ : 0 < base.length)
    (hlt : base.length < Unsigned.range) :
    WritesAll addr [base] (pthWritevFaked (some addr) fill [base]) := by
  have hbytes : totalBytes 0 [base.length] = some base.length := by
    simp [totalBytes, Nat.mod_eq_of_lt hlt, h₀.ne']
  simp [WritesAll, pthWritevFaked, hbytes, copyLoop_single]

theorem length_lt_sum {len : Nat} (hpos : ∀ len ∈ lens, 0 < len) (h₂ : 1 < lens.length)
    (hlen : len ∈ lens) : len < lens.sum := by
  obtain ⟨xs, ys, rfl⟩ := List.append_of_mem hlen
  obtain ⟨other, hmem⟩ : ∃ other, other ∈ xs ++ ys := by
    refine List.exists_mem_of_length_pos ?_
    simp only [List.length_append, List.length_cons] at h₂ ⊢
    omega
  have hle := List.single_le_sum (fun x _ => Nat.zero_le x) other hmem
  have hother : 0 < other := hpos other (by grind)
  simp only [List.sum_append, List.sum_cons] at hle ⊢
  omega

theorem not_writes_many (addr : Nat) (fill : Nat → Byte) (hpos : ∀ len ∈ lens, 0 < len)
    (h₂ : 1 < lens.length) :
    ∃ iov, iov.map List.length = lens ∧
      ¬ WritesAll addr iov (pthWritevFaked (some addr) fill iov) := by
  obtain ⟨b, hb⟩ := exists_ne (fill (lens.sum - 1))
  have hlens : (lens.map (List.replicate · b)).map List.length = lens := by
    simp [Function.comp_def]
  have hlen := List.getElem_mem (Nat.zero_lt_of_lt h₂)
  have hsum := length_lt_sum hpos h₂ hlen
  refine ⟨_, hlens, fun h => ?_⟩
  have hpassed := h.1
  have hflat := congrArg List.length hpassed
  rw [List.length_flatten, hlens] at hflat
  simp only [pthWritevFaked, hlens] at hpassed hflat
  cases hbytes : totalBytes 0 lens with
  | none =>
    simp only [hbytes, Option.getD_none, List.length_nil] at hflat
    omega
  | some bytes =>
    simp only [hbytes, Option.getD_some, List.length_map, List.length_range] at hflat hpassed
    -- the last byte of the block is that of some vector
    have hmem : fill (lens.sum - 1) ∈ (lens.map (List.replicate · b)).flatten := by
      rw [← hpassed, List.mem_map]
      refine ⟨lens.sum - 1, by rw [List.mem_range]; omega, copyLoop_behind fun base hbase => ?_⟩
      obtain ⟨len, hl, rfl⟩ := List.mem_map.mp hbase
      have := length_lt_sum hpos h₂ hl
      simp only [List.length_replicate]
      omega
    obtain ⟨base, hbase, hin⟩ := List.mem_flatten.mp hmem
    obtain ⟨len, -, rfl⟩ := List.mem_map.mp hbase
    exact hb (List.eq_of_mem_replicate hin).symm

theorem le_scatterLoop (off bytes : Nat) : off ≤ (scatterLoop buffer off bytes iov).2.1 := by
  induction iov generalizing off bytes with
  | nil => exact Nat.le_refl off
  | cons base iov ih =>
    simp only [scatterLoop]
    split
    · exact Nat.le_add_right ..
    · exact (Nat.le_add_right ..).trans (ih ..)

theorem lt_scatterLoop (buffer : Nat → Byte) (off : Nat) (iov : List (List Byte))
    {base : List Byte} {bytes : Nat} (hbase : 0 < base.length) (hbytes : 0 < bytes) :
    off < (scatterLoop buffer off bytes (base :: iov)).2.1 := by
  have hcopy : off < off + min base.length bytes := by omega
  simp only [scatterLoop]
  split
  · exact hcopy
  · exact hcopy.trans_le (le_scatterLoop ..)

theorem scatters_iff {bytes : Nat} (hpos : ∀ base ∈ iov, 0 < base.length)
    (hbytes : totalBytes 0 (iov.map List.length) = some bytes) (data : Option (List Byte)) :
    ScattersAll addr bytes data iov (pthReadvFaked (some addr) fill data iov) ↔ data = some [] := by
  constructor
  · rintro ⟨-, -, -, hfreed⟩
    by_contra hdata
    have hrv : (data.map List.length).getD (Unsigned.range - 1) > 0 := by
      cases data with
      | none => exact Nat.sub_pos_of_lt Unsigned.one_lt_range
      | some d => simpa [List.length_pos_iff] using hdata
    obtain _ | ⟨base, iov⟩ := iov
    · cases hbytes
    · have hlt := lt_scatterLoop (memcpy fill (data.getD []) bytes) 0 iov
        (hpos base List.mem_cons_self) hrv
      simp only [pthReadvFaked, hbytes, hrv, if_true, Option.some.injEq, Prod.mk.injEq] at hfreed
      omega
  · rintro rfl
    simp [ScattersAll, pthReadvFaked, hbytes]

/-- The vectors are written right with at most one of them, and read right at end of file. -/
theorem faked_vectors (addr : Nat) (fill : Nat → Byte) (lens : List Nat)
    (hlens : ∀ len ∈ lens, 0 < len ∧ len < Unsigned.range) :
    ((∀ iov : List (List Byte), iov.map List.length = lens →
        WritesAll addr iov (pthWritevFaked (some addr) fill iov)) ↔ lens.length ≤ 1) ∧
      ∀ iov : List (List Byte), iov.map List.length = lens →
        ∀ bytes, totalBytes 0 lens = some bytes → ∀ data : Option (List Byte),
          ScattersAll addr bytes data iov (pthReadvFaked (some addr) fill data iov) ↔
            data = some [] := by
  have hpos : ∀ len ∈ lens, 0 < len := fun len h => (hlens len h).1
  refine ⟨⟨fun h => ?_, fun h iov hiov => ?_⟩, fun iov hiov bytes hbytes data => ?_⟩
  · by_contra hlong
    obtain ⟨iov, hiov, hnot⟩ := not_writes_many addr fill hpos (by omega)
    exact hnot (h iov hiov)
  · subst hiov
    obtain _ | ⟨base, _ | ⟨base', iov⟩⟩ := iov
    · simp [WritesAll, pthWritevFaked, totalBytes]
    · have hbase := hlens base.length (by simp)
      exact writes_single hbase.1 hbase.2
    · simp at h
  · subst hiov
    exact scatters_iff (fun base h => hpos _ (List.mem_map_of_mem h)) hbytes data

/-- Of two vectors the bytes may be written wrong; at end of file they are read right. -/
theorem faked_vectors_two :
    (∀ iov : List (List Byte), iov.map List.length = [3] →
        WritesAll 8 iov (pthWritevFaked (some 8) (fun _ => 0) iov)) ∧
      (∃ iov : List (List Byte), iov.map List.length = [2, 1] ∧
        ¬ WritesAll 8 iov (pthWritevFaked (some 8) (fun _ => 0) iov)) ∧
      ScattersAll 8 3 (some []) [[1, 2], [3]]
        (pthReadvFaked (some 8) (fun _ => 0) (some []) [[1, 2], [3]]) := by
  have hlens : ∀ len ∈ [3, 2, 1], 0 < len ∧ len < Unsigned.range := by
    unfold Unsigned.range
    decide
  have hone := faked_vectors 8 (fun _ => 0) [3] fun len h => hlens len (by grind)
  have htwo := faked_vectors 8 (fun _ => 0) [2, 1] fun len h => hlens len (by grind)
  refine ⟨hone.1.mpr (by decide), ?_, (htwo.2 _ rfl 3 (by decide +kernel) (some [])).mpr rfl⟩
  by_contra hall
  push Not at hall
  exact absurd (htwo.1.mp hall) (by decide)

/-- The second vector replaces the first; an error of `read` clears the vector. -/
theorem second_vector_replaces_first :
    (pthWritevFaked (some 8) (fun _ => 0) [[1], [2]]).passed = some [2, 0] ∧
      ¬ WritesAll 8 [[1], [2]] (pthWritevFaked (some 8) (fun _ => 0) [[1], [2]]) ∧
      (pthReadvFaked (some 8) (fun _ => 0) none [[1]]).iov = [[0]] ∧
      ¬ ScattersAll 8 1 none [[1]] (pthReadvFaked (some 8) (fun _ => 0) none [[1]]) := by
  have hpassed : (pthWritevFaked (some 8) (fun _ => 0) [[1], [2]]).passed = some [2, 0] := by
    decide +kernel
  have hiov : (pthReadvFaked (some 8) (fun _ => 0) none [[1]]).iov = [[0]] := by
    decide +kernel
  refine ⟨hpassed, fun h => ?_, hiov, fun h => ?_⟩
  · have := h.1
    rw [hpassed] at this
    cases this
  · have := h.2.2.1
    rw [hiov] at this
    cases this

end Ngpt.Faked
