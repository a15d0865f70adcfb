import Mathlib.Algebra.Group.Nat.Defs
import Ngpt.Queue.Bitmap

/-!
# ngpt — the search for the most significant bit on other machines (`sysdeps`)

`find_first_ms_bit` is one instruction on the i386 (`findFirstMsBit`). The powerpc counts leading
zeros with `cntlzw`, and the s390 halves the word in five stages, each a `tmh` (test under mask of
the upper halfword), an `sll` and an `ahi`. The instructions are modelled as they are documented.

Result: `findFirstMsBit_iff`.
-/

namespace Ngpt.Queue

inductive Arch where
  | i386 | powerpc | s390
  deriving DecidableEq, Repr

/-- The zeros above the first one of the lower `n` bits. -/
def leadingZeros (w : BitVec 32) : Nat → Nat
  | 0 => 0
  | n + 1 => if w.getLsbD n then 0 else leadingZeros w n + 1

def cntlzw (w : BitVec 32) : Nat := leadingZeros w 32

/-- `tmh`: one of the bits of the upper halfword that the mask selects is set. -/
def tmh (w : BitVec 32) (mask : Nat) : Bool :=
  (List.range 16).any fun i => mask.testBit i && w.getLsbD (16 + i)

/-- A stage: `jz` leaves the word `s.1` and the result `s.2` alone. -/
def stage (mask n : Nat) (s : BitVec 32 × Int) : BitVec 32 × Int :=
  if tmh s.1 mask then (s.1 <<< n, s.2 - n) else s

def findFirstMsBitS390 (w : BitVec 32) : Int :=
  if w = 0 then 0
  else
    let s := stage 0xc000 2 (stage 0xf000 4 (stage 0xff00 8 (stage 0xffff 16 (w, 32))))
    if tmh s.1 0x8000 then s.2 - 1 else s.2

def findFirstMsBitOn : Arch → BitVec 32 → Int
  | .i386, w => findFirstMsBit w
  | .powerpc, w => 32 - cntlzw w
  | .s390, w => findFirstMsBitS390 w

variable {w : BitVec 32}

theorem leadingZeros_eq (hw : w.toNat ≠ 0) (n : Nat) (hn : w.toNat < 2 ^ n) :
    leadingZeros w n + w.toNat.log2 + 1 = n := by
  induction n with
  | zero => omega
  | succ n ih =>
    unfold leadingZeros
    split
    case isTrue hbit =>
      rw [← BitVec.testBit_toNat] at hbit
      have hlow := (Nat.le_log2 hw).mpr (Nat.ge_two_pow_of_testBit hbit)
      have hhigh := (Nat.log2_lt hw).mpr hn
      omega
    case isFalse hbit =>
      rw [← BitVec.testBit_toNat, Bool.not_eq_true] at hbit
      have hlt : w.toNat < 2 ^ n := by
        refine Nat.lt_pow_two_of_testBit _ fun i hi => ?_
        rcases Nat.eq_or_lt_of_le hi with rfl | hi
        · exact hbit
        · exact Nat.testBit_lt_two_pow
            (Nat.lt_of_lt_of_le hn (Nat.pow_le_pow_right (by decide) hi))
      have := ih hlt
      omega

/-- The masks of the stages select the upper `k` bits of the word. -/
theorem tmh_eq_false {m k : Nat} (hk : k ≤ 16)
    (hmask : ∀ i < 16, m.testBit i = decide (16 - k ≤ i)) :
    tmh w m = false ↔ w.toNat < 2 ^ (32 - k) := by
  simp only [tmh, List.any_eq_false, List.mem_range, Bool.and_eq_true, not_and, Bool.not_eq_true]
  constructor
  · intro h
    refine Nat.lt_pow_two_of_testBit _ fun i hi => ?_
    by_cases h32 : i < 32
    · have := h (i - 16) (by omega) (by rw [hmask _ (by omega)]; simp; omega)
      rwa [show 16 + (i - 16) = i by omega, ← BitVec.testBit_toNat] at this
    · exact Nat.testBit_lt_two_pow (Nat.lt_of_lt_of_le w.isLt
        (Nat.pow_le_pow_right (by decide) (by omega)))
  · intro h i hi hbit
    rw [hmask i hi, decide_eq_true_iff] at hbit
    rw [← BitVec.testBit_toNat]
    exact Nat.testBit_lt_two_pow (Nat.lt_of_lt_of_le h
      (Nat.pow_le_pow_right (by decide) (by omega)))

theorem stage_le (mask n : Nat) (s : BitVec 32 × Int) : (stage mask n s).2 ≤ s.2 := by
  unfold stage
  split
  · show s.2 - n ≤ s.2
    omega
  · exact le_rfl

/-- A word whose upper byte is 0 passes the last four stages. -/
theorem stages_skipped {r : Int} (h : w.toNat < 2 ^ 24) :
    stage 0xc000 2 (stage 0xf000 4 (stage 0xff00 8 (w, r))) = (w, r) ∧ tmh w 0x8000 = false := by
  have h8 : tmh w 0xff00 = false := (tmh_eq_false (k := 8) (by decide) (by decide)).mpr h
  have h4 : tmh w 0xf000 = false := (tmh_eq_false (k := 4) (by decide) (by decide)).mpr (by omega)
  have h2 : tmh w 0xc000 = false := (tmh_eq_false (k := 2) (by decide) (by decide)).mpr (by omega)
  have h1 : tmh w 0x8000 = false := (tmh_eq_false (k := 1) (by decide) (by decide)).mpr (by omega)
  simp [stage, h8, h4, h2, h1]

/-- The s390 shifts where the bits are, and not where they are missing. -/
theorem findFirstMsBitS390_cases (hw : w ≠ 0) :
    if w.toNat < 2 ^ 16 then findFirstMsBitS390 w = 32
    else if w.toNat % 2 ^ 16 < 2 ^ 8 then findFirstMsBitS390 w = 16
    else findFirstMsBitS390 w ≤ 8 := by
  have hhigh := tmh_eq_false (w := w) (m := 0xffff) (k := 16) (by decide) (by decide)
  simp only [findFirstMsBitS390, if_neg hw]
  split
  case isTrue h =>
    have hfirst : stage 0xffff 16 (w, 32) = (w, 32) := by simp [stage, hhigh.mpr h]
    obtain ⟨hs, ht⟩ := stages_skipped (w := w) (r := 32) (by omega)
    simp [hfirst, hs, ht]
  case isFalse h =>
    have hfirst : stage 0xffff 16 (w, 32) = (w <<< 16, 16) := by
      have hset : tmh w 0xffff = true := by simpa using mt hhigh.mp h
      simp [stage, hset]
    have hlow : (w <<< 16).toNat = w.toNat % 2 ^ 16 * 2 ^ 16 := by
      rw [BitVec.toNat_shiftLeft, Nat.shiftLeft_eq]
      omega
    rw [hfirst]
    split
    case isTrue hbyte =>
      obtain ⟨hs, ht⟩ := stages_skipped (w := w <<< 16) (r := 16) (by omega)
      simp [hs, ht]
    case isFalse hbyte =>
      have hset : tmh (w <<< 16) 0xff00 = true := by
        have := tmh_eq_false (w := w <<< 16) (m := 0xff00) (k := 8) (by decide) (by decide)
        simpa using mt this.mp (by omega)
      have hsecond : (stage 0xff00 8 (w <<< 16, 16)).2 = 8 := by simp [stage, hset]
      have h₄ := stage_le 0xf000 4 (stage 0xff00 8 (w <<< 16, 16))
      have h₂ := stage_le 0xc000 2 (stage 0xf000 4 (stage 0xff00 8 (w <<< 16, 16)))
      split <;> omega

/-- The three versions agree nowhere: the powerpc is one too high. -/
theorem findFirstMsBit_iff (arch : Arch) (w : BitVec 32) (hw : w ≠ 0) :
    findFirstMsBitOn arch w = w.toNat.log2 ↔
      arch = .i386 ∨ arch = .s390 ∧ 2 ^ 16 ≤ w.toNat ∧ w.toNat < 2 ^ 16 + 2 ^ 8 := by
  have hne : w.toNat ≠ 0 := fun h => hw (BitVec.eq_of_toNat_eq (by simpa using h))
  have hlt : w.toNat.log2 < 32 := (Nat.log2_lt hne).mpr w.isLt
  cases arch with
  | i386 => simp [findFirstMsBitOn, findFirstMsBit]
  | powerpc =>
    have hzeros := leadingZeros_eq hne 32 w.isLt
    simp only [findFirstMsBitOn, cntlzw, reduceCtorEq, false_and, or_self, iff_false]
    omega
  | s390 =>
    have hcases := findFirstMsBitS390_cases hw
    have hlow : 16 ≤ w.toNat.log2 ↔ 2 ^ 16 ≤ w.toNat := Nat.le_log2 hne
    have hhigh : w.toNat.log2 < 17 ↔ w.toNat < 2 ^ 17 := Nat.log2_lt hne
    simp only [findFirstMsBitOn, reduceCtorEq, true_and, false_or]
    split at hcases
    case isTrue => omega
    case isFalse => split at hcases <;> omega

/-- The i386, and the s390 at 2^16. -/
theorem findFirstMsBit_iff_powers :
    findFirstMsBitOn .i386 1 = 0 ∧ findFirstMsBitOn .s390 0x10000 = 16 :=
  ⟨(findFirstMsBit_iff .i386 1 (by decide)).mpr (Or.inl rfl),
    (findFirstMsBit_iff .s390 0x10000 (by decide)).mpr (Or.inr (by decide))⟩

/-- The word 1 on the other two. -/
theorem findFirstMsBit_differs :
    findFirstMsBitOn .powerpc 1 = 1 ∧ findFirstMsBitOn .s390 1 = 32 := by
  decide

end Ngpt.Queue
