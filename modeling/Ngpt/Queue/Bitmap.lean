import Mathlib.Logic.Function.Basic
import Mathlib.Order.Bounds.Basic

/-!
# ngpt — the priority bitmap (`bitmap.h`)

A run queue keeps one bit per priority level so that the highest non-empty
level is found without walking the levels. The bits live in an array of 32-bit
`unsigned long`s; the bit operations are the i386 ones (`bts`, `btr`, `bsr`).

The result the run queue rests on is `scanSlots_isGreatest`: the scan
from slot 4 down to slot 0 finds the greatest bit set, provided that one of the
160 bits is.
-/

namespace Ngpt.Queue

/-- `BITMAP_BASE_BITSIZE`: bits of one slot. -/
def bitmapBaseBitsize : Nat := 32

/-- `BITMAP_BITS`: the bits the scan covers. -/
def bitmapBits : Nat := 160

/-- `struct bitmap_st`; bit `b` is bit `b % 32` of `slot[b / 32]`. -/
structure Bitmap where
  slot : Nat → BitVec 32

/-- `bitmap_zero`. -/
def bitmapZero : Bitmap := ⟨fun _ => 0⟩

/-- Bit `b` of a bitmap. -/
def Bitmap.test (m : Bitmap) (b : Nat) : Bool :=
  (m.slot (b / bitmapBaseBitsize)).getLsbD (b % bitmapBaseBitsize)

/-- `bitmap_set_bit`. -/
def bitmapSetBit (m : Bitmap) (b : Nat) : Bitmap :=
  ⟨Function.update m.slot (b / bitmapBaseBitsize)
    (m.slot (b / bitmapBaseBitsize) ||| BitVec.twoPow 32 (b % bitmapBaseBitsize))⟩

/-- `bitmap_reset_bit`. -/
def bitmapResetBit (m : Bitmap) (b : Nat) : Bitmap :=
  ⟨Function.update m.slot (b / bitmapBaseBitsize)
    (m.slot (b / bitmapBaseBitsize) &&& ~~~(BitVec.twoPow 32 (b % bitmapBaseBitsize)))⟩

/-- `find_first_ms_bit`, the `bsr` instruction: the index of the most
significant bit set. The instruction leaves its result undefined on 0; no
caller that finds a node passes 0. -/
def findFirstMsBit (w : BitVec 32) : Nat := w.toNat.log2

/-- `bitmap_ffms_bit_set` over a given `find_first_ms_bit`: the slots are scanned from 4 down;
slot 0 is not tested. -/
def scanSlots (ffms : BitVec 32 → Nat) (m : Bitmap) : Nat :=
  if m.slot 4 ≠ 0 then ffms (m.slot 4) + 4 * bitmapBaseBitsize
  else if m.slot 3 ≠ 0 then ffms (m.slot 3) + 3 * bitmapBaseBitsize
  else if m.slot 2 ≠ 0 then ffms (m.slot 2) + 2 * bitmapBaseBitsize
  else if m.slot 1 ≠ 0 then ffms (m.slot 1) + 1 * bitmapBaseBitsize
  else ffms (m.slot 0)

/-- `bitmap_ffms_bit_set`. -/
def bitmapFfmsBitSet (m : Bitmap) : Nat := scanSlots findFirstMsBit m

/-! ## Single bits -/

@[simp] theorem bitmapZero_test (b : Nat) : bitmapZero.test b = false := by
  simp [bitmapZero, Bitmap.test]

theorem bit_eq_iff {a b : Nat} :
    a = b ↔ a / bitmapBaseBitsize = b / bitmapBaseBitsize ∧
      a % bitmapBaseBitsize = b % bitmapBaseBitsize := by
  unfold bitmapBaseBitsize
  omega

@[simp] theorem bitmapSetBit_test (m : Bitmap) (a b : Nat) :
    (bitmapSetBit m a).test b = (decide (b = a) || m.test b) := by
  have hlt' : a % bitmapBaseBitsize < 32 := Nat.mod_lt _ (by decide)
  simp only [bitmapSetBit, Bitmap.test, Function.update_apply, bit_eq_iff (a := b)]
  by_cases hslot : b / bitmapBaseBitsize = a / bitmapBaseBitsize
  · simp [hslot, hlt', Bool.or_comm, eq_comm]
  · simp [hslot]

@[simp] theorem bitmapResetBit_test (m : Bitmap) (a b : Nat) :
    (bitmapResetBit m a).test b = (!decide (b = a) && m.test b) := by
  have hlt : b % bitmapBaseBitsize < 32 := Nat.mod_lt _ (by decide)
  simp only [bitmapResetBit, Bitmap.test, Function.update_apply, bit_eq_iff (a := b)]
  by_cases hslot : b / bitmapBaseBitsize = a / bitmapBaseBitsize
  · simp [hslot, hlt, Bool.and_comm, eq_comm]
  · simp [hslot]

/-! ## The scan -/

theorem findFirstMsBit_lt (w : BitVec 32) : findFirstMsBit w < 32 := by
  by_cases hw : w = 0
  · subst hw
    decide
  · have hne : w.toNat ≠ 0 := fun h => hw (BitVec.eq_of_toNat_eq (by simpa using h))
    exact (Nat.log2_lt hne).mpr w.isLt

theorem findFirstMsBit_spec {w : BitVec 32} (hw : w ≠ 0) :
    w.getLsbD (findFirstMsBit w) = true ∧
      ∀ i, w.getLsbD i = true → i ≤ findFirstMsBit w := by
  have hne : w.toNat ≠ 0 := fun h => hw (BitVec.eq_of_toNat_eq (by simpa using h))
  refine ⟨?_, fun i hi => ?_⟩
  · rw [← BitVec.testBit_toNat]
    exact Nat.testBit_log2 hne
  · rw [← BitVec.testBit_toNat] at hi
    exact (Nat.le_log2 hne).mpr (Nat.ge_two_pow_of_testBit hi)

theorem isGreatest_of_slot {m : Bitmap} {k : Nat} (hk : k < 5) (hslot : m.slot k ≠ 0)
    (hHigh : ∀ j, k < j → j < 5 → m.slot j = 0) :
    IsGreatest {b | b < bitmapBits ∧ m.test b = true}
      (findFirstMsBit (m.slot k) + k * bitmapBaseBitsize) := by
  obtain ⟨hset, hmax⟩ := findFirstMsBit_spec hslot
  have hlt := findFirstMsBit_lt (m.slot k)
  have hdiv : (findFirstMsBit (m.slot k) + k * bitmapBaseBitsize) / bitmapBaseBitsize = k := by
    unfold bitmapBaseBitsize
    omega
  have hmod : (findFirstMsBit (m.slot k) + k * bitmapBaseBitsize) % bitmapBaseBitsize =
      findFirstMsBit (m.slot k) := by
    unfold bitmapBaseBitsize
    omega
  refine ⟨⟨?_, ?_⟩, fun b ⟨hb, htest⟩ => ?_⟩
  · unfold bitmapBaseBitsize bitmapBits
    omega
  · rw [Bitmap.test, hdiv, hmod]
    exact hset
  · -- a set bit lies in no higher slot, and in this slot not above the bit found
    rw [Bitmap.test] at htest
    by_cases hj : k < b / bitmapBaseBitsize
    · have hz : m.slot (b / bitmapBaseBitsize) = 0 := by
        refine hHigh _ hj ?_
        unfold bitmapBaseBitsize bitmapBits at *
        omega
      simp [hz] at htest
    · by_cases hjk : b / bitmapBaseBitsize = k
      · rw [hjk] at htest
        have := hmax _ htest
        unfold bitmapBaseBitsize at *
        omega
      · unfold bitmapBaseBitsize at *
        omega

theorem scanSlots_isGreatest {ffms : BitVec 32 → Nat}
    (hffms : ∀ w, w ≠ 0 → ffms w = w.toNat.log2) {m : Bitmap} {b : Nat} (hb : b < bitmapBits)
    (htest : m.test b = true) :
    IsGreatest {b | b < bitmapBits ∧ m.test b = true} (scanSlots ffms m) := by
  have hfound : ∀ k < 5, m.slot k ≠ 0 → (∀ j, k < j → j < 5 → m.slot j = 0) →
      IsGreatest {b | b < bitmapBits ∧ m.test b = true}
        (ffms (m.slot k) + k * bitmapBaseBitsize) := by
    intro k hk hslot hhigh
    rw [hffms _ hslot]
    exact isGreatest_of_slot hk hslot hhigh
  unfold scanSlots
  split_ifs with h4 h3 h2 h1
  · exact hfound 4 (by omega) h4 (fun j _ _ => by omega)
  · exact hfound 3 (by omega) h3 (fun j _ _ => by
      obtain rfl : j = 4 := by omega
      simpa using h4)
  · exact hfound 2 (by omega) h2 (fun j _ _ => by
      obtain rfl | rfl : j = 3 ∨ j = 4 := by omega
      · simpa using h3
      · simpa using h4)
  · exact hfound 1 (by omega) h1 (fun j _ _ => by
      obtain rfl | rfl | rfl : j = 2 ∨ j = 3 ∨ j = 4 := by omega
      · simpa using h2
      · simpa using h3
      · simpa using h4)
  · -- the bit given must be in slot 0
    push Not at h1 h2 h3 h4
    have hzero : ∀ j, 0 < j → j < 5 → m.slot j = 0 := by
      intro j h0 h5
      obtain rfl | rfl | rfl | rfl : j = 1 ∨ j = 2 ∨ j = 3 ∨ j = 4 := by omega
      all_goals assumption
    have h0 : m.slot 0 ≠ 0 := by
      intro h0
      have hz : m.slot (b / bitmapBaseBitsize) = 0 := by
        rcases Nat.eq_zero_or_pos (b / bitmapBaseBitsize) with hd | hd
        · rw [hd, h0]
        · refine hzero _ hd ?_
          unfold bitmapBaseBitsize bitmapBits at *
          omega
      simp [Bitmap.test, hz] at htest
    simpa using hfound 0 (by omega) h0 hzero

theorem bitmapFfmsBitSet_isGreatest {m : Bitmap} {b : Nat} (hb : b < bitmapBits)
    (htest : m.test b = true) :
    IsGreatest {b | b < bitmapBits ∧ m.test b = true} (bitmapFfmsBitSet m) :=
  scanSlots_isGreatest (fun _ _ => rfl) hb htest

end Ngpt.Queue
