import Mathlib.Algebra.GroupWithZero.Nat
import Mathlib.Logic.Function.Basic

/-!
# ngpt — the working vector of `pth_writev_ev` (`pth_writev_iov_advance`, `pth_high.c`)

The function moves `liov` and `liovcnt` on by a number of bytes. At first they are the caller's
vector; the first time that bytes are passed over, the entries are copied to the static vector
`siov`, and from then on only the copy is changed. `riov` and `siov` are arrays that `liov` may
point into.

Result: `advance_drops`.
-/

namespace Ngpt.Writev

open Function

/-- `iov_base` points to offset `off` of a buffer. -/
structure Iovec where
  buf : Nat
  off : Nat
  len : Nat
  deriving DecidableEq, Repr

/-- A `struct iovec *`. -/
inductive Ptr where
  | null
  | riov (i : Nat)
  | siov (i : Nat)
  deriving DecidableEq, Repr

/-- The two arrays, `*liov` and `*liovcnt`. -/
structure Vec where
  riov    : Nat → Iovec
  siov    : Nat → Iovec
  liov    : Ptr
  liovcnt : Nat

/-- `UIO_MAXIOV`, the entries of `siov`. -/
def uioMaxiov : Nat := 1024

namespace Vec

def load (v : Vec) : Ptr → Iovec
  | .null => ⟨0, 0, 0⟩
  | .riov i => v.riov i
  | .siov i => v.siov i

def store (v : Vec) (x : Iovec) : Ptr → Vec
  | .null => v
  | .riov i => { v with riov := update v.riov i x }
  | .siov i => { v with siov := update v.siov i x }

end Vec

/-- `p + n` for a pointer into an array. -/
def Ptr.add : Ptr → Nat → Ptr
  | .null, _ => .null
  | .riov i, n => .riov (i + n)
  | .siov i, n => .siov (i + n)

/-- The `while` loop, which takes one of `cnt` entries in each round. -/
def skip : Nat → Nat → Vec → Vec
  | 0, _, v => v
  | cnt + 1, advance, v =>
    if advance = 0 then v
    else
      let x := v.load v.liov
      if x.len > advance then
        v.store { x with off := x.off + advance, len := x.len - advance } v.liov
      else skip cnt (advance - x.len) { v with liovcnt := cnt, liov := v.liov.add 1 }

def pthWritevIovAdvance (riovcnt advance : Nat) (v : Vec) : Vec :=
  let v :=
    if v.liov = .null ∧ v.liovcnt = 0 then { v with liov := .riov 0, liovcnt := riovcnt } else v
  if advance > 0 then
    let v :=
      if v.liov = .riov 0 ∧ v.liovcnt = riovcnt then
        { v with liov := .siov 0, siov := fun i => if i < riovcnt then v.riov i else v.siov i }
      else v
    skip v.liovcnt advance v
  else v

/-- The calls: the first one with `advance` 0, then the others. -/
def advances (riovcnt : Nat) (v : Vec) (as : List Nat) : Vec :=
  as.foldl (fun v a => pthWritevIovAdvance riovcnt a v) (pthWritevIovAdvance riovcnt 0 v)

/-- The bytes of a buffer that an entry is about. -/
def Iovec.bytes (x : Iovec) : List (Nat × Nat) := (List.range x.len).map fun i => (x.buf, x.off + i)

/-- The bytes of `cnt` entries from entry `i` on. -/
def gathered (x : Nat → Iovec) : Nat → Nat → List (Nat × Nat)
  | _, 0 => []
  | i, cnt + 1 => (x i).bytes ++ gathered x (i + 1) cnt

/-- What `liov` and `liovcnt` denote. -/
def Vec.denotes (v : Vec) : List (Nat × Nat) :=
  match v.liov with
  | .null => []
  | .riov i => gathered v.riov i v.liovcnt
  | .siov i => gathered v.siov i v.liovcnt

/-- `n` bytes of the caller's vector have been passed over. -/
structure Advanced (x : Nat → Iovec) (riovcnt n : Nat) (v : Vec) : Prop where
  riov    : v.riov = x
  denotes : v.denotes = (gathered x 0 riovcnt).drop n
  liov    : v.liov = .riov 0 ∧ v.liovcnt = riovcnt ∨ ∃ i, v.liov = .siov i ∧ i + v.liovcnt = riovcnt

variable {x y : Nat → Iovec} {riovcnt n : Nat} {v : Vec}

theorem Iovec.length_bytes (x : Iovec) : x.bytes.length = x.len := by
  simp [Iovec.bytes]

theorem Iovec.bytes_advance (x : Iovec) (k : Nat) :
    Iovec.bytes { x with off := x.off + k, len := x.len - k } = x.bytes.drop k := by
  refine List.ext_getElem (by simp [Iovec.bytes]) fun i _ _ => ?_
  simp [Iovec.bytes, Nat.add_assoc]

theorem gathered_congr {i cnt : Nat} (h : ∀ j, i ≤ j → j < i + cnt → x j = y j) :
    gathered x i cnt = gathered y i cnt := by
  induction cnt generalizing i with
  | zero => rfl
  | succ cnt ih =>
    rw [gathered, gathered, h i (Nat.le_refl i) (by omega),
      ih fun j hj hlt => h j (by omega) (by omega)]

/-- **The loop**, in the static vector. -/
theorem skip_spec (cnt : Nat) {a i : Nat} (hliov : v.liov = .siov i) (hcnt : v.liovcnt = cnt) :
    (skip cnt a v).riov = v.riov ∧ (skip cnt a v).denotes = (gathered v.siov i cnt).drop a ∧
      ∃ j, (skip cnt a v).liov = .siov j ∧ j + (skip cnt a v).liovcnt = i + cnt := by
  induction cnt generalizing a i v with
  | zero =>
    exact ⟨rfl, by simp [skip, Vec.denotes, hliov, hcnt, gathered], i, hliov, by simp [skip, hcnt]⟩
  | succ cnt ih =>
    unfold skip
    simp only [hliov, Vec.load, gathered]
    split
    case isTrue ha =>
      exact ⟨rfl, by simp [Vec.denotes, hliov, hcnt, ha, gathered], i, hliov, by rw [hcnt]⟩
    case isFalse ha =>
      split
      case isTrue hlen =>
        -- the rest of the entry, and the entries after it as they are
        refine ⟨rfl, ?_, i, hliov, congrArg (i + ·) hcnt⟩
        rw [List.drop_append_of_le_length (by rw [Iovec.length_bytes]; omega),
          ← Iovec.bytes_advance]
        simp only [Vec.denotes, Vec.store, hliov, hcnt, gathered, update_self]
        rw [gathered_congr fun j hj _ => update_of_ne (by omega) _ _]
      case isFalse hlen =>
        obtain ⟨hriov, hdenotes, j, hj, hend⟩ := ih
          (v := { v with liovcnt := cnt, liov := .siov (i + 1) }) rfl rfl
        have hnil : (v.siov i).bytes.drop a = [] :=
          List.drop_eq_nil_of_le (by rw [Iovec.length_bytes]; omega)
        refine ⟨hriov, hdenotes.trans ?_, j, hj, hend.trans (by omega)⟩
        rw [List.drop_append, hnil, Iovec.length_bytes, List.nil_append]

/-- **One call.** The first one that passes over bytes makes the copy. -/
theorem Advanced.advance (h : Advanced x riovcnt n v) (a : Nat) :
    Advanced x riovcnt (n + a) (pthWritevIovAdvance riovcnt a v) := by
  have hnull : ¬ (v.liov = .null ∧ v.liovcnt = 0) := by
    rcases h.liov with ⟨hl, -⟩ | ⟨i, hl, -⟩ <;> simp [hl]
  simp only [pthWritevIovAdvance, hnull, if_false]
  split
  case isFalse ha =>
    obtain rfl : a = 0 := by omega
    exact h
  case isTrue ha =>
    rcases h.liov with hl | ⟨i, hl, hcnt⟩
    · have hdenotes : gathered x 0 riovcnt = (gathered x 0 riovcnt).drop n := by
        rw [← h.denotes, Vec.denotes, hl.1, ← h.riov, hl.2]
      simp only [hl, and_self, if_true]
      obtain ⟨hriov, hskip, j, hj, hend⟩ := skip_spec riovcnt
        (v := { v with
          liov := .siov 0, liovcnt := riovcnt
          siov := fun i => if i < riovcnt then v.riov i else v.siov i }) rfl rfl
      refine ⟨hriov.trans h.riov, hskip.trans ?_, Or.inr ⟨j, hj, by omega⟩⟩
      rw [gathered_congr (y := x) fun j _ hj => by simp [show j < riovcnt by omega, h.riov],
        ← List.drop_drop, ← hdenotes]
    · have hne : ¬ (v.liov = .riov 0 ∧ v.liovcnt = riovcnt) := by simp [hl]
      simp only [hne, if_false]
      obtain ⟨hriov, hskip, j, hj, hend⟩ := skip_spec v.liovcnt hl rfl
      refine ⟨hriov.trans h.riov, hskip.trans ?_, Or.inr ⟨j, hj, by omega⟩⟩
      rw [← List.drop_drop, ← h.denotes, Vec.denotes, hl]

/-- After any calls `liov` denotes the rest of the caller's bytes, points into the vector of the
caller or into `siov`, and the caller's entries are as they were. -/
theorem advance_drops (x siov : Nat → Iovec) (riovcnt : Nat) (hcnt : riovcnt ≤ uioMaxiov)
    (as : List Nat) :
    (advances riovcnt ⟨x, siov, .null, 0⟩ as).denotes = (gathered x 0 riovcnt).drop as.sum ∧
      (advances riovcnt ⟨x, siov, .null, 0⟩ as).riov = x ∧
      ∀ i, (advances riovcnt ⟨x, siov, .null, 0⟩ as).liov = .siov i →
        i + (advances riovcnt ⟨x, siov, .null, 0⟩ as).liovcnt ≤ uioMaxiov := by
  have hrun : ∀ (as : List Nat) (n : Nat) (v : Vec), Advanced x riovcnt n v →
      Advanced x riovcnt (n + as.sum)
        (as.foldl (fun v a => pthWritevIovAdvance riovcnt a v) v) := by
    intro as
    induction as with
    | nil => exact fun _ _ h => h
    | cons a as ih =>
      intro n v h
      rw [List.sum_cons, ← Nat.add_assoc]
      exact ih _ _ (h.advance a)
  have h := hrun as 0 (pthWritevIovAdvance riovcnt 0 ⟨x, siov, .null, 0⟩)
    ⟨rfl, rfl, Or.inl ⟨rfl, rfl⟩⟩
  rw [Nat.zero_add] at h
  refine ⟨h.denotes, h.riov, fun i hi => ?_⟩
  rcases h.liov with ⟨hl, -⟩ | ⟨j, hj, hend⟩
  · cases hl.symm.trans hi
  · cases hj.symm.trans hi
    exact Nat.le_trans (Nat.le_of_eq hend) hcnt

/-- Buffers of 2, 0 and 3 bytes after 1 and 2 bytes more. -/
theorem advance_drops_three :
    (advances 3 ⟨fun i => ⟨i, 0, [2, 0, 3].getD i 0⟩, fun _ => ⟨0, 0, 0⟩, .null, 0⟩
      [1, 2]).denotes =
      [(2, 1), (2, 2)] :=
  (advance_drops _ _ 3 (by decide) [1, 2]).1.trans (by decide)

end Ngpt.Writev
