import Ngpt.Lib.WordMemory
import Mathlib.Data.List.Perm.Subperm

/-!
# Objects in an address space

Objects of one size lie in a bounded address space, no two of them overlapping. There
are no more of them than fit (`Placement.length_mul_le`), so that a counter as wide as an
address counts them exactly.
-/

namespace WordMemory

/-- Where the objects are: `size` bytes each, in an address space of `space` bytes. -/
structure Placement (α : Type) (space size : Nat) where
  base   : α → Nat
  inside : ∀ a, base a + size ≤ space
  apart  : ∀ a b, a ≠ b → Span.Apart ⟨base a, size⟩ ⟨base b, size⟩

namespace Placement

variable {α : Type} {space size : Nat}

theorem div_inj (P : Placement α space size) (hsize : 0 < size) {a b : α}
    (h : P.base a / size = P.base b / size) : a = b := by
  by_contra hne
  have ha := Nat.div_add_mod (P.base a) size
  have hb := Nat.div_add_mod (P.base b) size
  have hma := Nat.mod_lt (P.base a) hsize
  have hmb := Nat.mod_lt (P.base b) hsize
  rw [h] at ha
  rcases P.apart a b hne with hab | hab
  · simp only at hab
    omega
  · simp only at hab
    omega

theorem div_lt (P : Placement α space size) (hsize : 0 < size) (a : α) :
    P.base a / size < space / size := by
  have hle : (P.base a + size) / size ≤ space / size := Nat.div_le_div_right (P.inside a)
  rw [Nat.add_div_right _ hsize] at hle
  omega

theorem length_mul_le (P : Placement α space size) (hsize : 0 < size) {xs : List α}
    (hxs : xs.Nodup) :
    xs.length * size ≤ space := by
  have hnodup : (xs.map fun a => P.base a / size).Nodup :=
    hxs.map_on fun a _ b _ h => P.div_inj hsize h
  have hsubset : (xs.map fun a => P.base a / size) ⊆ List.range (space / size) := by
    intro i hi
    obtain ⟨a, -, rfl⟩ := List.mem_map.mp hi
    exact List.mem_range.mpr (P.div_lt hsize a)
  have hlength := (List.subperm_of_subset hnodup hsubset).length_le
  rw [List.length_map, List.length_range] at hlength
  exact (Nat.mul_le_mul_right size hlength).trans (Nat.div_mul_le_self space size)

end Placement

end WordMemory
