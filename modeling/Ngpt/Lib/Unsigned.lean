import Mathlib.Algebra.Group.Nat.Defs

/-!
# Unsigned counters

Increment and decrement of a C `unsigned` counter of 32 bits, and the arithmetic
of a counter that stands for a number of things.
-/

namespace Unsigned

/-- The number of values of the type. It is irreducible so that no proof counts up
to it. -/
@[irreducible] def range : Nat := 2 ^ 32

def incr (n : Nat) : Nat := if n + 1 = range then 0 else n + 1

def decr (n : Nat) : Nat := if n = 0 then range - 1 else n - 1

theorem one_lt_range : 1 < range := by
  unfold range
  decide

theorem incr_ne (n : Nat) : incr n ≠ n := by
  have hrange := one_lt_range
  unfold incr
  split <;> omega

theorem incr_mod (n : Nat) : incr (n % range) = (n + 1) % range := by
  simp only [incr, range]
  split <;> omega

theorem decr_mod {n : Nat} (hn : 1 ≤ n) : decr (n % range) = (n - 1) % range := by
  simp only [decr, range]
  split <;> omega

theorem decr_lt {n : Nat} (hn : n < range) : decr n < range := by
  unfold decr
  split <;> omega

theorem decr_succ_mod (n : Nat) : (decr n + 1) % range = n % range := by
  simp only [decr, range]
  split <;> omega

theorem incr_of_lt {n : Nat} (hn : n + 1 < range) : incr n = n + 1 := by
  unfold incr
  rw [if_neg (Nat.ne_of_lt hn)]

theorem decr_of_pos {n : Nat} (hn : 1 ≤ n) : decr n = n - 1 := by
  unfold decr
  rw [if_neg (by omega)]

end Unsigned
