import Mathlib.Algebra.BigOperators.Group.Finset.Piecewise
import Mathlib.Algebra.Order.BigOperators.Group.Finset

/-!
# Counting clients

Finitely many clients, each at one place. The number of clients at places of a kind
changes with the moves of single clients.
-/

namespace Ngpt.Count

variable {α β : Type} [Fintype α] (place : α → β) (f : β → Nat)

/-- The sum of the weights of the places. -/
def total : Nat := ∑ a, f (place a)

theorem total_update [DecidableEq α] (a : α) (b : β) :
    total (Function.update place a b) f + f (place a) = total place f + f b := by
  have hnew : total (Function.update place a b) f =
      f b + ∑ c ∈ Finset.univ.erase a, f (place c) := by
    have hfun : (fun c => f (Function.update place a b c)) =
        Function.update (fun c => f (place c)) a (f b) := by
      funext c
      by_cases hc : c = a <;> simp [hc]
    rw [total, hfun, Finset.sum_update_of_mem (Finset.mem_univ a),
      Finset.sdiff_singleton_eq_erase]
  have hold : total place f = f (place a) + ∑ c ∈ Finset.univ.erase a, f (place c) :=
    (Finset.add_sum_erase Finset.univ (fun c => f (place c)) (Finset.mem_univ a)).symm
  omega

variable {place f}

theorem le_total [DecidableEq α] (a : α) : f (place a) ≤ total place f := by
  have hsplit : f (place a) + ∑ c ∈ Finset.univ.erase a, f (place c) = total place f :=
    Finset.add_sum_erase Finset.univ (fun c => f (place c)) (Finset.mem_univ a)
  omega

theorem total_eq_zero (h : ∀ a, f (place a) = 0) : total place f = 0 :=
  Finset.sum_eq_zero fun a _ => h a

theorem total_le_card (h : ∀ b, f b ≤ 1) : total place f ≤ Fintype.card α := by
  have hle := Finset.sum_le_card_nsmul Finset.univ (fun a => f (place a)) 1
    (fun a _ => h (place a))
  simpa [total, Finset.card_univ] using hle

end Ngpt.Count
