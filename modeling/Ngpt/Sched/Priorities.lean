import Ngpt.Queue.Pqueue

/-!
# ngpt — priorities (`priorities.h`)

External priorities are those of POSIX, for each policy; internal ones are all policies on
one scale, which is that of the levels of the run queues. A thread keeps its internal
priority in eight bits and its policy in two.
-/

namespace Ngpt.Sched

open Ngpt.Queue

/-- `SCHED_OTHER`, `SCHED_FIFO` and `SCHED_RR`. -/
def schedOther : Int := 0
def schedFifo : Int := 1
def schedRr : Int := 2

/-- `struct priority_bounds_s`. -/
structure PriorityBounds where
  min : Int
  max : Int
  deriving DecidableEq, Repr

/-- `priority_bounds`, for the policies that there are. -/
def priorityBounds (schedPolicy : Int) : Option PriorityBounds :=
  if schedPolicy = schedOther then some ⟨0, 41⟩
  else if schedPolicy = schedFifo then some ⟨1, 99⟩
  else if schedPolicy = schedRr then some ⟨1, 99⟩
  else none

def xprioGetMin (schedPolicy : Int) : Int :=
  match priorityBounds schedPolicy with
  | some b => b.min
  | none => -1

def xprioGetMax (schedPolicy : Int) : Int :=
  match priorityBounds schedPolicy with
  | some b => b.max
  | none => -1

/-- `xprio_to_iprio`; `priority_bounds[SCHED_OTHER].max` is 41. -/
def xprioToIprio (schedPolicy externalPrio : Int) : Int :=
  if schedPolicy = schedOther then externalPrio
  else if schedPolicy = schedFifo ∨ schedPolicy = schedRr then externalPrio + 41
  else -1

/-- `prio_validate` returns 0. -/
def prioValidate (schedPolicy externalPrio : Int) : Bool :=
  decide (xprioGetMin schedPolicy ≤ externalPrio ∧ externalPrio ≤ xprioGetMax schedPolicy)

/-- `thread->priority`: eight bits. -/
def priorityBits (priority : Int) : Nat := (priority % 256).toNat

/-- `thread->schedpolicy`: two bits. -/
def policyBits (schedPolicy : Int) : Int := schedPolicy % 4

/-- The internal priority of a thread with these attributes. -/
def threadPriority (schedPolicy externalPrio : Int) : Nat :=
  priorityBits (xprioToIprio (policyBits schedPolicy) externalPrio)

/-- A policy and a priority that `prio_validate` admits, or a nice value of the main
thread, whose attributes nobody validates. -/
def Admitted (schedPolicy externalPrio : Int) : Prop :=
  prioValidate schedPolicy externalPrio = true ∨
    (schedPolicy = schedOther ∧ -20 ≤ externalPrio ∧ externalPrio ≤ 19)

/-- No negative priority for the policy `SCHED_OTHER`, not the highest one for the two
others, and no further policy. -/
def IsLevel (schedPolicy externalPrio : Int) : Prop :=
  if policyBits schedPolicy = schedOther then 0 ≤ externalPrio
  else (policyBits schedPolicy = schedFifo ∨ policyBits schedPolicy = schedRr) ∧
    externalPrio ≤ 98

instance (schedPolicy externalPrio : Int) : Decidable (Admitted schedPolicy externalPrio) := by
  unfold Admitted
  infer_instance

instance (schedPolicy externalPrio : Int) : Decidable (IsLevel schedPolicy externalPrio) := by
  unfold IsLevel
  infer_instance

theorem Admitted.cases {policy x : Int} (h : Admitted policy x) :
    (policy = schedOther ∧ -20 ≤ x ∧ x ≤ 41) ∨
      ((policy = schedFifo ∨ policy = schedRr) ∧ 1 ≤ x ∧ x ≤ 99) ∨ x = -1 := by
  rcases h with h | ⟨hother, hlo, hhi⟩
  · obtain ⟨hlo, hhi⟩ := of_decide_eq_true h
    unfold xprioGetMin priorityBounds at hlo
    unfold xprioGetMax priorityBounds at hhi
    by_cases hother : policy = schedOther
    · simp only [hother, if_true] at hlo hhi
      exact Or.inl ⟨hother, by omega, hhi⟩
    · by_cases hfifo : policy = schedFifo
      · simp only [hfifo, if_true, if_false, show ¬ schedFifo = schedOther by decide] at hlo hhi
        exact Or.inr (Or.inl ⟨Or.inl hfifo, hlo, hhi⟩)
      · by_cases hrr : policy = schedRr
        · simp only [hrr, if_true, if_false, show ¬ schedRr = schedOther by decide,
            show ¬ schedRr = schedFifo by decide] at hlo hhi
          exact Or.inr (Or.inl ⟨Or.inr hrr, hlo, hhi⟩)
        · simp only [hother, hfifo, hrr, if_false] at hlo hhi
          exact Or.inr (Or.inr (by omega))
  · exact Or.inl ⟨hother, hlo, by omega⟩

/-- Which of the priorities that `prio_validate` admits, and of those that the system reports for
the main thread, are levels. -/
theorem threadPriority_lt_iff {policy x : Int} (h : Admitted policy x) :
    threadPriority policy x < prioTotal ↔ IsLevel policy x := by
  have hcases := h.cases
  unfold threadPriority prioTotal priorityBits xprioToIprio IsLevel
  unfold schedOther schedFifo schedRr policyBits at *
  by_cases hother : policy % 4 = 0
  · simp only [hother, if_true]
    omega
  · by_cases hrt : policy % 4 = 1 ∨ policy % 4 = 2
    · simp only [hother, hrt, if_false, if_true, true_and]
      omega
    · simp only [hother, hrt, if_false, false_and, iff_false]
      decide

end Ngpt.Sched
