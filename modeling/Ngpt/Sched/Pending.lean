import Mathlib.Data.Finset.Card
import Mathlib.Data.Int.Order.Basic
import Ngpt.Lib.Transition

/-!
# ngpt — pending signals of a thread (`pth_raise`, `pth_lib.c`, and `pth_sched.c`)

`sigpending` has a bit for each of the signals 1 to `PTH_NSIG`, and `sigpendcnt` is to count
them. Each piece of code that uses the two holds the lock of the thread, or is the scheduler
that has it, and is one step here. `pth_raise` accepts the signal `PTH_NSIG`; all loops stop
before it.

Result: `pending_signals_examined`.
-/

namespace Ngpt.Sched.Pending

open Transition

/-- `PTH_NSIG`. -/
def pthNsig : Nat := 64

/-- The signals of the loops `for (sig = 1; sig < PTH_NSIG; sig++)`. -/
def signals : List Nat := List.range' 1 (pthNsig - 1)

structure Thread where
  sigpending : Finset Nat
  sigpendcnt : Int

/-- `pth_raise`; `ignored` says that the handler is `SIG_IGN`. -/
def pthRaise (s : Thread) (sig : Int) (ignored : Bool) : Thread :=
  if sig < 0 ∨ sig > pthNsig ∨ sig = 0 ∨ ignored then s
  else if sig.toNat ∈ s.sigpending then s
  else ⟨insert sig.toNat s.sigpending, s.sigpendcnt + 1⟩

/-- The signals that the delivery loop examines, from the count `cnt` on. -/
def deliverLoop (s : Thread) : Int → List Nat → List Nat
  | _, [] => []
  | cnt, sig :: sigs =>
    if sig ∈ s.sigpending then
      if cnt = s.sigpendcnt then [sig] else sig :: deliverLoop s (cnt + 1) sigs
    else deliverLoop s cnt sigs

/-- The delivery before a thread is dispatched. -/
def delivered (s : Thread) : List Nat :=
  if s.sigpendcnt > 0 then deliverLoop s 1 signals else []

/-- The loops that delete the signals `gone` which are pending. -/
def deleteLoop (gone : Nat → Bool) : List Nat → Thread → Thread
  | [], s => s
  | sig :: sigs, s =>
    if gone sig ∧ sig ∈ s.sigpending then
      let s' : Thread := ⟨s.sigpending.erase sig, s.sigpendcnt - 1⟩
      if s.sigpendcnt = 0 then s' else deleteLoop gone sigs s'
    else deleteLoop gone sigs s

inductive Action where
  | raise (sig : Int) (ignored : Bool)
  | deliver
  /-- after a run; `own` says that the thread has raised the last signal itself -/
  | postRun (own : Bool) (stillpending : Nat → Bool)
  /-- the event manager, for a thread that waits for `sigs` -/
  | sigwait (sigs : Nat → Bool)

def Thread.step (s : Thread) : Action → Option Thread
  | .raise sig ignored => some (pthRaise s sig ignored)
  | .deliver => some s
  | .postRun own still =>
    if s.sigpendcnt > 0 then some (deleteLoop (fun sig => !own && !still sig) signals s) else some s
  | .sigwait sigs => some (deleteLoop sigs signals s)

/-- A new thread. -/
def Initial (s : Thread) : Prop := s = ⟨∅, 0⟩

/-- The signal `PTH_NSIG` is not raised, unless it is ignored. -/
def Below (_ : Thread) : Action → Prop
  | .raise sig ignored => sig = pthNsig → ignored = true
  | _ => True

instance (s : Thread) (a : Action) : Decidable (Below s a) := by
  rcases a <;> dsimp only [Below] <;> infer_instance

/-- The invariant: the count is right, and the loops get to all signals. -/
structure Thread.Counted (s : Thread) : Prop where
  count : s.sigpendcnt = s.sigpending.card
  range : ∀ sig ∈ s.sigpending, sig ∈ signals

variable {s s' : Thread} {a : Action}

theorem mem_signals {sig : Nat} : sig ∈ signals ↔ 1 ≤ sig ∧ sig < pthNsig := by
  simp [signals, pthNsig, List.mem_range'_1]

theorem Thread.Counted.raise (h : s.Counted) {sig : Int} {ignored : Bool}
    (hok : Below s (.raise sig ignored)) : (pthRaise s sig ignored).Counted := by
  unfold pthRaise
  split
  · exact h
  split
  · exact h
  rename_i hvalid hnew
  refine ⟨by simp [Finset.card_insert_of_notMem hnew, h.count], fun x hx => ?_⟩
  rcases Finset.mem_insert.mp hx with rfl | hx
  · simp only [not_or, Bool.not_eq_true] at hvalid
    have hne : sig ≠ pthNsig := fun heq => by simp [hok heq] at hvalid
    exact mem_signals.mpr ⟨by omega, by omega⟩
  · exact h.range x hx

theorem Thread.Counted.delete (h : s.Counted) (gone : Nat → Bool) (sigs : List Nat) :
    (deleteLoop gone sigs s).Counted := by
  induction sigs generalizing s with
  | nil => exact h
  | cons sig sigs ih =>
    unfold deleteLoop
    split
    next hsig =>
      have herase : Thread.Counted ⟨s.sigpending.erase sig, s.sigpendcnt - 1⟩ := by
        refine ⟨?_, fun x hx => h.range x (Finset.mem_of_mem_erase hx)⟩
        have := Finset.card_pos.mpr ⟨sig, hsig.2⟩
        simp only [Finset.card_erase_of_mem hsig.2, h.count]
        omega
      simp only
      split
      · exact herase
      · exact ih herase
    · exact ih h

theorem Thread.Counted.step (h : s.Counted) (hok : Below s a) (hs : s.step a = some s') :
    s'.Counted := by
  cases a with
  | raise sig ignored =>
    cases hs
    exact h.raise hok
  | deliver =>
    cases hs
    exact h
  | postRun own still =>
    simp only [Thread.step] at hs
    split at hs <;> cases hs
    · exact h.delete _ _
    · exact h
  | sigwait sigs =>
    cases hs
    exact h.delete _ _

theorem mem_deliverLoop {cnt : Int} {sigs : List Nat} {sig : Nat}
    (hcnt : cnt + (sigs.filter (· ∈ s.sigpending)).length = s.sigpendcnt + 1)
    (hsig : sig ∈ sigs) (hpending : sig ∈ s.sigpending) : sig ∈ deliverLoop s cnt sigs := by
  induction sigs generalizing cnt with
  | nil => cases hsig
  | cons x sigs ih =>
    unfold deliverLoop
    by_cases hx : x ∈ s.sigpending
    · simp only [List.filter_cons, hx, decide_true, if_true, List.length_cons] at hcnt
      rw [if_pos hx]
      rcases List.mem_cons.mp hsig with rfl | hsig
      · split <;> simp
      · have hrest : 0 < (sigs.filter (· ∈ s.sigpending)).length :=
          List.length_pos_of_mem (List.mem_filter.mpr ⟨hsig, decide_eq_true hpending⟩)
        rw [if_neg (by omega)]
        exact List.mem_cons_of_mem _ (ih (by omega) hsig)
    · simp only [List.filter_cons, hx, decide_false, Bool.false_eq_true, if_false] at hcnt
      rw [if_neg hx]
      refine ih hcnt ((List.mem_cons.mp hsig).resolve_left ?_)
      rintro rfl
      exact hx hpending

theorem Thread.Counted.delivered (h : s.Counted) {sig : Nat} (hsig : sig ∈ s.sigpending) :
    sig ∈ delivered s := by
  have hpos := Finset.card_pos.mpr ⟨sig, hsig⟩
  have hall : (signals.filter (· ∈ s.sigpending)).toFinset = s.sigpending := by
    ext x
    simpa using h.range x
  have hnodup : signals.Nodup := List.nodup_range'
  have hlen := List.toFinset_card_of_nodup (hnodup.filter (· ∈ s.sigpending))
  rw [hall] at hlen
  rw [Pending.delivered, if_pos (by rw [h.count]; omega)]
  exact mem_deliverLoop (by rw [← hlen, h.count]; omega) (h.range sig hsig) hsig

/-- **Pending signals** are counted, and the delivery loop examines them all. -/
theorem pending_signals_examined (s : Thread) (h : Reachable Thread.step Below Initial s) :
    s.sigpendcnt = s.sigpending.card ∧ ∀ sig ∈ s.sigpending, sig ∈ delivered s := by
  have hI : s.Counted := h.invariant (fun s hs => by subst hs; exact ⟨rfl, by simp⟩)
    fun _ _ _ hI hok hs => hI.step hok hs
  exact ⟨hI.count, fun sig hsig => hI.delivered hsig⟩

theorem pending_signals_examined_raised :
    ∃ s, s.sigpending = {5} ∧ ∀ sig ∈ s.sigpending, sig ∈ delivered s := by
  obtain ⟨s, hs, hp⟩ : ∃ s, runOk Thread.step Below ⟨∅, 0⟩ [.raise 5 false, .raise 63 false,
      .sigwait (· == 63)] = some s ∧ s.sigpending = {5} := exists_of_any (by decide)
  exact ⟨s, hp, (pending_signals_examined s (reachable_of_runOk (.init rfl) hs)).2⟩

/-- The signal 64 is pending and counted, and never examined. -/
theorem last_signal_not_examined :
    (pthRaise ⟨∅, 0⟩ 64 false).sigpending = {64} ∧ (pthRaise ⟨∅, 0⟩ 64 false).sigpendcnt = 1 ∧
      delivered (pthRaise ⟨∅, 0⟩ 64 false) = [] := by
  decide

end Ngpt.Sched.Pending
