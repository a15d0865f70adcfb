import Mathlib.Logic.Function.Basic
import Mathlib.Data.List.Basic

/-!
# Labelled transition systems

A system is an executable step function `step : σ → α → Option σ`: the label
says which party moves and with which arguments, and `none` means that the
move is not possible in that state. Built on it are `run`,
`Reachable` and the induction rule `Reachable.invariant`.

A side condition that always holds (`Always`) gives plain reachability.
-/

namespace Transition

variable {σ α : Type*}

/-- The side condition that constrains nothing. -/
def Always : σ → α → Prop := fun _ _ => True

instance (s : σ) (a : α) : Decidable (Always s a) :=
  inferInstanceAs (Decidable True)

/-- Execute a list of labels from a state. -/
def run (step : σ → α → Option σ) : σ → List α → Option σ
  | s, [] => some s
  | s, a :: as => (step s a).bind fun s' => run step s' as

/-- Execute a list of labels, checking the side condition before each step. -/
def runOk (step : σ → α → Option σ) (ok : σ → α → Prop)
    [∀ s a, Decidable (ok s a)] : σ → List α → Option σ
  | s, [] => some s
  | s, a :: as =>
    if ok s a then (step s a).bind fun s' => runOk step ok s' as else none

/-- The states reached from an initial state by steps that all meet `ok`. -/
inductive Reachable (step : σ → α → Option σ) (ok : σ → α → Prop)
    (init : σ → Prop) : σ → Prop
  | init {s : σ} : init s → Reachable step ok init s
  | step {s s' : σ} {a : α} : Reachable step ok init s → ok s a →
      step s a = some s' → Reachable step ok init s'

section Rules

variable {step : σ → α → Option σ} {ok : σ → α → Prop} {init : σ → Prop}

theorem run_cons {s s' : σ} {a : α} (h : step s a = some s') (as : List α) :
    run step s (a :: as) = run step s' as := by
  simp only [run, h, Option.bind_some]

theorem run_append (s : σ) (as bs : List α) :
    run step s (as ++ bs) = (run step s as).bind fun s' => run step s' bs := by
  induction as generalizing s with
  | nil => rfl
  | cons a as ih =>
    simp only [List.cons_append, run, Option.bind_assoc]
    exact congrArg _ (funext fun s' => ih s')

/-- What holds initially and is kept by every step holds in every reachable state. -/
theorem Reachable.invariant {I : σ → Prop} (hInit : ∀ s, init s → I s)
    (hStep : ∀ s a s', I s → ok s a → step s a = some s' → I s')
    {s : σ} (h : Reachable step ok init s) : I s := by
  induction h with
  | init h => exact hInit _ h
  | step _ hok hs ih => exact hStep _ _ _ ih hok hs

theorem Reachable.mono {ok' : σ → α → Prop} (hok : ∀ s a, ok s a → ok' s a) {s : σ}
    (h : Reachable step ok init s) : Reachable step ok' init s := by
  induction h with
  | init h => exact .init h
  | step _ h hs ih => exact ih.step (hok _ _ h) hs

theorem reachable_of_runOk [∀ s a, Decidable (ok s a)] {s s' : σ} {as : List α}
    (h : Reachable step ok init s) (hrun : runOk step ok s as = some s') :
    Reachable step ok init s' := by
  induction as generalizing s with
  | nil =>
    simp only [runOk, Option.some.injEq] at hrun
    exact hrun ▸ h
  | cons a as ih =>
    simp only [runOk] at hrun
    split at hrun
    case isTrue hok =>
      obtain ⟨s₁, hs, hrest⟩ := Option.bind_eq_some_iff.mp hrun
      exact ih (h.step hok hs) hrest
    case isFalse => cases hrun

theorem reachable_of_run {s s' : σ} {as : List α}
    (h : Reachable step Always init s) (hrun : run step s as = some s') :
    Reachable step Always init s' := by
  induction as generalizing s with
  | nil =>
    simp only [run, Option.some.injEq] at hrun
    exact hrun ▸ h
  | cons a as ih =>
    simp only [run] at hrun
    obtain ⟨s₁, hs, hrest⟩ := Option.bind_eq_some_iff.mp hrun
    exact ih (h.step trivial hs) hrest

variable {P : σ → Prop} [DecidablePred P]

theorem exists_of_any {o : Option σ} (h : o.any (fun s => decide (P s)) = true) :
    ∃ s, o = some s ∧ P s := by
  cases o with
  | none => cases h
  | some s => exact ⟨s, rfl, of_decide_eq_true h⟩

theorem exists_reachable {s : σ} (hinit : init s) (as : List α)
    (h : (run step s as).any (fun s' => decide (P s')) = true) :
    ∃ s', Reachable step Always init s' ∧ P s' := by
  obtain ⟨s', hs', hP⟩ := exists_of_any h
  exact ⟨s', reachable_of_run (.init hinit) hs', hP⟩

section

variable {o : Option σ} {R P₁ P₂ P₃ Q : σ → Prop} [DecidablePred P₁] [DecidablePred P₂]
  [DecidablePred P₃] (hR : ∀ s, o = some s → R s)
include hR

/-- A state is found by evaluation, and what is shown of all such states holds of it. -/
theorem exists_and_of_any (h : o.any (fun s => decide (P₁ s)) = true)
    (hQ : ∀ s, R s → P₁ s → Q s) : ∃ s, R s ∧ P₁ s ∧ Q s := by
  obtain ⟨s, hs, h₁⟩ := exists_of_any h
  exact ⟨s, hR s hs, h₁, hQ s (hR s hs) h₁⟩

theorem exists_and_of_any₂ (h : o.any (fun s => decide (P₁ s ∧ P₂ s)) = true)
    (hQ : ∀ s, R s → P₁ s → P₂ s → Q s) : ∃ s, R s ∧ P₁ s ∧ P₂ s ∧ Q s := by
  obtain ⟨s, hs, ⟨h₁, h₂⟩, hq⟩ :=
    exists_and_of_any hR h fun s hs hP => hQ s hs hP.1 hP.2
  exact ⟨s, hs, h₁, h₂, hq⟩

theorem exists_and_of_any₃ (h : o.any (fun s => decide (P₁ s ∧ P₂ s ∧ P₃ s)) = true)
    (hQ : ∀ s, R s → P₁ s → P₂ s → P₃ s → Q s) : ∃ s, R s ∧ P₁ s ∧ P₂ s ∧ P₃ s ∧ Q s := by
  obtain ⟨s, hs, h₁, ⟨h₂, h₃⟩, hq⟩ :=
    exists_and_of_any₂ hR h fun s hs h₁ hP => hQ s hs h₁ hP.1 hP.2
  exact ⟨s, hs, h₁, h₂, h₃, hq⟩

end

end Rules

/-- At most one client is at a place with `P`, and the client `t` moves. -/
theorem unique_of_move {ι β : Type*} {f g : ι → β} {t : ι} {P : β → Prop}
    (hothers : ∀ u, u ≠ t → g u = f u) (hone : ∀ u v, P (f u) → P (f v) → u = v)
    (hnew : P (g t) → ∀ u, u ≠ t → ¬ P (f u)) (u v : ι) (hu : P (g u)) (hv : P (g v)) : u = v := by
  by_contra hne
  by_cases hut : u = t
  · subst hut
    exact hnew hu v (Ne.symm hne) (hothers v (Ne.symm hne) ▸ hv)
  · rw [hothers u hut] at hu
    by_cases hvt : v = t
    · subst hvt
      exact hnew hv u hut hu
    · rw [hothers v hvt] at hv
      exact hne (hone u v hu hv)

end Transition
