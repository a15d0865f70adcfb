import Mathlib.Logic.Function.Basic

/-!
# ngpt — the lock of the library (`pth_p.h.in`)

`pth_qlock_t` is a spin lock with an owner and a count, so that a native thread may take
it again. `Guards` ties the lock to the places in the code where it is held; the lemmas
say how the operations of the lock and the moves of a thread keep it.
-/

namespace Ngpt.Sync

/-- `pth_qlock_t`; `taken` is the spin lock. -/
structure Qlock (T : Type) where
  taken : Bool
  owner : Option T
  count : Nat
  deriving DecidableEq, Repr

namespace Qlock

variable {T : Type}

/-- `pth_qlock_init`. -/
def init : Qlock T := ⟨false, none, 0⟩

/-- The lock is held once by the thread inside, and by nobody outside. -/
def Guards (l : Qlock T) (inside : T → Bool) : Prop :=
  ∀ t, if inside t then l = ⟨true, some t, 1⟩ else l.owner ≠ some t

variable {l l' : Qlock T} {inside inside' : T → Bool} {t u : T}

section

variable (h : l.Guards inside)
include h

theorem Guards.held (ht : inside t = true) : l = ⟨true, some t, 1⟩ := by
  have := h t
  rwa [if_pos ht] at this

theorem Guards.not_owner (ht : inside t = false) : l.owner ≠ some t := by
  have := h t
  rwa [if_neg (by rw [ht]; exact Bool.false_ne_true)] at this

theorem Guards.unique (ht : inside t = true) (hu : inside u = true) :
    t = u := by
  have := (h.held ht).symm.trans (h.held hu)
  simpa using this

theorem Guards.congr (hinside : ∀ u, inside' u = inside u) :
    l.Guards inside' := by
  intro u
  rw [hinside u]
  exact h u

theorem Guards.init (hfree : l.owner = none) :
    (Qlock.init : Qlock T).Guards inside := by
  intro u
  have hout : inside u = false := by
    by_contra hin
    rw [h.held (by simpa using hin)] at hfree
    cases hfree
  rw [hout]
  exact Option.some_ne_none u |>.symm

variable [DecidableEq T]

/-- `_pth_acquire_lock`, as one step; there is none while another thread has the lock. -/
def acquire (l : Qlock T) (t : T) : Option (Qlock T) :=
  if l.owner = some t then some { l with count := l.count + 1 }
  else if l.taken then none
  else some ⟨true, some t, 1⟩

/-- `_pth_release_lock`: a thread that is not the owner changes nothing. -/
def release (l : Qlock T) (t : T) : Qlock T :=
  if l.owner ≠ some t then l
  else if l.count - 1 = 0 then ⟨false, none, 0⟩
  else { l with count := l.count - 1 }

theorem Guards.acquire (ht : inside t = false)
    (hl : l.acquire t = some l') (ht' : inside' t = true)
    (hothers : ∀ u, u ≠ t → inside' u = inside u) : l'.Guards inside' := by
  unfold Qlock.acquire at hl
  rw [if_neg (h.not_owner ht)] at hl
  split at hl
  case isTrue => cases hl
  case isFalse hfree =>
    cases hl
    intro u
    by_cases hut : u = t
    · subst hut
      rw [if_pos ht']
    · rw [hothers u hut]
      have hout : inside u = false := by
        by_contra hin
        rw [h.held (by simpa using hin)] at hfree
        exact hfree rfl
      rw [hout]
      show some t ≠ some u
      exact fun heq => hut (Option.some.inj heq).symm

theorem Guards.release (ht : inside t = true) (ht' : inside' t = false)
    (hothers : ∀ u, u ≠ t → inside' u = inside u) : (l.release t).Guards inside' := by
  have hfree : l.release t = ⟨false, none, 0⟩ := by
    rw [h.held ht]
    simp [Qlock.release]
  intro u
  rw [hfree]
  by_cases hut : u = t
  · subst hut
    rw [ht']
    exact Option.some_ne_none u |>.symm
  · have hout : inside u = false := by
      by_contra hin
      exact hut (h.unique ht (by simpa using hin)).symm
    rw [hothers u hut, hout]
    exact Option.some_ne_none u |>.symm

end

end Qlock

end Ngpt.Sync
