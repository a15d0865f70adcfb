import Ngpt.Lib.Transition

/-!
# ngpt — the mode of a descriptor (`pth_fdmode`, `pth_lib.c`, and `pth_high.c`)

`pth_accept_ev`, `pth_connect_ev` and `pth_write_ev` force the descriptor into non-blocking
mode and put back the mode they found. Only `pth_accept_ev` waits in between. A step is what a
call does up to its next wait or its return; what the system calls answer is in the action. A
`pth_write_ev` of no bytes does nothing and is no step.

Result: `fdmode_restored`.
-/

namespace Ngpt.FdMode

open Function Transition

/-- `PTH_FDMODE_BLOCK` and `PTH_FDMODE_NONBLOCK`. -/
inductive Mode where
  | block
  | nonblock
deriving DecidableEq, Repr

/-- `pth_fdmode`: the mode after it, and the old mode that it returns. -/
def pthFdmode (fdmode newmode : Mode) : Mode × Mode :=
  match fdmode with
  | .nonblock => (if newmode = .block then .block else .nonblock, .nonblock)
  | .block => (if newmode = .nonblock then .nonblock else .block, .block)

/-- Where the call of a thread stands; a wait keeps the local `fdmode`. -/
inductive Call where
  | idle
  | accept (fdmode : Mode)
  | connect
  | write (fdmode : Mode)
deriving DecidableEq, Repr

/-- `pth_accept_ev` from `accept` on, which fails with `EAGAIN` if `again`. -/
def acceptTry (mode fdmode : Mode) (again : Bool) : Mode × Call :=
  if again then (mode, .accept fdmode) else ((pthFdmode mode fdmode).1, .idle)

def pthAcceptEv (mode : Mode) (again : Bool) : Mode × Call :=
  let (mode', fdmode) := pthFdmode mode .nonblock
  acceptTry mode' fdmode again

def pthConnectEv (mode : Mode) (inProgress : Bool) : Mode × Call :=
  let (mode', fdmode) := pthFdmode mode .nonblock
  ((pthFdmode mode' fdmode).1, if inProgress then .connect else .idle)

/-- `pth_write_ev` from a write of the loop on, which writes only a part if `short`. -/
def writeTry (mode fdmode : Mode) (short : Bool) : Mode × Call :=
  if short then (mode, .write fdmode) else (mode, .idle)

/-- `pth_write_ev`; the first write fails with `EAGAIN` if `again`, and the poll finds the
descriptor writeable if `ready`. -/
def pthWriteEv (mode : Mode) (again ready short : Bool) : Mode × Call :=
  let (mode', fdmode) := pthFdmode mode .nonblock
  let restored := (pthFdmode mode' fdmode).1
  if fdmode ≠ .nonblock ∧ again then
    if ready then writeTry restored fdmode short else (restored, .write fdmode)
  else (restored, .idle)

inductive Action (T : Type) where
  | accept (t : T) (again : Bool)
  | connect (t : T) (inProgress : Bool)
  | write (t : T) (again ready short : Bool)
  /-- the wait of a call ends, without its own event if not `occurred`; `retry` is what the
  next `accept` or `write` answers -/
  | wake (t : T) (occurred retry : Bool)

structure State (T : Type) where
  mode : Mode
  call : T → Call

variable {T : Type} [DecidableEq T]

/-- A call of `t` goes on to its next wait or returns. -/
def State.move (s : State T) (t : T) (next : Mode × Call) : State T :=
  ⟨next.1, update s.call t next.2⟩

def State.step (s : State T) : Action T → Option (State T)
  | .accept t again => if s.call t = .idle then s.move t (pthAcceptEv s.mode again) else none
  | .connect t inProgress =>
    if s.call t = .idle then s.move t (pthConnectEv s.mode inProgress) else none
  | .write t again ready short =>
    if s.call t = .idle then s.move t (pthWriteEv s.mode again ready short) else none
  | .wake t occurred retry =>
    match s.call t with
    | .idle => none
    | .connect => s.move t (s.mode, .idle)
    | .accept fdmode =>
      if occurred then s.move t (acceptTry s.mode fdmode retry)
      else s.move t ((pthFdmode s.mode fdmode).1, .idle)
    | .write fdmode =>
      if occurred then s.move t (writeTry s.mode fdmode retry)
      else s.move t ((pthFdmode s.mode fdmode).1, .idle)

def Initial (mode : Mode) (s : State T) : Prop :=
  s.mode = mode ∧ ∀ t, s.call t = .idle

/-- No `pth_accept_ev` has to wait that finds the mode another one has forced. -/
def NotForced (s : State T) : Action T → Prop
  | .accept _ true => ∀ u fdmode, s.call u = .accept fdmode → fdmode = s.mode
  | _ => True

@[simp]
theorem pthFdmode_eq (fdmode newmode : Mode) : pthFdmode fdmode newmode = (newmode, fdmode) := by
  cases fdmode <;> cases newmode <;> rfl

/-- Every waiting call has saved the first mode; another mode is that of a waiting accept. -/
structure Kept (mode : Mode) (s : State T) : Prop where
  saved  : ∀ t fdmode, s.call t = .accept fdmode ∨ s.call t = .write fdmode → fdmode = mode
  forced : s.mode ≠ mode → s.mode = .nonblock ∧ ∃ t, s.call t = .accept mode

variable {mode : Mode} {s s' : State T} {t : T} {a : Action T} {m : Mode} {c : Call}

section

variable (h : Kept mode s)
include h

theorem Kept.move (hsaved : ∀ fdmode, c = .accept fdmode ∨ c = .write fdmode → fdmode = mode)
    (hforced : m ≠ mode → m = .nonblock ∧
      (c = .accept mode ∨ m = s.mode ∧ ∀ fdmode, s.call t ≠ .accept fdmode)) :
    Kept mode (s.move t (m, c)) := by
  refine ⟨fun u fdmode hu => ?_, fun hm => ?_⟩
  · by_cases hut : u = t
    · subst hut
      exact hsaved fdmode (by simpa [State.move] using hu)
    · exact h.saved u fdmode (by simpa [State.move, hut] using hu)
  · obtain ⟨hnon, rfl | ⟨rfl, ht⟩⟩ := hforced hm
    · exact ⟨hnon, t, update_self ..⟩
    · obtain ⟨u, hu⟩ := (h.forced hm).2
      have hut : u ≠ t := by
        rintro rfl
        exact ht mode hu
      exact ⟨hnon, u, (update_of_ne hut _ _).trans hu⟩

theorem Kept.stay (ht : ∀ fdmode, s.call t ≠ .accept fdmode)
    (hsaved : ∀ fdmode, c = .accept fdmode ∨ c = .write fdmode → fdmode = mode) :
    Kept mode (s.move t (s.mode, c)) :=
  h.move hsaved fun hm => ⟨(h.forced hm).1, Or.inr ⟨rfl, ht⟩⟩

theorem Kept.restore : Kept mode (s.move t (mode, .idle)) :=
  h.move (by simp) fun hm => absurd rfl hm

theorem Kept.acceptTry {again : Bool} :
    Kept mode (s.move t (acceptTry s.mode mode again)) := by
  unfold FdMode.acceptTry
  split
  · refine h.move (fun fdmode hc => ?_) fun hm => ⟨(h.forced hm).1, Or.inl rfl⟩
    simpa [eq_comm] using hc
  · rw [pthFdmode_eq]
    exact h.restore

theorem Kept.writeTry {short : Bool} (hm : m = mode)
    (ht : ∀ fdmode, s.call t ≠ .accept fdmode) :
    Kept mode (s.move t (writeTry s.mode m short)) := by
  unfold FdMode.writeTry
  split
  · exact h.stay ht fun fdmode hc => by simpa [hm, eq_comm] using hc
  · exact h.stay ht (by simp)

theorem Kept.pthAcceptEv {again : Bool} (hok : NotForced s (.accept t again))
    (ht : s.call t = .idle) : Kept mode (s.move t (pthAcceptEv s.mode again)) := by
  simp only [FdMode.pthAcceptEv, FdMode.acceptTry, pthFdmode_eq]
  cases again with
  | false => exact h.stay (by simp [ht]) (by simp)
  | true =>
    -- nobody has forced the mode that is saved here
    have hmode : s.mode = mode := by
      by_contra hm
      obtain ⟨-, u, hu⟩ := h.forced hm
      exact hm (hok u mode hu).symm
    rw [hmode]
    exact h.move (fun fdmode hc => by simpa [eq_comm] using hc) fun _ => ⟨rfl, Or.inl rfl⟩

theorem Kept.pthWriteEv {again ready short : Bool} (ht : s.call t = .idle) :
    Kept mode (s.move t (pthWriteEv s.mode again ready short)) := by
  have hidle : ∀ fdmode, s.call t ≠ .accept fdmode := by simp [ht]
  simp only [FdMode.pthWriteEv, pthFdmode_eq]
  split
  next hblock =>
    have hmode : s.mode = mode := by
      by_contra hm
      exact hblock.1 (h.forced hm).1
    split
    · exact h.writeTry hmode hidle
    · exact h.stay hidle fun fdmode hc => by simpa [hmode, eq_comm] using hc
  next => exact h.stay hidle (by simp)

theorem Kept.step (hok : NotForced s a) (hs : s.step a = some s') :
    Kept mode s' := by
  cases a with
  | accept t again =>
    simp only [State.step] at hs
    split at hs <;> cases hs
    case isTrue.refl ht => exact h.pthAcceptEv hok ht
  | connect t inProgress =>
    simp only [State.step] at hs
    split at hs <;> cases hs
    case isTrue.refl ht =>
      simp only [pthConnectEv, pthFdmode_eq]
      exact h.stay (by simp [ht]) (by split <;> simp)
  | write t again ready short =>
    simp only [State.step] at hs
    split at hs <;> cases hs
    case isTrue.refl ht => exact h.pthWriteEv ht
  | wake t occurred retry =>
    simp only [State.step, pthFdmode_eq] at hs
    cases hc : s.call t <;> simp only [hc, reduceCtorEq] at hs
    case connect =>
      cases hs
      exact h.stay (by simp [hc]) (by simp)
    case accept fdmode =>
      obtain rfl := h.saved t fdmode (Or.inl hc)
      cases occurred <;> cases hs
      · exact h.restore
      · exact h.acceptTry
    case write fdmode =>
      obtain rfl := h.saved t fdmode (Or.inr hc)
      cases occurred <;> cases hs
      · exact h.restore
      · exact h.writeTry rfl (by simp [hc])

end

/-- When all calls have returned, the descriptor is in its first mode. -/
theorem fdmode_restored (mode : Mode) (s : State T)
    (hs : Reachable State.step NotForced (Initial mode) s) (hidle : ∀ t, s.call t = .idle) :
    s.mode = mode := by
  have hkept : Kept mode s := by
    refine hs.invariant (fun s h => ⟨fun t fdmode ht => ?_, fun hm => absurd h.1 hm⟩)
      fun s a s' h hok hstep => h.step hok hstep
    simp [h.2 t] at ht
  by_contra hm
  obtain ⟨-, t, ht⟩ := hkept.forced hm
  cases (hidle t).symm.trans ht

def start : State Bool := ⟨.block, fun _ => .idle⟩

/-- A connect while an accept waits. -/
theorem fdmode_restored_connect :
    ∃ s, run State.step start [.accept false true, .connect true false, .wake false true false] =
      some s ∧ s.mode = .block := by
  have hok : NotForced start (.accept false true) := fun u fdmode hu => nomatch hu
  have h₁ : Reachable State.step NotForced (Initial .block) _ :=
    .step (.init ⟨rfl, fun _ => rfl⟩) hok rfl
  have h₂ := h₁.step (show NotForced _ (.connect true false) from trivial) rfl
  have h₃ := h₂.step (show NotForced _ (.wake false true false) from trivial) rfl
  exact ⟨_, rfl, fdmode_restored .block _ h₃ (by decide)⟩

/-- Two accepts: the second saves the mode the first has forced, and returns last. -/
theorem second_accept_keeps_nonblock :
    ∃ s, run State.step start [.accept false true, .accept true true, .wake false true false,
        .wake true true false] = some s ∧ (∀ t, s.call t = .idle) ∧ s.mode = .nonblock := by
  refine ⟨_, rfl, fun t => ?_, rfl⟩
  cases t <;> rfl

end Ngpt.FdMode
