import Mathlib.Data.Fintype.Powerset
import Ngpt.Errno
import Ngpt.Lib.Transition

/-!
# ngpt — signal masks (`pth_sigmask`, `pth_high.c`)

Every thread has a signal mask of its own, saved and restored with its context, and a copy
of it in `mctx.sigs`. `pth_sigblock` is what the event manager of a group leader blocks
while it looks for signals: what every thread blocks. Nobody computes that from the masks
of all threads; `pth_sigmask` intersects the last value with the new mask of the caller,
and takes an empty `pth_sigblock` for one that has not been set yet.

`sigprocmask` is that of POSIX, with the signals that cannot be blocked as a parameter. A
call is one step. `callers` is not in the code: the threads that have passed a set.

Result: `sigblock_is_intersection`.
-/

namespace Ngpt.Sigmask

open Transition

/-- The first argument of `sigprocmask`. -/
inductive How where
  | block
  | unblock
  | setmask
  | other
  deriving DecidableEq, Repr

structure State (Sig Tid : Type) where
  /-- the real mask, when the thread runs -/
  mask     : Tid → Finset Sig
  /-- `mctx.sigs` -/
  sigs     : Tid → Finset Sig
  /-- `pth_sigblock` -/
  sigblock : Finset Sig
  /-- bytes written to the pipe of the first native -/
  sigpipe  : Nat
  callers  : List Tid

variable {Sig Tid : Type} {s s' : State Sig Tid} {t : Tid} {mask : Finset Sig} {sig : Sig}

/-- Threads start with the mask of their context in `mctx.sigs`; nobody has called. -/
structure Initial (s : State Sig Tid) : Prop where
  mask     : s.mask = s.sigs
  sigblock : s.sigblock = ∅
  callers  : s.callers = []

/-- What holds in every run. -/
structure Kept (s : State Sig Tid) : Prop where
  mask  : s.mask = s.sigs
  empty : s.callers = [] → s.sigblock = ∅

theorem Initial.kept (h : Initial s) : Kept s := ⟨h.mask, fun _ => h.sigblock⟩

/-- All other callers block the signal. -/
def ByOthers (s : State Sig Tid) (t : Tid) (sig : Sig) : Prop :=
  ∀ u ∈ s.callers, u ≠ t → sig ∈ s.sigs u

variable [DecidableEq Tid]

theorem all_callers_iff :
    (∀ u ∈ t :: s.callers, sig ∈ Function.update s.sigs t mask u) ↔
      sig ∈ mask ∧ ByOthers s t sig := by
  constructor
  · intro h
    refine ⟨by simpa using h t List.mem_cons_self, fun u hu hne => ?_⟩
    simpa [hne] using h u (List.mem_cons_of_mem t hu)
  · rintro ⟨ht, hothers⟩ u hu
    by_cases hut : u = t
    · simpa [hut] using ht
    · simpa [hut] using hothers u ((List.mem_cons.mp hu).resolve_left hut) hut

theorem callers_iff :
    (∀ u ∈ s.callers, sig ∈ s.sigs u) ↔
      (t ∈ s.callers → sig ∈ s.sigs t) ∧ ByOthers s t sig := by
  constructor
  · exact fun h => ⟨h t, fun u hu _ => h u hu⟩
  · rintro ⟨ht, hothers⟩ u hu
    by_cases hut : u = t
    · rw [hut] at hu ⊢
      exact ht hu
    · exact hothers u hu hut

variable [Fintype Sig] [DecidableEq Sig]

/-- What the library is built and started with. -/
structure Config (Sig : Type) where
  /-- `SIGKILL`, `SIGSTOP` and what else `sigprocmask` takes out of a set -/
  unblockable : Finset Sig
  /-- `__pthread_sig_restart`, with `__pthread_doing_debug` set -/
  debug       : Option Sig

/-- A call of `pth_sigmask`; `elsewhere` says that the first native is used and is not
that of the caller. -/
structure Call (Sig Tid : Type) where
  thread    : Tid
  how       : How
  set       : Option (Finset Sig)
  elsewhere : Bool

/-- The mask that `sigprocmask` sets, or `EINVAL`. -/
def sigprocmask (cfg : Config Sig) (mask : Finset Sig) (how : How) :
    Option (Finset Sig) → Except Errno (Finset Sig)
  | none => .ok mask
  | some set =>
    match how with
    | .block => .ok (mask ∪ (set \ cfg.unblockable))
    | .unblock => .ok (mask \ set)
    | .setmask => .ok (set \ cfg.unblockable)
    | .other => .error .einval

/-- A debugger's restart signal is not to be unmasked. -/
def debugSet (cfg : Config Sig) (how : How) (set : Finset Sig) : Finset Sig :=
  match cfg.debug, how with
  | some restart, .setmask => insert restart set
  | some restart, .unblock => set.erase restart
  | _, _ => set

/-- The global mask after a call that leaves the caller with `sigs`. -/
def updateSigblock (sigblock sigs : Finset Sig) : Finset Sig :=
  let tmp := if sigblock ≠ ∅ then sigblock else Finset.univ
  tmp ∩ sigs

/-- What a call returns: its result and, on success, what it writes to `oset`. -/
structure Reply (Sig : Type) where
  rv   : Errno
  oset : Option (Finset Sig)

/-- `pth_sigmask`. -/
def pthSigmask (cfg : Config Sig) (s : State Sig Tid) (c : Call Sig Tid) :
    Reply Sig × State Sig Tid :=
  let t := c.thread
  let set := c.set.map (debugSet cfg c.how)
  -- the remembered mask becomes the real one before the change
  let mask := if set.isSome then s.sigs t else s.mask t
  match sigprocmask cfg mask c.how set with
  | .error e => ({ rv := e, oset := none }, { s with mask := Function.update s.mask t mask })
  | .ok mask' =>
    let s : State Sig Tid := { s with
      mask := Function.update s.mask t mask', sigs := Function.update s.sigs t mask' }
    let reply : Reply Sig := { rv := .ok, oset := some mask }
    match set with
    | none => (reply, s)
    | some _ =>
      (reply, { s with
        sigblock := updateSigblock s.sigblock mask'
        sigpipe := s.sigpipe + if c.elsewhere then 1 else 0
        callers := t :: s.callers })

def step (cfg : Config Sig) (s : State Sig Tid) (c : Call Sig Tid) : Option (State Sig Tid) :=
  some (pthSigmask cfg s c).2

/-- Once somebody has passed a set, `pth_sigblock` has the signals that are in the masks
of all who have. -/
def Global (s : State Sig Tid) : Prop :=
  s.callers ≠ [] → ∀ sig, sig ∈ s.sigblock ↔ ∀ t ∈ s.callers, sig ∈ s.sigs t

/-- The mask of the caller after a call that passes a set, unless the call fails. -/
def newMask (cfg : Config Sig) (s : State Sig Tid) (c : Call Sig Tid) : Option (Finset Sig) :=
  c.set.bind fun set =>
    (sigprocmask cfg (s.sigs c.thread) c.how (some (debugSet cfg c.how set))).toOption

instance (s : State Sig Tid) (t : Tid) (sig : Sig) : Decidable (ByOthers s t sig) := by
  unfold ByOthers; infer_instance

/-- The calls after which the intersection needs no more than the last value and the new
mask. With an empty `pth_sigblock` that is a call whose mask has only signals that all
other callers block. Otherwise it is one in which a thread that has called before does
not begin to block what all others block. -/
def Narrows (cfg : Config Sig) (s : State Sig Tid) (c : Call Sig Tid) : Prop :=
  ∀ mask ∈ newMask cfg s c, s.callers ≠ [] →
    if s.sigblock = ∅ then ∀ sig ∈ mask, ByOthers s c.thread sig
    else c.thread ∈ s.callers → ∀ sig ∈ mask, ByOthers s c.thread sig → sig ∈ s.sigs c.thread

instance (cfg : Config Sig) (s : State Sig Tid) (c : Call Sig Tid) :
    Decidable (Narrows cfg s c) := by
  unfold Narrows
  infer_instance

/-! ## One call -/

variable {cfg : Config Sig} {c : Call Sig Tid}

/-- **What a call does**, when the real mask of the caller is the remembered one. -/
inductive Effect (cfg : Config Sig) (s : State Sig Tid) (c : Call Sig Tid)
    (s' : State Sig Tid) : Prop
  | kept : newMask cfg s c = none → s'.sigs = s.sigs → s'.sigblock = s.sigblock →
      s'.callers = s.callers → Effect cfg s c s'
  | set (mask : Finset Sig) : newMask cfg s c = some mask →
      s'.sigs = Function.update s.sigs c.thread mask →
      s'.sigblock = updateSigblock s.sigblock mask → s'.callers = c.thread :: s.callers →
      Effect cfg s c s'

theorem step_effect (hmask : s.mask = s.sigs) (h : step cfg s c = some s') :
    s'.mask = s'.sigs ∧ Effect cfg s c s' := by
  obtain rfl : (pthSigmask cfg s c).2 = s' := Option.some.inj h
  unfold pthSigmask
  cases hset : c.set with
  | none =>
    refine ⟨by simp [hmask, sigprocmask], .kept (by simp [newMask, hset]) ?_ ?_ ?_⟩ <;>
      simp [hmask, sigprocmask]
  | some set =>
    cases hr : sigprocmask cfg (s.sigs c.thread) c.how (some (debugSet cfg c.how set)) with
    | error e =>
      refine ⟨by simp [hr, hmask], .kept (by simp [newMask, hset, hr, Except.toOption])
        ?_ ?_ ?_⟩ <;>
        simp [hr]
    | ok mask =>
      refine ⟨by simp [hr, hmask],
        .set mask (by simp [newMask, hset, hr, Except.toOption]) ?_ ?_ ?_⟩ <;>
        simp [hr]

theorem mem_updateSigblock (sigblock : Finset Sig) :
    sig ∈ updateSigblock sigblock mask ↔ (sigblock = ∅ ∨ sig ∈ sigblock) ∧ sig ∈ mask := by
  unfold updateSigblock
  by_cases h : sigblock = ∅ <;> simp [h]

/-! ## Runs -/

theorem Kept.step (h : Kept s) (hs : step cfg s c = some s') : Kept s' := by
  obtain ⟨hmask, he⟩ := step_effect h.mask hs
  refine ⟨hmask, fun hnil => ?_⟩
  cases he with
  | kept _ _ hb hc => rw [hb, h.empty (by rw [← hc]; exact hnil)]
  | set mask _ _ _ hc => simp [hc] at hnil

theorem Global.step_iff (h : Global s) (hk : Kept s) (hs : step cfg s c = some s') :
    Global s' ↔ Narrows cfg s c := by
  cases (step_effect hk.mask hs).2 with
  | kept hnone hsigs hblock hcallers =>
    refine iff_of_true ?_ (by simp [Narrows, hnone])
    unfold Global
    rw [hsigs, hblock, hcallers]
    exact h
  | set mask hmask hsigs hblock hcallers =>
    have hglobal : Global s' ↔ ∀ sig ∈ mask,
        (s.sigblock = ∅ ∨ sig ∈ s.sigblock) ↔ ByOthers s c.thread sig := by
      unfold Global
      rw [hsigs, hblock, hcallers]
      simp only [mem_updateSigblock, all_callers_iff]
      constructor
      · intro hg sig hsig
        simpa [hsig] using hg (by simp) sig
      · intro hg _ sig
        by_cases hsig : sig ∈ mask
        · simpa [hsig] using hg sig hsig
        · simp [hsig]
    rw [hglobal]
    simp only [Narrows, hmask, Option.mem_some_iff, forall_eq']
    by_cases hempty : s.sigblock = ∅
    · -- the last value is taken for the set of all signals
      by_cases hnil : s.callers = []
      · simp [hempty, hnil, ByOthers]
      · simp [hempty, hnil]
    · have hne : s.callers ≠ [] := fun hnil => hempty (hk.empty hnil)
      simp only [hempty, false_or, if_false, h hne, callers_iff (t := c.thread)]
      constructor
      · intro hg _ ht sig hsig hothers
        exact ((hg sig hsig).mpr hothers).1 ht
      · intro hn sig hsig
        exact ⟨And.right, fun hothers => ⟨fun ht => hn hne ht sig hsig hothers, hothers⟩⟩

/-- **The global mask is the intersection** as long as every call narrows, and the next
call keeps it so if and only if it narrows too. -/
theorem sigblock_is_intersection (cfg : Config Sig) (s : State Sig Tid)
    (hs : Reachable (step cfg) (Narrows cfg) Initial s) :
    Global s ∧ ∀ c s', step cfg s c = some s' → (Global s' ↔ Narrows cfg s c) := by
  have hI : Kept s ∧ Global s := hs.invariant (I := fun s => Kept s ∧ Global s)
    (fun s h => ⟨h.kept, fun hne => absurd h.callers hne⟩)
    fun s c s' hI hok h => ⟨hI.1.step h, (hI.2.step_iff hI.1 h).mpr hok⟩
  exact ⟨hI.2, fun c s' h => hI.2.step_iff hI.1 h⟩

/-- Two signals, two threads and no debugger; nothing is blocked. -/
def idle : State Bool Bool :=
  { mask := fun _ => ∅, sigs := fun _ => ∅, sigblock := ∅, sigpipe := 0, callers := [] }

def plain : Config Bool := { unblockable := ∅, debug := none }

theorem idle_initial : Initial idle := ⟨rfl, rfl, rfl⟩

/-- A call of a thread on the first native. -/
def calls (t : Bool) (how : How) (set : Finset Bool) : Call Bool Bool :=
  { thread := t, how := how, set := some set, elsewhere := false }

/-- Both threads block both signals; then one of them unblocks one. -/
theorem sigblock_is_intersection_unblock :
    ∃ s : State Bool Bool, runOk (step plain) (Narrows plain) idle
        [calls true .block Finset.univ, calls false .setmask Finset.univ,
          calls true .unblock {true}] = some s ∧
      s.sigblock = {false} ∧ Global s := by
  refine exists_and_of_any (fun _ => id) (by decide +kernel) fun s hs _ => ?_
  exact (sigblock_is_intersection plain s (reachable_of_runOk (.init idle_initial) hs)).1

/-- A thread blocks one signal and then both: the second never gets into `pth_sigblock`. And
two threads block one signal each, and the first its own once more: `pth_sigblock` has it,
although the second does not block it. -/
theorem sigblock_is_no_intersection :
    (∃ s : State Bool Bool, Reachable (step plain) Always Initial s ∧
      s.callers = [true, true] ∧ s.sigs true = {true, false} ∧ s.sigblock = {true} ∧
      ¬ Global s) ∧
    ∃ s : State Bool Bool, Reachable (step plain) Always Initial s ∧
      s.sigs true = {true} ∧ s.sigs false = {false} ∧ s.sigblock = {true} ∧ ¬ Global s := by
  constructor
  · refine ⟨_, reachable_of_run (.init idle_initial)
      (show run (step plain) idle [calls true .block {true}, calls true .block {false}] = some _
        from rfl), rfl, by decide, by decide, fun h => ?_⟩
    have := (h (by decide) false).mpr (by decide)
    revert this
    decide
  · refine ⟨_, reachable_of_run (.init idle_initial)
      (show run (step plain) idle [calls true .block {true}, calls false .block {false},
        calls true .block {true}] = some _ from rfl), by decide, by decide, by decide,
      fun h => ?_⟩
    have := (h (by decide) true).mp (by decide) false (by decide)
    revert this
    decide

end Ngpt.Sigmask
