import Ngpt.Lib.Count
import Ngpt.Sync.Semaphore

/-!
# ngpt — futexes (`futex.h`, `sysdeps/i386/futex.h`)

The i386 has no `cmpxchg`: `__futex_down` reads the counter and decrements it in two
steps, and `__futex_up` increments it and, when somebody may be waiting, overwrites it
with a plain store. Clients run `futex_trydown`, `futex_down_timeout`, `futex_acquire`
and `futex_up` one memory access at a time, in any interleaving. The system calls only
decide who sleeps, so their results are arguments of the steps.

`holds` is not in the code: a client holds the futex from the decrement that reaches
zero to the store or increment that gives it back.

Result: `futex_exclusion`.
-/

namespace Ngpt.Sync.Futex

open Function Transition
open Semaphore (wrapInt wrapInt_of_small)

/-- `FUTEX_PASSED`. -/
def futexPassed : Int := -(1024 * 1024 * 1024)

/-- `EWOULDBLOCK` on Linux. -/
def ewouldblock : Int := 11

inductive Op where
  | trydown
  | downTimeout
  | acquire (tryonly : Bool)
  | up
  deriving DecidableEq, Repr

/-- Where `__futex_down` is called: in `futex_trydown`, in the loop of
`futex_down_timeout`, and by `futex_acquire` before and after its `futex_await`. -/
inductive Site where
  | trydown
  | timeout (woken : Bool)
  | acquire (tryonly : Bool)
  | retry (fd : Int)
  deriving DecidableEq, Repr

/-- Where a client is: before the named memory access or system call. -/
inductive Pc where
  | idle
  /-- `__futex_down`: the read and the locked decrement -/
  | read (k : Site)
  | dec (k : Site)
  /-- `futex_down_slow`: `FUTEX_WAIT`, and the test for `FUTEX_PASSED` after it -/
  | wait (woken : Bool)
  | waitCheck (woken : Bool)
  /-- `futex_acquire`: `FUTEX_FD`, and the test for `FUTEX_PASSED` -/
  | await
  | check (fd : Int)
  /-- the store of -1 by a client that was passed the futex, and by one that slept -/
  | passed (op : Op)
  | mark
  /-- `futex_up`: the locked increment, the store of 1 and `FUTEX_WAKE` -/
  | inc
  | store
  | wake
  | returned (op : Op) (result : Int)
  deriving DecidableEq, Repr

structure State (C : Type) where
  count : Int
  pc    : C → Pc
  holds : C → Bool

inductive Action (C : Type) where
  | call (c : C) (op : Op)
  /-- the next step of `c`; `result` is what a system call returns -/
  | go (c : C) (result : Int)
  deriving DecidableEq, Repr

def Pc.outside : Pc → Bool
  | .idle | .returned _ _ => true
  | _ => false

def Op.entry : Op → Pc
  | .trydown => .read .trydown
  | .downTimeout => .read (.timeout false)
  | .acquire tryonly => .read (.acquire tryonly)
  | .up => .inc

/-- What follows a `__futex_down` that returned 0. -/
def Site.got : Site → Pc
  | .trydown => .returned .trydown 0
  | .timeout woken => if woken then .mark else .returned .downTimeout 0
  | .acquire tryonly => .returned (.acquire tryonly) 0
  | .retry _ => .returned (.acquire false) 0

/-- What follows a `__futex_down` that returned a negative value. -/
def Site.failed : Site → Pc
  | .trydown => .returned .trydown (-ewouldblock)
  | .timeout woken => .wait woken
  | .acquire tryonly => if tryonly then .returned (.acquire true) 0 else .await
  | .retry fd => .check fd

/-- `futex_down_slow` and the loop around it, for a `FUTEX_WAIT` that returned
`result`. -/
def waited (woken : Bool) (result : Int) : Pc :=
  if result = 0 then .waitCheck woken
  else if result = -ewouldblock then .read (.timeout woken)
  else if result < 0 then .returned .downTimeout result
  else if result = 1 then .returned .downTimeout 0
  else .read (.timeout woken)

/-- `futex_acquire` for a `FUTEX_FD` that returned `fd`. -/
def awaited (fd : Int) : Pc :=
  if fd < 0 then .returned (.acquire false) fd else .read (.retry fd)

namespace State

variable {C : Type} (s : State C) (c : C) (pc : Pc) (b : Bool) (v : Int)

def setCount (s : State C) (v : Int) : State C := { s with count := v }

@[simp] theorem setCount_count : (s.setCount v).count = v := rfl

@[simp] theorem setCount_pc : (s.setCount v).pc = s.pc := rfl

@[simp] theorem setCount_holds : (s.setCount v).holds = s.holds := rfl

variable [DecidableEq C]

def goto (s : State C) (c : C) (pc : Pc) : State C := { s with pc := update s.pc c pc }

def setHolds (s : State C) (c : C) (b : Bool) : State C :=
  { s with holds := update s.holds c b }

@[simp] theorem goto_count : (s.goto c pc).count = s.count := rfl

@[simp] theorem goto_pc : (s.goto c pc).pc = update s.pc c pc := rfl

@[simp] theorem goto_holds : (s.goto c pc).holds = s.holds := rfl

@[simp] theorem setHolds_count : (s.setHolds c b).count = s.count := rfl

@[simp] theorem setHolds_pc : (s.setHolds c b).pc = s.pc := rfl

@[simp] theorem setHolds_holds : (s.setHolds c b).holds = update s.holds c b := rfl

/-- The next memory access or system call of `c`. -/
def go (s : State C) (c : C) (result : Int) : Option (State C) :=
  match s.pc c with
  | .idle => none
  | .returned _ _ => none
  | .read k => some (s.goto c (if s.count < 0 then k.failed else .dec k))
  | .dec k =>
    let v := wrapInt (s.count - 1)
    if v = 0 then some (((s.setCount v).setHolds c true).goto c k.got)
    else some ((s.setCount v).goto c k.failed)
  | .wait woken => some (s.goto c (waited woken result))
  | .waitCheck _ =>
    some (s.goto c (if s.count ≤ futexPassed then .passed .downTimeout else .read (.timeout true)))
  | .await => some (s.goto c (awaited result))
  | .check fd =>
    some (s.goto c
      (if s.count ≤ futexPassed then .passed (.acquire false) else .returned (.acquire false) fd))
  | .passed op => some (((s.setCount (-1)).setHolds c true).goto c (.returned op 0))
  | .mark => some ((s.setCount (-1)).goto c (.returned .downTimeout 0))
  | .inc =>
    -- `jg` looks at the sign of the true result
    let s' := s.setCount (wrapInt (s.count + 1))
    if 0 < s.count + 1 then some ((s'.setHolds c false).goto c (.returned .up 0))
    else some (s'.goto c .store)
  | .store => some (((s.setCount 1).setHolds c false).goto c .wake)
  | .wake => some (s.goto c (.returned .up result))

def step (s : State C) : Action C → Option (State C)
  | .call c op => if (s.pc c).outside then some (s.goto c op.entry) else none
  | .go c result => s.go c result

end State

variable {C : Type}

/-- `futex_init`, before any call. -/
structure Initial (s : State C) : Prop where
  count : s.count = 1
  idle  : ∀ c, s.pc c = .idle
  free  : ∀ c, s.holds c = false

/-- What a system call may return: `FUTEX_WAIT` 0 or an error, `FUTEX_FD` an error or a
descriptor other than 0. -/
def Pc.accepts : Pc → Int → Prop
  | .wait _, result => result ≤ 0
  | .await, result => result ≠ 0
  | _, _ => True

instance (pc : Pc) (result : Int) : Decidable (pc.accepts result) := by
  cases pc <;> unfold Pc.accepts <;> infer_instance

/-- Only a holder gives the futex back. -/
def Proper (s : State C) : Action C → Prop
  | .call c op => op = .up → s.holds c = true
  | .go c result => (s.pc c).accepts result

instance (s : State C) (a : Action C) : Decidable (Proper s a) := by
  rcases a <;> dsimp only [Proper] <;> infer_instance

/-! ## Exclusion -/

/-- The places that only a holder reaches: the calls that got the futex, and
`futex_up` until it has given it back. -/
def Pc.needs : Pc → Bool
  | .mark | .inc | .store => true
  | .returned .up _ => false
  | .returned (.acquire true) _ => false
  | .returned _ result => result = 0
  | _ => false

/-- A place of `futex_acquire` that carries a descriptor. -/
def Pc.fd : Pc → Option Int
  | .read (.retry fd) => some fd
  | .dec (.retry fd) => some fd
  | .check fd => some fd
  | _ => none

structure Excl (s : State C) : Prop where
  le    : s.count ≤ 1
  one   : ∀ c d, s.holds c = true → s.holds d = true → c = d
  held  : ∀ c, s.holds c = true → s.count ≤ 0
  needs : ∀ c, (s.pc c).needs = true → s.holds c = true
  fd    : ∀ c, (s.pc c).fd ≠ some 0
  fresh : ∀ c op, s.pc c ≠ .passed op

variable {s s' : State C} {c : C} {a : Action C} {result : Int}

theorem Excl.setCount {v : Int} (h : Excl s) (hv : v ≤ 0) : Excl (s.setCount v) := by
  refine ⟨?_, h.one, fun _ _ => hv, h.needs, h.fd, h.fresh⟩
  rw [State.setCount_count]
  omega

theorem Initial.excl (h : Initial s) : Excl s := by
  refine ⟨by rw [h.count], fun c d hc => ?_, fun c hc => ?_, fun c hc => ?_, fun c => ?_,
    fun c op => ?_⟩
  · simp [h.free c] at hc
  · simp [h.free c] at hc
  · simp [h.idle c, Pc.needs] at hc
  · simp [h.idle c, Pc.fd]
  · simp [h.idle c]

section

variable [Fintype C]

/-- A client that has read a counter of 0 or more and has yet to decrement it. -/
def Pc.pending : Pc → Nat
  | .dec _ => 1
  | _ => 0

def State.pending (s : State C) : Nat := ∑ c, (s.pc c).pending

/-- Every client can decrement the counter once, whatever it reads later. -/
def Bounded (s : State C) : Prop := -(Fintype.card C : Int) ≤ s.count - s.pending

theorem pending_le_one (pc : Pc) : pc.pending ≤ 1 := by
  cases pc <;> simp [Pc.pending]

theorem pending_le_card (s : State C) : s.pending ≤ Fintype.card C :=
  Count.total_le_card pending_le_one

theorem Bounded.above (h : Bounded s) (hN : Fintype.card C < 2 ^ 30) : futexPassed < s.count := by
  unfold Bounded at h
  simp only [futexPassed]
  omega

theorem Initial.bounded (h : Initial s) : Bounded s := by
  have h0 : s.pending = 0 := Finset.sum_eq_zero fun c _ => by simp [h.idle c, Pc.pending]
  unfold Bounded
  rw [h.count, h0]
  omega

end

variable [DecidableEq C]

theorem Excl.goto {pc : Pc} (h : Excl s) (hneeds : pc.needs = true → s.holds c = true)
    (hfd : pc.fd ≠ some 0) (hfresh : ∀ op, pc ≠ .passed op) : Excl (s.goto c pc) := by
  refine ⟨h.le, h.one, h.held, ?_, ?_, ?_⟩
  · exact (forall_update_iff s.pc fun d q => q.needs = true → s.holds d = true).mpr
      ⟨hneeds, fun d _ => h.needs d⟩
  · exact (forall_update_iff s.pc fun _ q => q.fd ≠ some 0).mpr ⟨hfd, fun d _ => h.fd d⟩
  · exact (forall_update_iff s.pc fun _ q => ∀ op, q ≠ .passed op).mpr
      ⟨hfresh, fun d _ => h.fresh d⟩

theorem Excl.take (h : Excl s) (hfree : ∀ d, s.holds d = false) :
    Excl ((s.setCount 0).setHolds c true) := by
  have honly : ∀ d, update s.holds c true d = true → d = c := by
    intro d hd
    by_contra hdc
    rw [update_of_ne hdc, hfree d] at hd
    cases hd
  refine ⟨by simp, ?_, fun _ _ => le_rfl, ?_, h.fd, h.fresh⟩
  · intro d e hd he
    exact (honly d hd).trans (honly e he).symm
  · intro d hd
    have hh := h.needs d hd
    rw [hfree d] at hh
    cases hh

theorem Excl.give {pc : Pc} (h : Excl s) (hold : s.holds c = true) (hneeds : pc.needs = false)
    (hfd : pc.fd ≠ some 0) (hfresh : ∀ op, pc ≠ .passed op) :
    Excl (((s.setCount 1).setHolds c false).goto c pc) := by
  have hgone := h.goto (c := c) (fun hn => by simp [hneeds] at hn) hfd hfresh
  have hnone : ∀ d, ¬ update s.holds c false d = true := by
    intro d hd
    by_cases hdc : d = c
    · simp [hdc] at hd
    · rw [update_of_ne hdc] at hd
      exact hdc (h.one d c hd hold)
  refine ⟨by simp, fun d _ hd => absurd hd (hnone d), fun d hd => absurd hd (hnone d),
    fun d hd => ?_, hgone.fd, hgone.fresh⟩
  by_cases hdc : d = c
  · simp [hdc, hneeds] at hd
  · exact absurd (h.one d c (hgone.needs d hd) hold) hdc

theorem failed_needs (k : Site) : k.failed.needs = false := by
  cases k with
  | trydown => simp [Site.failed, Pc.needs, ewouldblock]
  | acquire tryonly => cases tryonly <;> simp [Site.failed, Pc.needs]
  | timeout | retry => rfl

theorem failed_ne_passed (k : Site) (op : Op) : k.failed ≠ .passed op := by
  cases k with
  | acquire tryonly => cases tryonly <;> simp [Site.failed]
  | trydown | timeout | retry => simp [Site.failed]

theorem got_ne_passed (k : Site) (op : Op) : k.got ≠ .passed op := by
  cases k with
  | timeout woken => cases woken <;> simp [Site.got]
  | trydown | acquire | retry => simp [Site.got]

theorem got_fd (k : Site) : k.got.fd = none := by
  cases k with
  | timeout woken => cases woken <;> rfl
  | trydown | acquire | retry => rfl

theorem failed_fd (k : Site) : k.failed.fd = (Pc.read k).fd := by
  cases k with
  | acquire tryonly => cases tryonly <;> rfl
  | trydown | timeout | retry => rfl

theorem dec_fd (k : Site) : (Pc.dec k).fd = (Pc.read k).fd := by
  cases k <;> rfl

theorem Excl.read (h : Excl s) {k : Site} (hpc : s.pc c = .read k)
    (hs : s.go c result = some s') : Excl s' := by
  have hfd := h.fd c
  rw [hpc] at hfd
  simp only [State.go, hpc, Option.some.injEq] at hs
  subst hs
  split
  · exact h.goto (by simp [failed_needs]) (by rwa [failed_fd]) (failed_ne_passed k)
  · exact h.goto (by simp [Pc.needs]) (by rwa [dec_fd]) (by simp)

theorem Excl.dec (h : Excl s) {k : Site} (hpc : s.pc c = .dec k) (hlow : futexPassed < s.count)
    (hs : s.go c result = some s') : Excl s' := by
  have hle := h.le
  have hfd := h.fd c
  rw [hpc, dec_fd] at hfd
  have hw : wrapInt (s.count - 1) = s.count - 1 := by
    simp only [futexPassed] at hlow
    exact wrapInt_of_small (by omega) (by omega)
  simp only [State.go, hpc, hw] at hs
  split at hs
  case isTrue h0 =>
    -- the counter was 1, so nobody holds the futex
    have hfree : ∀ d, s.holds d = false := by
      intro d
      by_contra hd
      have := h.held d (by simpa using hd)
      omega
    cases hs
    rw [h0]
    exact (h.take hfree).goto (by simp) (by simp [got_fd]) (got_ne_passed k)
  case isFalse h0 =>
    cases hs
    exact (h.setCount (by omega)).goto (by simp [failed_needs]) (by rwa [failed_fd])
      (failed_ne_passed k)

theorem Excl.inc (h : Excl s) (hpc : s.pc c = .inc) (hlow : futexPassed < s.count + 1)
    (hs : s.go c result = some s') : Excl s' := by
  have hhold := h.needs c (by simp [hpc, Pc.needs])
  have hle := h.held c hhold
  have hw : wrapInt (s.count + 1) = s.count + 1 := by
    simp only [futexPassed] at hlow
    exact wrapInt_of_small (by omega) (by omega)
  simp only [State.go, hpc, hw] at hs
  split at hs
  · -- nobody has tried since the futex was taken
    have h1 : s.count + 1 = 1 := by omega
    cases hs
    rw [h1]
    exact h.give hhold rfl (by simp [Pc.fd]) (by simp)
  · cases hs
    exact (h.setCount (by omega)).goto (fun _ => hhold) (by simp [Pc.fd]) (by simp)

theorem Excl.wait (h : Excl s) {woken : Bool} (hpc : s.pc c = .wait woken) (hr : result ≤ 0)
    (hs : s.go c result = some s') : Excl s' := by
  simp only [State.go, hpc, Option.some.injEq, waited] at hs
  subst hs
  have h1 : result ≠ 1 := by omega
  split
  · exact h.goto (by simp [Pc.needs]) (by simp [Pc.fd]) (by simp)
  next h0 =>
    split
    · exact h.goto (by simp [Pc.needs]) (by simp [Pc.fd]) (by simp)
    · rw [if_pos (by omega)]
      exact h.goto (by simp [Pc.needs, h0]) (by simp [Pc.fd]) (by simp)

theorem Excl.await (h : Excl s) (hpc : s.pc c = .await) (hr : result ≠ 0)
    (hs : s.go c result = some s') : Excl s' := by
  simp only [State.go, hpc, Option.some.injEq, awaited] at hs
  subst hs
  split
  · exact h.goto (by simp [Pc.needs, hr]) (by simp [Pc.fd]) (by simp)
  · exact h.goto (by simp [Pc.needs]) (by simpa [Pc.fd] using hr) (by simp)

theorem Excl.checks (h : Excl s) (hlow : futexPassed < s.count)
    (hpc : (∃ woken, s.pc c = .waitCheck woken) ∨ ∃ fd, s.pc c = .check fd)
    (hs : s.go c result = some s') : Excl s' := by
  have hnot : ¬ s.count ≤ futexPassed := by omega
  rcases hpc with ⟨woken, hpc⟩ | ⟨fd, hpc⟩ <;>
    simp only [State.go, hpc, Option.some.injEq, hnot, if_false] at hs <;> subst hs
  · exact h.goto (by simp [Pc.needs]) (by simp [Pc.fd]) (by simp)
  · have hfd := h.fd c
    rw [hpc] at hfd
    have h0 : fd ≠ 0 := by simpa [Pc.fd] using hfd
    exact h.goto (by simp [Pc.needs, h0]) (by simp [Pc.fd]) (by simp)

/-- One step keeps the exclusion while the counter is above `FUTEX_PASSED`. -/
theorem Excl.step (h : Excl s) (hok : Proper s a)
    (hlow : futexPassed < s.count) (hs : s.step a = some s') : Excl s' := by
  cases a with
  | call c op =>
    obtain ⟨-, ⟨⟩⟩ := Option.ite_none_right_eq_some.mp hs
    refine h.goto ?_ ?_ ?_
    · cases op with
      | up => exact fun _ => hok rfl
      | trydown | downTimeout | acquire => simp [Op.entry, Pc.needs]
    · cases op <;> simp [Op.entry, Pc.fd]
    · cases op <;> simp [Op.entry]
  | go c result =>
    have hresult : (s.pc c).accepts result := hok
    simp only [State.step] at hs
    cases hpc : s.pc c with
    | idle | returned => simp [State.go, hpc] at hs
    | read k => exact h.read hpc hs
    | dec k => exact h.dec hpc hlow hs
    | wait woken => exact h.wait hpc (by simpa [hpc, Pc.accepts] using hresult) hs
    | waitCheck woken => exact h.checks hlow (Or.inl ⟨woken, hpc⟩) hs
    | await => exact h.await hpc (by simpa [hpc, Pc.accepts] using hresult) hs
    | check fd => exact h.checks hlow (Or.inr ⟨fd, hpc⟩) hs
    | passed op => exact absurd hpc (h.fresh c op)
    | mark =>
      have hhold := h.needs c (by simp [hpc, Pc.needs])
      simp only [State.go, hpc, Option.some.injEq] at hs
      subst hs
      exact (h.setCount (by omega)).goto (fun _ => hhold) (by simp [Pc.fd]) (by simp)
    | inc => exact h.inc hpc (by omega) hs
    | store =>
      have hhold := h.needs c (by simp [hpc, Pc.needs])
      simp only [State.go, hpc, Option.some.injEq] at hs
      subst hs
      exact h.give hhold rfl (by simp [Pc.fd]) (by simp)
    | wake =>
      simp only [State.go, hpc, Option.some.injEq] at hs
      subst hs
      exact h.goto (by simp [Pc.needs]) (by simp [Pc.fd]) (by simp)

/-! ## The counter stays above FUTEX_PASSED -/

section Bounded

variable [Fintype C]

theorem pending_goto (s : State C) (c : C) (pc : Pc) :
    (s.goto c pc).pending + (s.pc c).pending = s.pending + pc.pending :=
  Count.total_update s.pc Pc.pending c pc

theorem pending_lt_card (h0 : (s.pc c).pending = 0) : s.pending + 1 ≤ Fintype.card C := by
  have hle := pending_le_card (s.goto c (.dec .trydown))
  have heq := pending_goto s c (.dec .trydown)
  have h1 : (Pc.dec .trydown).pending = 1 := rfl
  omega

theorem Bounded.goto {v : Int} {pc : Pc} {holds : C → Bool} (h : Bounded s)
    (hv : v + (s.pc c).pending ≥ s.count + pc.pending ∨
      (-1 ≤ v ∧ (s.pc c).pending = 0 ∧ pc.pending = 0) ∨ (0 ≤ v)) :
    Bounded { s.goto c pc with count := v, holds := holds } := by
  have heq := pending_goto s c pc
  have hle := pending_le_card (s.goto c pc)
  have hp : State.pending { s.goto c pc with count := v, holds := holds } = (s.goto c pc).pending :=
    rfl
  unfold Bounded at h ⊢
  rw [hp]
  show _ ≤ v - _
  rcases hv with hv | ⟨hv, h0, h1⟩ | hv
  · omega
  · have hlt := pending_lt_card h0
    omega
  · omega

theorem pending_of_outside {pc : Pc} (h : pc.outside = true) : pc.pending = 0 := by
  cases pc <;> simp_all [Pc.outside, Pc.pending]

theorem failed_pending (k : Site) : k.failed.pending = 0 := by
  cases k with
  | acquire tryonly => cases tryonly <;> rfl
  | trydown | timeout | retry => rfl

theorem got_pending (k : Site) : k.got.pending = 0 := by
  cases k with
  | timeout woken => cases woken <;> rfl
  | trydown | acquire | retry => rfl

theorem Bounded.idle {pc : Pc} (h : Bounded s) (h0 : pc.pending = 0)
    (hpc : (s.pc c).pending = 0) : Bounded (s.goto c pc) :=
  h.goto (Or.inl (by omega))

theorem Bounded.go (h : Bounded s) (hE : Excl s) (hN : Fintype.card C < 2 ^ 30)
    (hs : s.go c result = some s') : Bounded s' := by
  have hlow := h.above hN
  have hle := hE.le
  have hw : ∀ d : Int, d = 1 ∨ d = -1 → wrapInt (s.count + d) = s.count + d := by
    intro d hd
    simp only [futexPassed] at hlow
    exact wrapInt_of_small (by omega) (by omega)
  cases hpc : s.pc c <;> have hp := congrArg Pc.pending hpc <;>
    simp only [State.go, hpc, waited, awaited, reduceCtorEq, Option.some.injEq] at hs
  case read k =>
    subst hs
    split
    · exact h.idle (failed_pending k) hp
    · exact h.goto (Or.inr (Or.inr (by omega)))
  case dec k =>
    have h1 : (s.pc c).pending = 1 := hp
    have hv := hw (-1) (Or.inr rfl)
    rw [← Int.sub_eq_add_neg] at hv
    rw [hv] at hs
    split at hs <;> cases hs <;> refine h.goto (Or.inl ?_)
    · simp only [State.setHolds_count, State.setCount_count, got_pending, h1]
      omega
    · simp only [State.setCount_count, failed_pending, h1]
      omega
  case passed op => exact absurd hpc (hE.fresh c op)
  case mark =>
    subst hs
    exact h.goto (Or.inr (Or.inl ⟨le_rfl, hp, rfl⟩))
  case inc =>
    rw [hw 1 (Or.inl rfl)] at hs
    split at hs <;> cases hs <;> exact h.goto (Or.inl (by simp [hpc, Pc.pending]))
  case store =>
    subst hs
    exact h.goto (Or.inr (Or.inr (by simp)))
  all_goals
    -- a step that leaves the counter as it is
    subst hs
    exact h.idle (by first | rfl | (split_ifs <;> rfl)) hp

/-- The counter stays there with fewer than 2^30 clients. -/
theorem Bounded.step (h : Bounded s) (hE : Excl s) (hN : Fintype.card C < 2 ^ 30)
    (hs : s.step a = some s') : Bounded s' := by
  cases a with
  | call c op =>
    obtain ⟨hout, ⟨⟩⟩ := Option.ite_none_right_eq_some.mp hs
    exact h.idle (by cases op <;> rfl) (pending_of_outside hout)
  | go c result => exact h.go hE hN hs

/-- A client to which a call of the acquiring kind has returned 0. -/
def Got (s : State C) (c : C) : Prop :=
  s.pc c = .returned .trydown 0 ∨ s.pc c = .returned .downTimeout 0 ∨
    s.pc c = .returned (.acquire false) 0

/-- **Mutual exclusion.** With fewer than 2^30 clients at most one holds the futex, the
counter is at most 1, and at 1 nobody holds it. A call that returns 0 has got it. -/
theorem futex_exclusion (hN : Fintype.card C < 2 ^ 30)
    (h : Reachable State.step Proper Initial s) :
    (∀ c d, s.holds c = true → s.holds d = true → c = d) ∧ s.count ≤ 1 ∧
      (s.count = 1 → ∀ c, s.holds c = false) ∧ ∀ c, Got s c → s.holds c = true := by
  have hI : Excl s ∧ Bounded s := by
    refine h.invariant (I := fun s => Excl s ∧ Bounded s) ?_ ?_
    · intro s hs
      exact ⟨hs.excl, hs.bounded⟩
    · intro s a s' ⟨hE, hB⟩ hok hs
      exact ⟨hE.step hok (hB.above hN) hs, hB.step hE hN hs⟩
  obtain ⟨hE, -⟩ := hI
  refine ⟨hE.one, hE.le, ?_, ?_⟩
  · intro h1 c
    by_contra hc
    have := hE.held c (by simpa using hc)
    omega
  · intro c hc
    apply hE.needs c
    rcases hc with hc | hc | hc <;> simp [hc, Pc.needs]

end Bounded

def initState : State (Fin 3) := ⟨1, fun _ => .idle, fun _ => false⟩

/-- Client 1 sleeps while client 0 has the futex, and client 2 has read the counter
before all of this. -/
def contended : List (Action (Fin 3)) :=
  [.call 2 .trydown, .go 2 0, .call 0 .trydown, .go 0 0, .go 0 0,
    .call 1 .downTimeout, .go 1 0, .go 1 0, .go 2 0,
    .call 0 .up, .go 0 0, .go 0 0, .go 0 1,
    .go 1 0, .go 1 0, .go 1 0, .go 1 0, .go 1 0]

theorem futex_exclusion_contended :
    ∃ s : State (Fin 3), runOk State.step Proper initState contended = some s ∧
      s.holds 1 = true ∧ s.count = -1 ∧
      (∀ c d, s.holds c = true → s.holds d = true → c = d) ∧ s.count ≤ 1 ∧
      (s.count = 1 → ∀ c, s.holds c = false) ∧ ∀ c, Got s c → s.holds c = true := by
  have hinit : Initial initState := ⟨rfl, fun _ => rfl, fun _ => rfl⟩
  refine exists_and_of_any₂ (fun _ => id) (by decide +kernel) fun s hs _ _ => ?_
  exact futex_exclusion (by simp) (reachable_of_runOk (.init hinit) hs)

end Ngpt.Sync.Futex
