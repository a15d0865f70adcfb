import Ngpt.Lib.Transition

/-!
# ngpt — the table of native threads (`pth_native.c`)

`pth_native_list` has a descriptor for each native thread, and `pth_number_of_natives` is
both their number and the index of the next descriptor to hand out. A creation takes the
descriptor under `pth_native_lock`, clones without it, and the new native thread sets
`is_used` and makes its pipe by itself; so the creations and exits of several native
threads are interleaved step by step here.

The watchdog has a descriptor outside the table. Of a descriptor the model has what the
search for an idle native thread reads. `phase` is not in the code: what has become of the
descriptor since `pth_alloc_native` handed it out; an exit is that of `pth_exit_scheduler`
or of `pth_cleanup_native`.

Result: `native_table_exact`.
-/

namespace Ngpt.Natives

open Function Transition

/-- `PTH_MAX_NATIVE_THREADS`. -/
def pthMaxNativeThreads : Int := 128

/-- `struct pth_descr_st`. -/
structure Descr where
  isUsed        : Bool
  schedIndex    : Int
  isBounded     : Bool
  boundedThread : Option Nat
  deriving DecidableEq, Repr

/-- `PTH_SCOPE_PROCESS` and `PTH_SCOPE_SYSTEM`. -/
inductive Scope where
  | process
  | system
  deriving DecidableEq, Repr

/-- The life of a descriptor of the table: before the clone, before `pth_new_scheduler`
sets `is_used`, before it makes the pipe, and until the exit. -/
inductive Phase where
  | free
  | cloning (scope : Scope)
  | starting
  | piping
  | running
  deriving DecidableEq, Repr

/-- What the two calls of `pth_malloc` return. -/
inductive Memory where
  | enough
  | noTrampoline
  | noStack
  deriving DecidableEq, Repr

/-- The descriptor that `pth_alloc_native` works on. -/
inductive Which where
  | watchdog
  | slot (i : Int)
  deriving DecidableEq, Repr

structure Sys where
  /-- `pth_number_of_natives` -/
  number          : Int
  /-- `pth_native_list` -/
  list            : Int → Descr
  /-- `pth_watchdog_descr` -/
  watchdog        : Descr
  /-- `pth_watchdog_enabled` -/
  watchdogEnabled : Bool
  /-- `pth_first_native.is_running` -/
  firstRunning    : Bool
  phase           : Int → Phase

namespace Sys

def setDescr (s : Sys) (w : Which) (d : Descr) : Sys :=
  match w with
  | .watchdog => { s with watchdog := d }
  | .slot i => { s with list := update s.list i d }

def setPhase (s : Sys) (i : Int) (p : Phase) : Sys :=
  { s with phase := update s.phase i p }

def setNumber (s : Sys) (n : Int) : Sys := { s with number := n }

/-- `pth_alloc_native`; with the flag it is for the watchdog. -/
def pthAllocNative (s : Sys) (createStack isWatchdog : Bool) (mem : Memory) : Sys × Option Which :=
  let descr := if isWatchdog then Which.watchdog else .slot s.number
  let s := if isWatchdog then s else s.setNumber (s.number + 1)
  if s.number ≥ pthMaxNativeThreads - 1 then (s.setNumber (s.number - 1), none)
  else
    let back := if isWatchdog then s.number else s.number - 1
    let s := s.setDescr descr ⟨false, s.number - 1, false, none⟩
    if isWatchdog = false ∧ s.number - 1 ≠ 0 ∧ mem = .noTrampoline then (s.setNumber back, none)
    else if createStack = true ∧ mem = .noStack then (s.setNumber back, none)
    else (s, some descr)

/-- The search for an idle native thread with `left` descriptors still in the table. -/
def idleNative (list : Int → Descr) : (left : Nat) → (slot : Int) → Option Int
  | 0, _ => none
  | left + 1, slot =>
    if (list slot).isUsed then
      if (list slot).isBounded ∧ (list slot).boundedThread = none then some slot
      else idleNative list left (slot + 1)
    else none

/-- `pth_new_native` for the thread `t` up to the release of the lock. -/
def pthNewNative (s : Sys) (scope : Scope) (t : Option Nat) (mem : Memory) : Sys × Option Which :=
  if s.firstRunning = false then (s, none)
  else
    match if scope = .system then idleNative s.list 127 1 else none with
    | some i => (s, some (.slot i))
    | none =>
      match s.pthAllocNative true false mem with
      | (s, some (.slot i)) =>
        ((s.setDescr (.slot i) { s.list i with
            boundedThread := if t.isSome then t else (s.list i).boundedThread }).setPhase i
              (.cloning scope), some (.slot i))
      | (s, _) => (s, none)

/-- A native thread is gone: `is_used = FALSE` and `pth_number_of_natives--`. -/
def leave (s : Sys) (i : Int) : Sys :=
  ((s.setDescr (.slot i) { s.list i with isUsed := false }).setPhase i .free).setNumber
    (s.number - 1)

/-- The rest of `pth_new_native`. -/
def clone (s : Sys) (i : Int) (ok : Bool) : Option Sys :=
  match s.phase i with
  | .cloning scope =>
    let s := if scope = .system then s.setDescr (.slot i) { s.list i with isBounded := true } else s
    if ok then some (s.setPhase i .starting) else some (s.leave i)
  | _ => none

/-- The start of `pth_new_scheduler`. -/
def start (s : Sys) (i : Int) : Option Sys :=
  if s.phase i = .starting then
    some ((s.setDescr (.slot i) { s.list i with isUsed := true }).setPhase i .piping)
  else none

def pipe (s : Sys) (i : Int) (ok : Bool) : Option Sys :=
  if s.phase i = .piping then
    if ok then some (s.setPhase i .running) else some (s.leave i)
  else none

/-- The exit of a native thread; the first one does not exit. -/
def exit (s : Sys) (i : Int) : Option Sys :=
  if s.phase i = .running ∧ i ≠ 0 then some (s.leave i) else none

/-- `pth_new_watchdog`. -/
def pthNewWatchdog (s : Sys) (mem : Memory) (cloned : Bool) : Sys :=
  if s.watchdogEnabled then s
  else
    match ({ s with watchdogEnabled := true } : Sys).pthAllocNative true true mem with
    | (s, none) => s
    | (s, some _) =>
      if cloned then s else s.setDescr .watchdog { s.watchdog with isUsed := false }

end Sys

inductive Event where
  /-- `pth_new_native`, up to the release of the lock -/
  | create (scope : Scope) (t : Option Nat) (mem : Memory)
  | clone (i : Int) (ok : Bool)
  | start (i : Int)
  | pipe (i : Int) (ok : Bool)
  | exit (i : Int)
  | watchdog (mem : Memory) (cloned : Bool)
  /-- the first native thread ends, see `pth_drop_natives` -/
  | drop
  deriving DecidableEq, Repr

def Sys.step (s : Sys) : Event → Option Sys
  | .create scope t mem => some (s.pthNewNative scope t mem).1
  | .clone i ok => s.clone i ok
  | .start i => s.start i
  | .pipe i ok => s.pipe i ok
  | .exit i => s.exit i
  | .watchdog mem cloned => some (s.pthNewWatchdog mem cloned)
  | .drop => some { s with firstRunning := false, watchdogEnabled := false }

/-- After `pth_init`: the first native thread only. -/
structure Start (s : Sys) : Prop where
  number : s.number = 1
  first  : s.phase 0 = .running
  free   : ∀ i, i ≠ 0 → s.phase i = .free

/-- The condition on a step: the native thread that goes, or whose creation fails after
the allocation, has the last descriptor in use. -/
def LastOut (s : Sys) : Event → Prop
  | .clone i false | .pipe i false | .exit i => i + 1 = s.number
  | _ => True

instance (s : Sys) (e : Event) : Decidable (LastOut s e) := by
  unfold LastOut; split <;> infer_instance

/-- Exactly the descriptors below the number are in use. -/
def InUseBelow (s : Sys) : Prop := ∀ i, s.phase i ≠ .free ↔ 0 ≤ i ∧ i < s.number

/-- `pth_alloc_native` hands out a descriptor that is not in use. -/
def AllocFree (s : Sys) : Prop :=
  ∀ createStack mem s' i, s.pthAllocNative createStack false mem = (s', some (.slot i)) →
    s.phase i = .free

/-- A creation that fails leaves the number as it was: in the allocation, in the clone, in
the new native thread, and for the watchdog. -/
structure FailuresUndone (s : Sys) : Prop where
  alloc    : ∀ scope t mem s', s.pthNewNative scope t mem = (s', none) → s'.number = s.number
  clone    : ∀ scope t mem s', run Sys.step s [.create scope t mem, .clone s.number false] =
    some s' → s'.number = s.number
  pipe     : ∀ scope t mem s', run Sys.step s [.create scope t mem, .clone s.number true,
    .start s.number, .pipe s.number false] = some s' → s'.number = s.number
  watchdog : ∀ mem cloned, (s.pthNewWatchdog mem cloned).number = s.number

/-! ## The allocation -/

/-- The invariant. -/
structure Exact (s : Sys) : Prop where
  inUse : InUseBelow s
  nonneg : 0 ≤ s.number
  /-- the last descriptor but two is the last that is handed out -/
  room  : s.number < pthMaxNativeThreads - 1

variable {s s' : Sys} {i : Int} {createStack : Bool} {mem : Memory}

@[simp] theorem setDescr_number (s : Sys) (w : Which) (d : Descr) :
    (s.setDescr w d).number = s.number := by
  rcases w with _ | i <;> rfl

@[simp] theorem setDescr_phase (s : Sys) (w : Which) (d : Descr) :
    (s.setDescr w d).phase = s.phase := by
  rcases w with _ | i <;> rfl

@[simp] theorem setNumber_number (s : Sys) (n : Int) : (s.setNumber n).number = n := rfl

@[simp] theorem setNumber_phase (s : Sys) (n : Int) : (s.setNumber n).phase = s.phase := rfl

@[simp] theorem setPhase_number (s : Sys) (i : Int) (p : Phase) :
    (s.setPhase i p).number = s.number := rfl

@[simp] theorem setPhase_phase (s : Sys) (i : Int) (p : Phase) :
    (s.setPhase i p).phase = update s.phase i p := rfl

theorem pthAllocNative_phase (s : Sys) (createStack isWatchdog : Bool) (mem : Memory) :
    (s.pthAllocNative createStack isWatchdog mem).1.phase = s.phase := by
  unfold Sys.pthAllocNative
  rcases isWatchdog with _ | _ <;> simp only [] <;> split_ifs <;> simp

theorem pthAllocNative_some {w : Which}
    (h : s.pthAllocNative createStack false mem = (s', some w)) :
    w = .slot s.number ∧ s'.number = s.number + 1 ∧ s'.number < pthMaxNativeThreads - 1 := by
  simp only [Sys.pthAllocNative, Bool.false_eq_true, if_false, setNumber_number] at h
  split_ifs at h with hfull htrampoline hstack
  · cases h
  · cases h
  · cases h
  · obtain ⟨rfl, hw⟩ := Prod.mk.inj h
    rw [setDescr_number]
    exact ⟨(Option.some.inj hw).symm, rfl, Int.not_le.mp hfull⟩

theorem pthAllocNative_none
    (h : s.pthAllocNative createStack false mem = (s', none)) : s'.number = s.number := by
  simp only [Sys.pthAllocNative, Bool.false_eq_true, if_false, setNumber_number] at h
  split_ifs at h with hfull htrampoline hstack
  all_goals
    first
    | (obtain ⟨rfl, -⟩ := Prod.mk.inj h
       simp only [setNumber_number]
       omega)
    | cases h

theorem pthAllocNative_watchdog (hroom : s.number < pthMaxNativeThreads - 1) :
    (s.pthAllocNative createStack true mem).1.number = s.number := by
  simp only [Sys.pthAllocNative, if_true]
  rw [if_neg (Int.not_le.mpr hroom)]
  split_ifs <;> simp

/-! ## The steps -/

theorem Exact.setPhase {p : Phase} (h : Exact s) (hphase : s'.phase = update s.phase i p)
    (hnumber : s'.number = s.number) (hi : s.phase i ≠ .free) (hp : p ≠ .free) : Exact s' := by
  refine ⟨fun j => ?_, hnumber ▸ h.nonneg, hnumber ▸ h.room⟩
  rw [hphase, hnumber, ← h.inUse j]
  by_cases hji : j = i
  · rw [hji, update_self]
    exact iff_of_true hp hi
  · rw [update_of_ne hji]

theorem Exact.take {p : Phase} (h : Exact s)
    (hphase : s'.phase = update s.phase s.number p) (hnumber : s'.number = s.number + 1)
    (hroom : s'.number < pthMaxNativeThreads - 1) (hp : p ≠ .free) : Exact s' := by
  have hnonneg := h.nonneg
  refine ⟨fun j => ?_, by omega, hroom⟩
  rw [hphase, hnumber]
  by_cases hj : j = s.number
  · rw [hj, update_self]
    exact iff_of_true hp ⟨hnonneg, by omega⟩
  · rw [update_of_ne hj, h.inUse j]
    omega

theorem Exact.leave (h : Exact s) (hphase : s'.phase = update s.phase i .free)
    (hnumber : s'.number = s.number - 1) (hi : s.phase i ≠ .free) (hlast : i + 1 = s.number) :
    Exact s' := by
  have hrange := (h.inUse i).mp hi
  have hroom := h.room
  refine ⟨fun j => ?_, by omega, by omega⟩
  rw [hphase, hnumber]
  by_cases hji : j = i
  · rw [hji, update_self]
    exact iff_of_false (fun hne => hne rfl) (by omega)
  · rw [update_of_ne hji, h.inUse j]
    omega

theorem Exact.congr (h : Exact s) (hphase : s'.phase = s.phase) (hnumber : s'.number = s.number) :
    Exact s' := by
  refine ⟨fun j => ?_, hnumber ▸ h.nonneg, hnumber ▸ h.room⟩
  rw [hphase, hnumber]
  exact h.inUse j

theorem pthNewNative_cases (s : Sys) (scope : Scope) (t : Option Nat) (mem : Memory) :
    ((s.pthNewNative scope t mem).1.phase = s.phase ∧
      (s.pthNewNative scope t mem).1.number = s.number) ∨
    ((s.pthNewNative scope t mem).1.phase = update s.phase s.number (.cloning scope) ∧
      (s.pthNewNative scope t mem).1.number = s.number + 1 ∧
      s.number + 1 < pthMaxNativeThreads - 1 ∧
      (s.pthNewNative scope t mem).2 = some (.slot s.number)) := by
  unfold Sys.pthNewNative
  split
  case isTrue => exact Or.inl ⟨rfl, rfl⟩
  case isFalse =>
    split
    case h_1 => exact Or.inl ⟨rfl, rfl⟩
    case h_2 =>
      have hphase := pthAllocNative_phase s true false mem
      rcases halloc : s.pthAllocNative true false mem with ⟨s₁, _ | w⟩
      · rw [halloc] at hphase
        exact Or.inl ⟨hphase, pthAllocNative_none halloc⟩
      · obtain ⟨rfl, hnumber, hroom⟩ := pthAllocNative_some halloc
        rw [halloc] at hphase
        refine Or.inr ⟨?_, ?_, hnumber ▸ hroom, rfl⟩
        · simp only [setPhase_phase, setDescr_phase]
          exact congrArg (update · s.number _) hphase
        · simpa using hnumber

theorem Exact.create {scope : Scope} {t : Option Nat} (h : Exact s) :
    Exact (s.pthNewNative scope t mem).1 := by
  rcases pthNewNative_cases s scope t mem with ⟨hphase, hnumber⟩ | ⟨hphase, hnumber, hroom, -⟩
  · exact h.congr hphase hnumber
  · exact h.take hphase hnumber (hnumber ▸ hroom) nofun

theorem clone_eq_some {ok : Bool} (hs : s.clone i ok = some s') :
    s.phase i ≠ .free ∧
      s'.phase = update s.phase i (if ok then .starting else .free) ∧
      s'.number = if ok then s.number else s.number - 1 := by
  unfold Sys.clone at hs
  split at hs
  case h_1 scope hphase =>
    refine ⟨by rw [hphase]; nofun, ?_⟩
    rcases ok with _ | _ <;> simp only [Bool.false_eq_true, if_false, if_true] at hs ⊢ <;>
      cases hs <;> rcases scope with _ | _ <;> exact ⟨rfl, rfl⟩
  case h_2 => cases hs

theorem pipe_eq_some {ok : Bool} (hs : s.pipe i ok = some s') :
    s.phase i ≠ .free ∧
      s'.phase = update s.phase i (if ok then .running else .free) ∧
      s'.number = if ok then s.number else s.number - 1 := by
  unfold Sys.pipe at hs
  split at hs
  case isTrue hphase =>
    refine ⟨by rw [hphase]; nofun, ?_⟩
    rcases ok with _ | _ <;> cases hs <;> exact ⟨rfl, rfl⟩
  case isFalse => cases hs

theorem start_eq_some (hs : s.start i = some s') :
    s.phase i ≠ .free ∧ s'.phase = update s.phase i .piping ∧
      s'.number = s.number := by
  unfold Sys.start at hs
  split at hs
  case isTrue hphase =>
    cases hs
    exact ⟨by rw [hphase]; nofun, rfl, rfl⟩
  case isFalse => cases hs

theorem Exact.watchdog {cloned : Bool} (h : Exact s) :
    (s.pthNewWatchdog mem cloned).phase = s.phase ∧
      (s.pthNewWatchdog mem cloned).number = s.number := by
  unfold Sys.pthNewWatchdog
  split
  case isTrue => exact ⟨rfl, rfl⟩
  case isFalse =>
    have hphase := pthAllocNative_phase { s with watchdogEnabled := true } true true mem
    have hnumber :
        (({ s with watchdogEnabled := true } : Sys).pthAllocNative true true mem).1.number =
        s.number := pthAllocNative_watchdog h.room
    split
    case h_1 heq =>
      rw [heq] at hphase hnumber
      exact ⟨hphase, hnumber⟩
    case h_2 heq =>
      rw [heq] at hphase hnumber
      rcases cloned with _ | _
      · exact ⟨hphase, hnumber⟩
      · exact ⟨hphase, hnumber⟩

theorem Exact.step {e : Event} (h : Exact s) (hok : LastOut s e) (hs : s.step e = some s') :
    Exact s' := by
  rcases e with ⟨scope, t, mem⟩ | ⟨i, ok⟩ | i | ⟨i, ok⟩ | i | ⟨mem, cloned⟩ | _
  · cases hs
    exact h.create
  · obtain ⟨hi, hphase, hnumber⟩ := clone_eq_some hs
    rcases ok with _ | _
    · exact h.leave hphase hnumber hi hok
    · exact h.setPhase hphase hnumber hi nofun
  · obtain ⟨hi, hphase, hnumber⟩ := start_eq_some hs
    exact h.setPhase hphase hnumber hi nofun
  · obtain ⟨hi, hphase, hnumber⟩ := pipe_eq_some hs
    rcases ok with _ | _
    · exact h.leave hphase hnumber hi hok
    · exact h.setPhase hphase hnumber hi nofun
  · simp only [Sys.step, Sys.exit] at hs
    split at hs
    case isTrue hphase =>
      cases hs
      exact h.leave rfl rfl (by rw [hphase.1]; nofun) hok
    case isFalse => cases hs
  · cases hs
    exact h.congr h.watchdog.1 h.watchdog.2
  · cases hs
    exact h.congr rfl rfl

theorem Start.exact (h : Start s) : Exact s := by
  refine ⟨fun i => ?_, ?_, ?_⟩
  · rw [h.number]
    by_cases hi : i = 0
    · rw [hi, h.first]
      exact iff_of_true nofun ⟨Int.le_refl 0, by omega⟩
    · rw [h.free i hi]
      exact iff_of_false (fun hne => hne rfl) (by omega)
  · rw [h.number]
    omega
  · rw [h.number]
    decide

/-! ## What follows -/

theorem Exact.next_free (h : Exact s) : s.phase s.number = .free := by
  by_contra hne
  have := (h.inUse s.number).mp hne
  omega

theorem Exact.allocFree (h : Exact s) : AllocFree s := by
  intro createStack mem s' i halloc
  obtain ⟨hslot, -, -⟩ := pthAllocNative_some halloc
  cases hslot
  exact h.next_free

theorem Exact.number_create {scope : Scope} {t : Option Nat} (h : Exact s)
    (hphase : (s.pthNewNative scope t mem).1.phase s.number ≠ .free) :
    (s.pthNewNative scope t mem).1.number = s.number + 1 := by
  rcases pthNewNative_cases s scope t mem with ⟨hsame, -⟩ | ⟨-, hnumber, -, -⟩
  · rw [hsame] at hphase
    exact absurd h.next_free hphase
  · exact hnumber

theorem Exact.failuresUndone (h : Exact s) : FailuresUndone s := by
  refine ⟨fun scope t mem s' hnew => ?_, fun scope t mem s' hrun => ?_,
    fun scope t mem s' hrun => ?_, fun mem cloned => h.watchdog.2⟩
  · rcases pthNewNative_cases s scope t mem with ⟨-, hnumber⟩ | ⟨-, -, -, hsome⟩
    · rwa [hnew] at hnumber
    · rw [hnew] at hsome
      cases hsome
  · simp only [run, Sys.step, Option.bind_some, Option.bind_eq_some_iff, Option.some.injEq] at hrun
    obtain ⟨s₂, hclone, rfl⟩ := hrun
    obtain ⟨hphase, -, hnumber⟩ := clone_eq_some hclone
    have hcount := h.number_create hphase
    simp only [Bool.false_eq_true, if_false] at hnumber
    omega
  · simp only [run, Sys.step, Option.bind_some, Option.bind_eq_some_iff, Option.some.injEq] at hrun
    obtain ⟨s₂, hclone, s₃, hstart, s₄, hpipe, rfl⟩ := hrun
    obtain ⟨hphase, -, hnumber₂⟩ := clone_eq_some hclone
    obtain ⟨-, -, hnumber₃⟩ := start_eq_some hstart
    obtain ⟨-, -, hnumber₄⟩ := pipe_eq_some hpipe
    have hcount := h.number_create hphase
    simp only [Bool.false_eq_true, if_false, if_true] at hnumber₂ hnumber₄
    omega

/-- **Native table.** As long as only the native thread with the last descriptor goes. -/
theorem native_table_exact (s : Sys) (h : Reachable Sys.step LastOut Start s) :
    InUseBelow s ∧ AllocFree s ∧ FailuresUndone s := by
  have hexact : Exact s :=
    h.invariant (fun _ hstart => hstart.exact) fun _ _ _ he hok hs => he.step hok hs
  exact ⟨hexact.inUse, hexact.allocFree, hexact.failuresUndone⟩

/-! ## Two native threads -/

/-- The first native thread alone. -/
def alone : Sys where
  number          := 1
  list i          := ⟨i = 0, 0, false, none⟩
  watchdog        := ⟨false, 0, false, none⟩
  watchdogEnabled := false
  firstRunning    := true
  phase i         := if i = 0 then .running else .free

theorem alone_start : Start alone := ⟨rfl, rfl, fun _ hi => if_neg hi⟩

/-- A native thread is created and runs with descriptor `i`. -/
def creation (i : Int) : List Event :=
  [.create .process none .enough, .clone i true, .start i, .pipe i true]

/-- Two native threads come and go, the last one first; then a pipe fails. -/
theorem native_table_exact_lastOut :
    ∃ s, runOk Sys.step LastOut alone (creation 1 ++ creation 2 ++ [.exit 2, .exit 1] ++
        [.create .system (some 5) .enough, .clone 1 true, .start 1, .pipe 1 false,
          .watchdog .noStack true]) = some s ∧
      s.number = 1 ∧ InUseBelow s ∧ AllocFree s ∧ FailuresUndone s := by
  refine exists_and_of_any (fun _ => id) (by decide +kernel) fun s hs _ => ?_
  exact native_table_exact s (reachable_of_runOk (.init alone_start) hs)

/-- The first of two goes first: the next creation gets the descriptor of the second, which
still runs, and the descriptor of the first is below the number but not in use. -/
theorem exit_leaves_hole :
    ∃ s, Reachable Sys.step Always Start s ∧ s.phase 1 = .free ∧ s.phase 2 = .running ∧
      s.number = 2 ∧ (s.pthAllocNative true false .enough).2 = some (.slot 2) ∧
      ¬ InUseBelow s ∧ ¬ AllocFree s := by
  obtain ⟨s, hs, hone, htwo, hnumber, halloc⟩ : ∃ s, run Sys.step alone (creation 1 ++
      creation 2 ++ ([.exit 1] : List Event)) = some s ∧ s.phase 1 = .free ∧ s.phase 2 = .running ∧
      s.number = 2 ∧ (s.pthAllocNative true false .enough).2 = some (.slot 2) :=
    ⟨_, rfl, rfl, rfl, rfl, rfl⟩
  refine ⟨s, reachable_of_run (.init alone_start) hs, hone, htwo, hnumber, halloc,
    fun h => ?_, fun h => ?_⟩
  · have hrange := (h 2).mp (by rw [htwo]; nofun)
    omega
  · have hfree := h true .enough _ 2 (Prod.ext rfl halloc)
    rw [htwo] at hfree
    cases hfree

end Ngpt.Natives
