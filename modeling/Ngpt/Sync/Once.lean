import Ngpt.Errno
import Ngpt.Lib.Transition

/-!
# ngpt — one-time initialisation (`pthread_once`, `pth_once`)

Both functions test and set the control variable under a lock and call the init routine
after they have released it. A caller that finds the variable set returns at once, also
while the init routine of another caller is still running.

A caller is a thread, or a call made inside the init routine: callers run statement by
statement in any interleaving, and the init routine takes as long as it likes. `entered`
and `finished` are not in the code; they count the entries and the returns of the init
routine.

Result: `once_runs_before_return`.
-/

namespace Ngpt.Sync.Once

open Transition

inductive Fn where
  | pthreadOnce
  | pthOnce
  deriving DecidableEq, Repr

/-- The value that marks the control variable: `1` in `pthread_once`, `TRUE` in
`pth_once`. -/
def Fn.mark : Fn → Int
  | .pthreadOnce => 1
  | .pthOnce => 1

/-- `PTHREAD_ONCE_INIT` and `PTH_ONCE_INIT`. -/
def onceInit : Int := 0

/-- Where a caller is: before the named statement. -/
inductive Pc where
  | idle
  /-- the test for `NULL` arguments -/
  | start (null : Bool)
  | lock
  /-- with the lock: the test and the store, for a `do_once_init` of `init` -/
  | test
  | set (init : Bool)
  | unlock (init : Bool)
  | branch (init : Bool)
  /-- inside the init routine -/
  | running
  | returned (rc : Errno)
  deriving DecidableEq, Repr

structure State (K : Type) where
  control  : Int
  lock     : Option K
  pc       : K → Pc
  entered  : Nat
  finished : Nat

inductive Action (K : Type) where
  | call (k : K) (null : Bool)
  | go (k : K)
  deriving DecidableEq, Repr

def Pc.outside : Pc → Bool
  | .idle | .returned _ => true
  | _ => false

variable {K : Type}

namespace State

variable [DecidableEq K]

def goto (s : State K) (k : K) (pc : Pc) : State K := { s with pc := Function.update s.pc k pc }

/-- The next statement of `k`. -/
def go (fn : Fn) (s : State K) (k : K) : Option (State K) :=
  match s.pc k with
  | .idle => none
  | .returned _ => none
  | .start null => some (s.goto k (if null then .returned .einval else .lock))
  | .lock => if s.lock = none then some { s.goto k .test with lock := some k } else none
  | .test => some (s.goto k (.set (s.control ≠ fn.mark)))
  | .set init => some { s.goto k (.unlock init) with control := fn.mark }
  | .unlock init => some { s.goto k (.branch init) with lock := none }
  | .branch init =>
    if init then some { s.goto k .running with entered := s.entered + 1 }
    else some (s.goto k (.returned .ok))
  | .running => some { s.goto k (.returned .ok) with finished := s.finished + 1 }

def step (fn : Fn) (s : State K) : Action K → Option (State K)
  | .call k null => if (s.pc k).outside then some (s.goto k (.start null)) else none
  | .go k => s.go fn k

end State

structure Initial (s : State K) : Prop where
  control  : s.control = onceInit
  lock     : s.lock = none
  idle     : ∀ k, s.pc k = .idle
  entered  : s.entered = 0
  finished : s.finished = 0

/-- A caller that finds the variable set finds the init routine done. -/
def NotEarly (fn : Fn) (s : State K) : Action K → Prop
  | .call _ _ => True
  | .go k => s.pc k = .test → s.control = fn.mark → 1 ≤ s.finished

instance (fn : Fn) (s : State K) (a : Action K) : Decidable (NotEarly fn s a) := by
  rcases a <;> dsimp only [NotEarly] <;> infer_instance

/-! ## The invariant -/

/-- Inside the section that the lock guards. -/
def Pc.locked : Pc → Bool
  | .test | .set _ | .unlock _ => true
  | _ => false

/-- The caller that runs the init routine, from its test to the routine's return. -/
def Pc.wins : Pc → Bool
  | .set init | .unlock init | .branch init => init
  | .running => true
  | _ => false

/-- A caller that has passed the store of the control variable. -/
def Pc.stored : Pc → Bool
  | .unlock _ | .branch _ | .running | .returned .ok => true
  | _ => false

/-- A caller that found the variable set, or whose call is over. -/
def Pc.late : Pc → Bool
  | .set init | .unlock init | .branch init => !init
  | .returned .ok => true
  | _ => false

/-- The init routine as the winner has it: not entered yet, or running. -/
def Pc.entries : Pc → Nat
  | .running => 1
  | _ => 0

structure Inv (fn : Fn) (s : State K) : Prop where
  lock   : ∀ k, (s.pc k).locked = true → s.lock = some k
  clear  : s.control ≠ fn.mark → s.entered = 0 ∧ s.finished = 0
  stored : ∀ k, (s.pc k).stored = true → s.control = fn.mark
  tested : ∀ k, s.pc k = .set false → s.control = fn.mark
  fresh  : ∀ k, s.pc k = .set true → s.control ≠ fn.mark
  one    : ∀ j k, (s.pc j).wins = true → (s.pc k).wins = true → j = k
  winner : ∀ k, (s.pc k).wins = true → s.entered = (s.pc k).entries ∧ s.finished = 0
  done   : s.control = fn.mark → (∀ k, ¬ (s.pc k).wins = true) → s.entered = 1 ∧ s.finished = 1
  late   : ∀ k, (s.pc k).late = true → s.entered = 1 ∧ s.finished = 1

variable {fn : Fn} {s s' : State K} {k : K} {a : Action K} {pc : Pc}

/-- What holds of the caller `k` at its place. -/
structure At (fn : Fn) (s : State K) (k : K) (pc : Pc) : Prop where
  lock   : pc.locked = true → s.lock = some k
  stored : pc.stored = true → s.control = fn.mark
  tested : pc = .set false → s.control = fn.mark
  fresh  : pc = .set true → s.control ≠ fn.mark
  winner : pc.wins = true → s.entered = pc.entries ∧ s.finished = 0
  late   : pc.late = true → s.entered = 1 ∧ s.finished = 1

theorem Inv.at (h : Inv fn s) (j : K) : At fn s j (s.pc j) :=
  ⟨h.lock j, h.stored j, h.tested j, h.fresh j, h.winner j, h.late j⟩

theorem At.before (hl : pc.locked = false) (hs : pc.stored = false)
    (hw : pc.wins = false) (hlate : pc.late = false) : At fn s k pc := by
  have hset : ∀ b, pc ≠ .set b := by
    rintro b rfl
    cases hl
  exact ⟨fun h => (nomatch hl.symm.trans h), fun h => (nomatch hs.symm.trans h),
    fun h => absurd h (hset false), fun h => absurd h (hset true),
    fun h => (nomatch hw.symm.trans h), fun h => (nomatch hlate.symm.trans h)⟩

theorem At.congr (h : At fn s k pc) (hlock : pc.locked = true → s'.lock = some k)
    (hcontrol : s'.control = s.control) (hentered : s'.entered = s.entered)
    (hfinished : s'.finished = s.finished) : At fn s' k pc :=
  ⟨hlock, by rw [hcontrol]; exact h.stored, by rw [hcontrol]; exact h.tested,
    by rw [hcontrol]; exact h.fresh, by rw [hentered, hfinished]; exact h.winner,
    by rw [hentered, hfinished]; exact h.late⟩

theorem Inv.alone (h : Inv fn s) (hk : (s.pc k).locked = true) {j : K}
    (hj : (s.pc j).locked = true) : j = k :=
  Option.some.inj ((h.lock j hj).symm.trans (h.lock k hk))

theorem Inv.others_of_winner (h : Inv fn s) (hk : (s.pc k).wins = true) {j : K} (hj : j ≠ k)
    (hlock : s'.lock = s.lock) (hcontrol : s'.control = s.control) : At fn s' j (s.pc j) := by
  refine ⟨fun hp => hlock ▸ h.lock j hp, fun hp => hcontrol ▸ h.stored j hp,
    fun hp => hcontrol ▸ h.tested j hp, fun hp => hcontrol ▸ h.fresh j hp,
    fun hp => absurd (h.one j k hp hk) hj, fun hp => ?_⟩
  have hf := (h.winner k hk).2
  have hf' := (h.late j hp).2
  omega

theorem Initial.inv (h : Initial s) : Inv fn s := by
  have hmark : onceInit ≠ fn.mark := by cases fn <;> decide
  refine ⟨?_, fun _ => ⟨h.entered, h.finished⟩, ?_, ?_, ?_, ?_, ?_, ?_, ?_⟩
  all_goals simp only [h.idle, h.control]
  · simp [Pc.locked]
  · simp [Pc.stored]
  · simp
  · simp
  · simp [Pc.wins]
  · simp [Pc.wins]
  · exact fun hc => absurd hc hmark
  · simp [Pc.late]

variable [DecidableEq K]

theorem Inv.move (h : Inv fn s) (hpc : s'.pc = Function.update s.pc k pc)
    (hself : At fn s' k pc) (hothers : ∀ j, j ≠ k → At fn s' j (s.pc j))
    (hone : pc.wins = true → (s.pc k).wins = true ∨ ∀ j, ¬ (s.pc j).wins = true)
    (hclear : s'.control ≠ fn.mark → s'.entered = 0 ∧ s'.finished = 0)
    (hdone : s'.control = fn.mark → ¬ pc.wins = true →
      (∀ j, j ≠ k → ¬ (s.pc j).wins = true) → s'.entered = 1 ∧ s'.finished = 1) :
    Inv fn s' := by
  obtain ⟨hk, hj⟩ := Function.eq_update_iff.mp hpc
  have hat : ∀ j, At fn s' j (s'.pc j) := by
    intro j
    by_cases hne : j = k
    · rw [hne, hk]
      exact hself
    · rw [hj j hne]
      exact hothers j hne
  -- two winners: one of them has moved, and had won before or is the first
  have hmoved : ∀ j, j ≠ k → pc.wins = true → ¬ (s.pc j).wins = true := by
    intro j hne hw hwj
    rcases hone hw with hwk | hnone
    · exact hne (h.one j k hwj hwk)
    · exact hnone j hwj
  refine ⟨fun j => (hat j).lock, hclear, fun j => (hat j).stored, fun j => (hat j).tested,
    fun j => (hat j).fresh, unique_of_move (P := fun pc => pc.wins = true) hj h.one
      fun hw j hne => hmoved j hne (hk ▸ hw),
    fun j => (hat j).winner, fun hc hno => ?_, fun j => (hat j).late⟩
  · refine hdone hc (fun hw => hno k (by rw [hk]; exact hw)) fun j hne hw => hno j ?_
    rw [hj j hne]
    exact hw

theorem Inv.goto_of_at (h : Inv fn s) (hself : At fn s k pc)
    (hone : pc.wins = true → (s.pc k).wins = true ∨ ∀ j, ¬ (s.pc j).wins = true)
    (hdone : s.control = fn.mark → ¬ pc.wins = true →
      (∀ j, j ≠ k → ¬ (s.pc j).wins = true) → s.entered = 1 ∧ s.finished = 1) :
    Inv fn (s.goto k pc) :=
  h.move rfl (hself.congr hself.lock rfl rfl rfl)
    (fun j _ => (h.at j).congr (h.lock j) rfl rfl rfl) hone h.clear hdone

theorem Inv.done_of_others (h : Inv fn s) (hk : ¬ (s.pc k).wins = true)
    (hc : s.control = fn.mark) (hno : ∀ j, j ≠ k → ¬ (s.pc j).wins = true) :
    s.entered = 1 ∧ s.finished = 1 := by
  refine h.done hc fun j => ?_
  by_cases hne : j = k
  · rw [hne]
    exact hk
  · exact hno j hne

theorem Inv.goto (h : Inv fn s) (hw : (s.pc k).wins = false) (hw' : pc.wins = false)
    (hl' : pc.locked = false) (hs' : pc.stored = false) (hlate' : pc.late = false) :
    Inv fn (s.goto k pc) :=
  h.goto_of_at (.before hl' hs' hw' hlate') (fun hwins => (nomatch hw'.symm.trans hwins))
    fun hc _ hno => h.done_of_others (Bool.eq_false_iff.mp hw) hc hno

theorem Inv.enter (h : Inv fn s) (hpc : s.pc k = .lock) (hfree : s.lock = none) :
    Inv fn { s.goto k .test with lock := some k } := by
  have hk : ¬ (s.pc k).wins = true := by
    rw [hpc]
    exact Bool.false_ne_true
  refine h.move rfl ⟨fun _ => rfl, nofun, nofun, nofun, nofun, nofun⟩ (fun j _ => ?_) nofun h.clear
    fun hc _ hno => h.done_of_others hk hc hno
  exact (h.at j).congr (fun hj => (nomatch hfree.symm.trans (h.lock j hj))) rfl rfl rfl

theorem locked_of_wins (hw : pc.wins = true) (hs : ¬ pc.stored = true) : pc.locked = true := by
  cases pc with
  | set | unlock => rfl
  | branch | running => exact absurd rfl hs
  | _ => cases hw

section

variable (h : Inv fn s)
include h

theorem Inv.test (hpc : s.pc k = .test)
    (hok : s.control = fn.mark → 1 ≤ s.finished) :
    Inv fn (s.goto k (.set (s.control ≠ fn.mark))) := by
  have hk : (s.pc k).locked = true := hpc ▸ rfl
  have hnoWinner : ∀ j, ¬ (s.pc j).wins = true := by
    intro j hj
    obtain ⟨-, hf⟩ := h.winner j hj
    by_cases hc : s.control = fn.mark
    · have := hok hc
      omega
    · -- a winner with the variable clear is still at its store
      have hjk : j = k := h.alone hk (locked_of_wins hj fun hst => hc (h.stored j hst))
      rw [hjk, hpc] at hj
      cases hj
  have hself : At fn s k (.set (s.control ≠ fn.mark)) := by
    refine ⟨fun _ => h.lock k hk, nofun, fun hp => ?_, fun hp => ?_, fun hp => ?_, fun hp => ?_⟩
    · simpa using hp
    · simpa using hp
    · exact h.clear (by simpa [Pc.wins] using hp)
    · exact h.done (by simpa [Pc.late] using hp) hnoWinner
  exact h.goto_of_at hself (fun _ => Or.inr hnoWinner) fun hc _ _ => h.done hc hnoWinner

theorem Inv.set {init : Bool} (hpc : s.pc k = .set init) :
    Inv fn { s.goto k (.unlock init) with control := fn.mark } := by
  have hk := h.at k
  rw [hpc] at hk
  refine h.move rfl ⟨fun _ => hk.lock rfl, fun _ => rfl, nofun, nofun, hk.winner, hk.late⟩
    (fun j hj => ?_) (fun hw => Or.inl (by rw [hpc]; exact hw)) (fun hc => absurd rfl hc)
    fun _ hw _ => ?_
  · -- nobody else is between its test and its store
    have hfresh : s.pc j ≠ .set true := by
      intro hset
      have hlocked : (s.pc j).locked = true := hset ▸ rfl
      exact hj (h.alone (hpc ▸ rfl) hlocked)
    exact ⟨h.lock j, fun _ => rfl, fun _ => rfl,
      fun hset => absurd hset hfresh, h.winner j, h.late j⟩
  · cases init with
    | true => exact absurd rfl hw
    | false => exact hk.late rfl

theorem Inv.unlock {init : Bool} (hpc : s.pc k = .unlock init) :
    Inv fn { s.goto k (.branch init) with lock := none } := by
  have hk := h.at k
  rw [hpc] at hk
  have hlocked : (s.pc k).locked = true := hpc ▸ rfl
  refine h.move rfl ⟨nofun, fun _ => hk.stored rfl, nofun, nofun, hk.winner, hk.late⟩
    (fun j hj => ?_) (fun hw => Or.inl (by rw [hpc]; exact hw)) h.clear fun hc hw hno => ?_
  · exact (h.at j).congr (fun hl => absurd (h.alone hlocked hl) hj) rfl rfl rfl
  · exact h.done_of_others (by rw [hpc]; exact hw) hc hno

theorem Inv.run (hpc : s.pc k = .branch true) :
    Inv fn { s.goto k .running with entered := s.entered + 1 } := by
  have hk := h.at k
  have hwins : (s.pc k).wins = true := hpc ▸ rfl
  rw [hpc] at hk
  have hmark : s.control = fn.mark := hk.stored rfl
  obtain ⟨he, hf⟩ := hk.winner rfl
  have hself : At fn { s.goto k .running with entered := s.entered + 1 } k .running :=
    ⟨nofun, fun _ => hmark, nofun, nofun, fun _ => ⟨congrArg (· + 1) he, hf⟩, nofun⟩
  exact h.move rfl hself (fun j hj => h.others_of_winner hwins hj rfl rfl) (fun _ => Or.inl hwins)
    (fun hc => absurd hmark hc) fun _ hw => absurd rfl hw

theorem Inv.finish (hpc : s.pc k = .running) :
    Inv fn { s.goto k (.returned .ok) with finished := s.finished + 1 } := by
  have hk := h.at k
  have hwins : (s.pc k).wins = true := hpc ▸ rfl
  rw [hpc] at hk
  have hmark : s.control = fn.mark := hk.stored rfl
  obtain ⟨he, hf⟩ := hk.winner rfl
  have hdone : s.entered = 1 ∧ s.finished + 1 = 1 := ⟨he, congrArg (· + 1) hf⟩
  have hself : At fn { s.goto k (.returned .ok) with finished := s.finished + 1 } k
      (.returned .ok) :=
    ⟨nofun, fun _ => hmark, nofun, nofun, nofun, fun _ => hdone⟩
  exact h.move rfl hself (fun j hj => h.others_of_winner hwins hj rfl rfl) nofun
    (fun hc => absurd hmark hc) fun _ _ _ => hdone

theorem Inv.skip (hpc : s.pc k = .branch false) :
    Inv fn (s.goto k (.returned .ok)) := by
  have hk := h.at k
  rw [hpc] at hk
  have hself : At fn s k (.returned .ok) :=
    ⟨nofun, fun _ => hk.stored rfl, nofun, nofun, nofun, fun _ => hk.late rfl⟩
  exact h.goto_of_at hself nofun fun _ _ _ => hk.late rfl

end

theorem wins_of_outside (h : pc.outside = true) : pc.wins = false := by
  cases pc with
  | idle | returned => rfl
  | _ => cases h

/-- The init routine is entered by the one caller that set the variable. -/
theorem step_inv (h : Inv fn s) (hok : NotEarly fn s a) (hs : s.step fn a = some s') :
    Inv fn s' := by
  cases a with
  | call k null =>
    simp only [State.step] at hs
    split at hs <;> cases hs
    case isTrue.refl hout => exact h.goto (wins_of_outside hout) rfl rfl rfl rfl
  | go k =>
    simp only [State.step, State.go] at hs
    cases hpc : s.pc k <;> simp only [hpc, reduceCtorEq, Option.some.injEq] at hs
    case start null =>
      subst hs
      cases null <;> exact h.goto (by simp [hpc, Pc.wins]) rfl rfl rfl rfl
    case lock =>
      split at hs <;> cases hs
      case isTrue.refl hfree => exact h.enter hpc hfree
    case test =>
      subst hs
      exact h.test hpc (hok hpc)
    case set init =>
      subst hs
      exact h.set hpc
    case unlock init =>
      subst hs
      exact h.unlock hpc
    case branch init =>
      cases init <;> cases hs
      · exact h.skip hpc
      · exact h.run hpc
    case running =>
      subst hs
      exact h.finish hpc

/-- The init routine is entered at most once, and a call that has returned `OK` has one
complete execution of it behind it. -/
structure Contract (s : State K) : Prop where
  entered  : s.entered ≤ 1
  returned : ∀ k, s.pc k = .returned .ok → s.entered = 1 ∧ s.finished = 1

/-- **Once.** In every run in which no caller finds the control variable set before the
init routine has returned. -/
theorem once_runs_before_return (fn : Fn)
    (h : Reachable (State.step fn) (NotEarly fn) Initial s) : Contract s := by
  have hI : Inv fn s := h.invariant (fun _ hs => hs.inv) fun _ _ _ hi hok hs => step_inv hi hok hs
  refine ⟨?_, fun k hk => hI.late k (by simp [hk, Pc.late])⟩
  by_cases hc : s.control = fn.mark
  · by_cases hw : ∃ k, (s.pc k).wins = true
    · obtain ⟨k, hk⟩ := hw
      rw [(hI.winner k hk).1]
      cases s.pc k <;> simp [Pc.entries]
    · exact Nat.le_of_eq (hI.done hc fun k hk => hw ⟨k, hk⟩).1
  · rw [(hI.clear hc).1]
    exact Nat.zero_le 1

def initState : State Nat := ⟨onceInit, none, fun _ => .idle, 0, 0⟩

theorem initState_initial : Initial initState := ⟨rfl, rfl, fun _ => rfl, rfl, rfl⟩

/-- Caller 0 runs the init routine; caller 1, which comes after it, finds it done. -/
def inTurn : List (Action Nat) :=
  [.call 0 false, .go 0, .go 0, .go 0, .go 0, .go 0, .go 0, .call 1 false, .go 1, .go 0, .go 1,
    .go 1, .go 1, .go 1, .go 1]

theorem once_runs_before_return_inTurn :
    Initial initState ∧ ∀ fn : Fn, ∃ s : State Nat,
      runOk (State.step fn) (NotEarly fn) initState inTurn = some s ∧
      s.pc 0 = .returned .ok ∧ s.pc 1 = .returned .ok ∧ Contract s := by
  refine ⟨initState_initial, fun fn => ?_⟩
  refine exists_and_of_any₂ (fun _ => id) (by cases fn <;> decide +kernel) fun s hs _ _ => ?_
  exact once_runs_before_return fn (reachable_of_runOk (.init initState_initial) hs)

/-- Caller 1 calls while the init routine of caller 0 runs. -/
def overlapping : List (Action Nat) :=
  [.call 0 false, .go 0, .go 0, .go 0, .go 0, .go 0, .go 0, .call 1 false, .go 1, .go 1, .go 1,
    .go 1, .go 1, .go 1]

/-- The second call returns `OK` while the init routine is still running. -/
theorem once_returns_early :
    Initial initState ∧ ∀ fn : Fn, ∃ s : State Nat,
      run (State.step fn) initState overlapping = some s ∧
      s.pc 0 = .running ∧ s.pc 1 = .returned .ok ∧ s.finished = 0 ∧ ¬ Contract s := by
  refine ⟨initState_initial, fun fn => ?_⟩
  refine exists_and_of_any₃ (fun _ => id) (by cases fn <;> decide +kernel) fun s _ _ h₁ hf hC => ?_
  have := (hC.returned 1 h₁).2
  omega

end Ngpt.Sync.Once
