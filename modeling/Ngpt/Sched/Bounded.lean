import Ngpt.Sched.Natives

/-!
# ngpt — threads with a native thread of their own (`PTH_SCOPE_SYSTEM`)

`pth_spawn` gives a thread of system scope the native thread that `pth_new_native` returns:
one that is bounded and has no thread any more, or a new one. Whether a bounded native
thread has a thread is in its field `bounded_thread`, which is set when the native thread
is created and cleared in `pth_tcb_free`, but not set when it is found again.

The table is that of `Ngpt.Sched.Natives`. A spawn is one step, with its clone; the new
native thread starts at any time later. Native threads do not end here. `reused` is not in
the code: the threads whose native thread was found.

Result: `one_thread_per_native`.
-/

namespace Ngpt.Bounded

open Function Transition Natives

structure State where
  natives     : Sys
  boundnative : Nat → Option Int
  /-- the live threads of system scope -/
  threads     : List Nat
  reused      : List Nat

inductive Act where
  /-- `pth_spawn` with `PTH_SCOPE_SYSTEM` -/
  | spawn (t : Nat) (mem : Memory) (cloned : Bool)
  /-- a native thread for threads of process scope -/
  | process (mem : Memory) (cloned : Bool)
  /-- the new native thread sets `is_used`, and makes its pipe -/
  | start (i : Int)
  | pipe (i : Int)
  /-- `pth_tcb_free` -/
  | free (t : Nat)
  deriving DecidableEq, Repr

/-- The whole of `pth_new_native`. There is nothing to clone when a native thread was
found. -/
def newNative (n : Sys) (scope : Scope) (t : Option Nat) (mem : Memory) (cloned : Bool) :
    Sys × Option Int :=
  match n.pthNewNative scope t mem with
  | (n, some (.slot i)) =>
    match n.clone i cloned with
    | some n => (n, if cloned then some i else none)
    | none => (n, some i)
  | (n, _) => (n, none)

/-- The native thread that the search in `pth_new_native` finds. -/
def found (n : Sys) : Option Int :=
  if n.firstRunning then Sys.idleNative n.list 127 1 else none

namespace State

/-- `pth_spawn` for the thread `t`, as far as its native thread is concerned; without one
the thread is freed. -/
def spawn (s : State) (t : Nat) (mem : Memory) (cloned : Bool) : State :=
  match newNative s.natives .system (some t) mem cloned with
  | (n, some i) =>
    { natives := n, boundnative := update s.boundnative t (some i)
      threads := t :: s.threads
      reused := if (found s.natives).isSome then t :: s.reused else s.reused }
  | (n, none) => { s with natives := n }

/-- `pth_tcb_free`, as far as the native thread of `t` is concerned. -/
def free (s : State) (t : Nat) : State :=
  let natives :=
    match s.boundnative t with
    | some i =>
      if (s.natives.list i).isBounded then
        s.natives.setDescr (.slot i) { s.natives.list i with boundedThread := none }
      else s.natives
    | none => s.natives
  { natives := natives, boundnative := update s.boundnative t none
    threads := s.threads.erase t, reused := s.reused.erase t }

def step (s : State) : Act → Option State
  | .spawn t mem cloned => if t ∈ s.threads then none else some (s.spawn t mem cloned)
  | .process mem cloned =>
    some { s with natives := (newNative s.natives .process none mem cloned).1 }
  | .start i => (s.natives.start i).map fun n => { s with natives := n }
  | .pipe i => (s.natives.pipe i true).map fun n => { s with natives := n }
  | .free t => if t ∈ s.threads then some (s.free t) else none

end State

/-- No thread of system scope yet. -/
structure Initial (s : State) : Prop where
  start   : Start s.natives
  used    : ∀ i, (s.natives.list i).isUsed = true → s.natives.phase i ≠ .free
  unbound : ∀ t, s.boundnative t = none
  threads : s.threads = []
  reused  : s.reused = []

/-- No two live threads have the same native thread. -/
def OnePerNative (s : State) : Prop :=
  ∀ t ∈ s.threads, ∀ u ∈ s.threads, ∀ i, s.boundnative t = some i → s.boundnative u = some i →
    t = u

/-- The native thread that a spawn finds has not been found for a thread that still
lives. -/
def NotTaken (s : State) : Act → Prop
  | .spawn _ _ _ => ∀ i ∈ found s.natives, ∀ u ∈ s.reused, s.boundnative u ≠ some i
  | _ => True

instance (s : State) (a : Act) : Decidable (NotTaken s a) := by
  rcases a <;> dsimp only [NotTaken] <;> infer_instance

/-! ## `pth_new_native` -/

variable {n n' : Sys} {scope : Scope} {b : Option Nat} {mem : Memory} {cloned : Bool}
  {r : Option Int}

/-- The descriptors are the same, but for one that is not in use. -/
def SameBut (n n' : Sys) : Prop :=
  ∀ j, n'.list j = n.list j ∨ (j = n.number ∧ (n'.list j).isUsed = false)

/-- **What `pth_new_native` does**, in a table with the next descriptor free. -/
inductive Made (n : Sys) (scope : Scope) (b : Option Nat) : Sys → Option Int → Prop
  | found {i : Int} : scope = .system → found n = some i → Made n scope b n (some i)
  | failed {n' : Sys} : (scope = .system → Bounded.found n = none) → n'.phase = n.phase →
      n'.number = n.number → SameBut n n' → Made n scope b n' none
  | made {n' : Sys} : (scope = .system → Bounded.found n = none) → SameBut n n' →
      (n'.list n.number).boundedThread = b →
      n'.phase = update n.phase n.number .starting → n'.number = n.number + 1 →
      n'.number < pthMaxNativeThreads - 1 → Made n scope b n' (some n.number)

theorem SameBut.refl (n : Sys) : SameBut n n := fun _ => Or.inl rfl

theorem SameBut.setDescr {w : Sys} {d : Descr} (h : SameBut n w) (hd : d.isUsed = false) :
    SameBut n (w.setDescr (.slot n.number) d) := by
  intro j
  by_cases hj : j = n.number
  · exact Or.inr ⟨hj, by simp [Sys.setDescr, hj, hd]⟩
  · rcases h j with hsame | ⟨hnext, -⟩
    · exact Or.inl (by simpa [Sys.setDescr, hj] using hsame)
    · exact absurd hnext hj

theorem pthAllocNative_list (n : Sys) (mem : Memory) :
    SameBut n (n.pthAllocNative true false mem).1 := by
  have hset : ∀ (m : Int) (d : Descr), d.isUsed = false →
      SameBut n ((n.setNumber m).setDescr (.slot n.number) d) :=
    fun m d hd => SameBut.setDescr (SameBut.refl n) hd
  simp only [Sys.pthAllocNative, Bool.false_eq_true, if_false]
  split_ifs
  · exact SameBut.refl n
  all_goals exact hset _ _ rfl

theorem pthAllocNative_descr {w : Which} (h : n.pthAllocNative true false mem = (n', some w)) :
    (n'.list n.number).isUsed = false ∧ (n'.list n.number).boundedThread = none := by
  simp only [Sys.pthAllocNative, Bool.false_eq_true, if_false] at h
  split_ifs at h
  · cases h
  · cases h
  · cases h
  · obtain ⟨rfl, -⟩ := Prod.mk.inj h
    simp [Sys.setDescr]

theorem pthNewNative_made (n : Sys) (scope : Scope) (b : Option Nat) (mem : Memory) :
    (∃ i, scope = .system ∧ found n = some i ∧ n.pthNewNative scope b mem = (n, some (.slot i))) ∨
    (∃ n₁, n.pthNewNative scope b mem = (n₁, none) ∧ (scope = .system → found n = none) ∧
      n₁.phase = n.phase ∧ n₁.number = n.number ∧ SameBut n n₁) ∨
    (∃ n₁, n.pthNewNative scope b mem = (n₁, some (.slot n.number)) ∧
      (scope = .system → found n = none) ∧ SameBut n n₁ ∧
      (n₁.list n.number).isUsed = false ∧ (n₁.list n.number).boundedThread = b ∧
      n₁.phase = update n.phase n.number (.cloning scope) ∧ n₁.number = n.number + 1 ∧
      n₁.number < pthMaxNativeThreads - 1) := by
  by_cases hrun : n.firstRunning = false
  · exact Or.inr (Or.inl ⟨n, by simp [Sys.pthNewNative, hrun], fun _ => by simp [found, hrun],
      rfl, rfl, SameBut.refl n⟩)
  rw [Bool.not_eq_false] at hrun
  have hfound : found n = Sys.idleNative n.list 127 1 := by simp [found, hrun]
  cases hidle : (if scope = .system then Sys.idleNative n.list 127 1 else none) with
  | some i =>
    obtain ⟨hscope, hi⟩ : scope = .system ∧ Sys.idleNative n.list 127 1 = some i := by
      split at hidle
      case isTrue hscope => exact ⟨hscope, hidle⟩
      case isFalse => cases hidle
    exact Or.inl ⟨i, hscope, hfound.trans hi, by simp [Sys.pthNewNative, hrun, hscope, hi]⟩
  | none =>
    have hnone : scope = .system → found n = none := by
      intro hscope
      rw [hfound]
      simpa [hscope] using hidle
    have hlist := pthAllocNative_list n mem
    have hphase := pthAllocNative_phase n true false mem
    rcases halloc : n.pthAllocNative true false mem with ⟨n₁, _ | w⟩
    · rw [halloc] at hlist hphase
      refine Or.inr (Or.inl ⟨n₁, ?_, hnone, hphase, pthAllocNative_none halloc, hlist⟩)
      simp [Sys.pthNewNative, hrun, hidle, halloc]
    · obtain ⟨rfl, hnumber, hroom⟩ := pthAllocNative_some halloc
      obtain ⟨hused, hthread⟩ := pthAllocNative_descr halloc
      rw [halloc] at hlist hphase
      refine Or.inr (Or.inr ⟨_, by simp [Sys.pthNewNative, hrun, hidle, halloc]; rfl, hnone,
        ?_, ?_, ?_, ?_, ?_, ?_⟩)
      · exact SameBut.setDescr hlist hused
      · simp [Sys.setDescr, Sys.setPhase, hused]
      · cases b <;> simp [Sys.setDescr, Sys.setPhase, hthread]
      · simp only [setPhase_phase, setDescr_phase]
        exact congrArg (update · n.number _) hphase
      · simpa using hnumber
      · simpa using hroom

theorem clone_list {i : Int} (h : n.clone i cloned = some n') :
    (∀ j, j ≠ i → n'.list j = n.list j) ∧
      (n'.list i).boundedThread = (n.list i).boundedThread ∧
      ((n.list i).isUsed = false → (n'.list i).isUsed = false) := by
  unfold Sys.clone at h
  split at h
  case h_2 => cases h
  case h_1 scope _ =>
    rcases cloned with _ | _ <;> rcases scope with _ | _ <;> cases h <;>
      exact ⟨fun j hj => by simp [Sys.leave, Sys.setPhase, Sys.setNumber, Sys.setDescr, hj],
        by simp [Sys.leave, Sys.setPhase, Sys.setNumber, Sys.setDescr],
        by simp [Sys.leave, Sys.setPhase, Sys.setNumber, Sys.setDescr]⟩

theorem clone_isSome {i : Int} (h : n.phase i = .cloning scope) (cloned : Bool) :
    ∃ n', n.clone i cloned = some n' := by
  simp only [Sys.clone, h]
  rcases cloned with _ | _ <;> exact ⟨_, rfl⟩

/-- The table between two calls. -/
structure Sound (n : Sys) : Prop where
  exact   : Exact n
  settled : ∀ i scope, n.phase i ≠ .cloning scope
  used    : ∀ i, (n.list i).isUsed = true → n.phase i ≠ .free

theorem newNative_made (h : Sound n)
    (hnew : newNative n scope b mem cloned = (n', r)) : Made n scope b n' r := by
  unfold newNative at hnew
  rcases pthNewNative_made n scope b mem with ⟨i, hscope, hfound, heq⟩ |
    ⟨n₁, heq, hfound, hphase, hnumber, hlist⟩ |
    ⟨n₁, heq, hfound, hlist, hused, hthread, hphase, hnumber, hroom⟩
  · have hclone : n.clone i cloned = none := by
      unfold Sys.clone
      split
      case h_1 scope hi => exact absurd hi (h.settled i scope)
      case h_2 => rfl
    simp only [heq, hclone, Prod.mk.injEq] at hnew
    obtain ⟨rfl, rfl⟩ := hnew
    exact .found hscope hfound
  · simp only [heq, Prod.mk.injEq] at hnew
    obtain ⟨rfl, rfl⟩ := hnew
    exact .failed hfound hphase hnumber hlist
  · have hcloning₁ : n₁.phase n.number = .cloning scope := by rw [hphase, update_self]
    obtain ⟨n₂, hclone⟩ := clone_isSome hcloning₁ cloned
    obtain ⟨hother, hthread₂, hused₂⟩ := clone_list hclone
    obtain ⟨-, hphase₂, hnumber₂⟩ := clone_eq_some hclone
    have hlist₂ : SameBut n n₂ := by
      intro j
      by_cases hj : j = n.number
      · exact Or.inr ⟨hj, by rw [hj]; exact hused₂ hused⟩
      · rw [hother j hj]
        exact hlist j
    rw [hphase, update_idem] at hphase₂
    simp only [heq, hclone, Prod.mk.injEq] at hnew
    obtain ⟨rfl, rfl⟩ := hnew
    cases cloned with
    | true =>
      exact .made hfound hlist₂ (hthread₂.trans hthread) hphase₂ (hnumber₂.trans hnumber)
        (hnumber₂ ▸ hroom)
    | false =>
      refine .failed hfound ?_ ?_ hlist₂
      · rw [hphase₂, ← h.exact.next_free, if_neg Bool.false_ne_true, update_eq_self]
      · rw [hnumber₂, if_neg Bool.false_ne_true, hnumber]
        omega

theorem idleNative_some {list : Int → Descr} {left : Nat} {slot i : Int}
    (h : Sys.idleNative list left slot = some i) :
    (list i).isUsed = true ∧ (list i).boundedThread = none := by
  induction left generalizing slot with
  | zero => cases h
  | succ left ih =>
    obtain ⟨hused, h⟩ := Option.ite_none_right_eq_some.mp h
    split at h
    case isTrue hidle =>
      cases h
      exact ⟨hused, hidle.2⟩
    case isFalse => exact ih h

theorem found_some {i : Int} (h : found n = some i) :
    (n.list i).isUsed = true ∧ (n.list i).boundedThread = none := by
  unfold found at h
  split at h
  · exact idleNative_some h
  · cases h

theorem Made.kept {i : Int} (hmade : Made n scope b n' r) (h : Sound n) (hi : n.phase i ≠ .free) :
    n'.phase i ≠ .free ∧ n'.list i = n.list i := by
  have hne : i ≠ n.number := by
    rintro rfl
    exact hi h.exact.next_free
  have hlist : SameBut n n' → n'.list i = n.list i :=
    fun hsame => (hsame i).resolve_right fun hnext => hne hnext.1
  cases hmade with
  | found _ _ => exact ⟨hi, rfl⟩
  | failed _ hphase _ hsame => exact ⟨by rw [hphase]; exact hi, hlist hsame⟩
  | made _ hsame _ hphase _ _ =>
    exact ⟨by rw [hphase, update_of_ne hne]; exact hi, hlist hsame⟩

theorem Made.sound (hmade : Made n scope b n' r) (h : Sound n) : Sound n' := by
  have hused : SameBut n n' → ∀ i, (n'.list i).isUsed = true → n'.phase i ≠ .free := by
    intro hsame i hi
    rcases hsame i with heq | ⟨-, hfalse⟩
    · exact (hmade.kept h (h.used i (by rw [← heq]; exact hi))).1
    · rw [hfalse] at hi
      cases hi
  cases hmade with
  | found _ _ => exact h
  | failed _ hphase hnumber hsame =>
    exact ⟨h.exact.congr hphase hnumber, by rw [hphase]; exact h.settled, hused hsame⟩
  | made _ hsame _ hphase hnumber hroom =>
    refine ⟨h.exact.take hphase hnumber hroom nofun, fun i scope => ?_, hused hsame⟩
    rw [hphase]
    by_cases hi : i = n.number
    · rw [hi, update_self]
      nofun
    · rw [update_of_ne hi]
      exact h.settled i scope

/-! ## The invariant -/

variable {s s' : State} {a : Act} {t u : Nat} {i : Int}

/-- A live thread whose native thread was made for it is its `bounded_thread`. -/
structure Owned (s : State) : Prop where
  sound : Sound s.natives
  live  : ∀ t i, s.boundnative t = some i → t ∈ s.threads ∧ s.natives.phase i ≠ .free
  owner : ∀ t i, s.boundnative t = some i → t ∉ s.reused →
    (s.natives.list i).boundedThread = some t

theorem Initial.owned (h : Initial s) : Owned s := by
  have hsettled : ∀ i scope, s.natives.phase i ≠ .cloning scope := by
    intro i scope
    by_cases hi : i = 0
    · rw [hi, h.start.first]
      nofun
    · rw [h.start.free i hi]
      nofun
  refine ⟨⟨h.start.exact, hsettled, h.used⟩, fun t i ht => ?_, fun t i ht => ?_⟩ <;>
    · rw [h.unbound t] at ht
      cases ht

theorem Owned.natives {n' : Sys} (h : Owned s) (hsound : Sound n')
    (hkept : ∀ i, s.natives.phase i ≠ .free → n'.phase i ≠ .free ∧
      (n'.list i).boundedThread = (s.natives.list i).boundedThread) :
    Owned { s with natives := n' } := by
  refine ⟨hsound, fun t i ht => ⟨(h.live t i ht).1, (hkept i (h.live t i ht).2).1⟩,
    fun t i ht hnot => ?_⟩
  exact (hkept i (h.live t i ht).2).2.trans (h.owner t i ht hnot)

theorem Owned.reused_of_found (h : Owned s) (hfound : found s.natives = some i)
    (hu : s.boundnative u = some i) : u ∈ s.reused := by
  by_contra hnot
  have := h.owner u i hu hnot
  rw [(found_some hfound).2] at this
  cases this

theorem Sound.setPhase {p : Phase} (h : Sound n) (hphase : n'.phase = update n.phase i p)
    (hnumber : n'.number = n.number) (hi : n.phase i ≠ .free) (hfree : p ≠ .free)
    (hcloning : ∀ scope, p ≠ .cloning scope)
    (hlist : ∀ j, j ≠ i → n'.list j = n.list j) : Sound n' := by
  refine ⟨h.exact.setPhase hphase hnumber hi hfree, fun j scope => ?_, fun j hj => ?_⟩ <;>
    rw [hphase] <;> by_cases hji : j = i
  · rw [hji, update_self]
    exact hcloning scope
  · rw [update_of_ne hji]
    exact h.settled j scope
  · rw [hji, update_self]
    exact hfree
  · rw [update_of_ne hji]
    exact h.used j (by rw [← hlist j hji]; exact hj)

theorem Owned.start (h : Owned s) (hs : s.natives.start i = some n') :
    Owned { s with natives := n' } := by
  obtain ⟨hi, hphase, hnumber⟩ := start_eq_some hs
  have hlist : n'.list = update s.natives.list i { s.natives.list i with isUsed := true } := by
    unfold Sys.start at hs
    split at hs <;> cases hs
    rfl
  refine h.natives (h.sound.setPhase hphase hnumber hi nofun nofun fun j hj => by
    rw [hlist, update_of_ne hj]) fun j hj => ?_
  by_cases hji : j = i
  · rw [hphase, hlist, hji, update_self, update_self]
    exact ⟨nofun, rfl⟩
  · rw [hphase, hlist, update_of_ne hji, update_of_ne hji]
    exact ⟨hj, rfl⟩

theorem Owned.pipe (h : Owned s) (hs : s.natives.pipe i true = some n') :
    Owned { s with natives := n' } := by
  obtain ⟨hi, hphase, hnumber⟩ := pipe_eq_some hs
  have hlist : n'.list = s.natives.list := by
    unfold Sys.pipe at hs
    split at hs <;> cases hs
    rfl
  refine h.natives (h.sound.setPhase hphase hnumber hi nofun nofun fun j _ => by rw [hlist])
    fun j hj => ?_
  rw [hphase, hlist]
  by_cases hji : j = i
  · rw [hji, update_self]
    exact ⟨nofun, rfl⟩
  · rw [update_of_ne hji]
    exact ⟨hj, rfl⟩

theorem Owned.made (h : Owned s) (hmade : Made s.natives scope b n' r) :
    Owned { s with natives := n' } :=
  h.natives (hmade.sound h.sound) fun i hi =>
    have hkept := hmade.kept h.sound hi
    ⟨hkept.1, by rw [hkept.2]⟩

theorem Owned.bind (h : Owned s) (hmade : Made s.natives scope b n' r) {reused : List Nat}
    (hi : n'.phase i ≠ .free) (hreused : ∀ u ∈ s.reused, u ∈ reused)
    (howner : t ∉ reused → (n'.list i).boundedThread = some t) :
    Owned { natives := n', boundnative := update s.boundnative t (some i)
            threads := t :: s.threads, reused := reused } := by
  have h' := h.made hmade
  have hcases : ∀ u j, update s.boundnative t (some i) u = some j →
      (u = t ∧ j = i) ∨ s.boundnative u = some j := by
    intro u j hu
    by_cases hut : u = t
    · rw [hut, update_self] at hu
      exact Or.inl ⟨hut, (Option.some.inj hu).symm⟩
    · rw [update_of_ne hut] at hu
      exact Or.inr hu
  refine ⟨h'.sound, fun u j hu => ?_, fun u j hu hnot => ?_⟩
  · rcases hcases u j hu with ⟨rfl, rfl⟩ | hu
    · exact ⟨List.mem_cons_self, hi⟩
    · exact ⟨List.mem_cons_of_mem t (h'.live u j hu).1, (h'.live u j hu).2⟩
  · rcases hcases u j hu with ⟨rfl, rfl⟩ | hu
    · exact howner hnot
    · exact h'.owner u j hu fun hmem => hnot (hreused u hmem)

theorem Owned.spawn (h : Owned s) : Owned (s.spawn t mem cloned) := by
  rcases hnew : newNative s.natives .system (some t) mem cloned with ⟨n', r⟩
  have hmade := newNative_made h.sound hnew
  have hcase := hmade
  unfold State.spawn
  rw [hnew]
  cases hcase with
  | failed => exact h.made hmade
  | @found i _ hfound =>
    refine h.bind hmade (h.sound.used i (found_some hfound).1) ?_ ?_ <;>
      simp only [hfound, Option.isSome_some, if_true]
    · exact fun u hu => List.mem_cons_of_mem t hu
    · exact fun hnot => absurd List.mem_cons_self hnot
  | made hnone _ hthread hphase _ _ =>
    refine h.bind hmade ?_ ?_ fun _ => hthread
    · rw [hphase, update_self]
      nofun
    · simp [hnone rfl]

theorem Owned.free (h : Owned s) (hone : OnePerNative s) (ht : t ∈ s.threads) :
    Owned (s.free t) := by
  have hbound : ∀ u j, (s.free t).boundnative u = some j → u ≠ t ∧ s.boundnative u = some j := by
    intro u j hu
    by_cases hut : u = t
    · simp [State.free, hut] at hu
    · exact ⟨hut, by simpa [State.free, hut] using hu⟩
  -- only the descriptor of `t` changes, and there only `bounded_thread`
  have hphase : (s.free t).natives.phase = s.natives.phase := by
    simp only [State.free]
    split
    · split <;> rfl
    · rfl
  have hnumber : (s.free t).natives.number = s.natives.number := by
    simp only [State.free]
    split
    · split <;> rfl
    · rfl
  have hused : ∀ j, ((s.free t).natives.list j).isUsed = (s.natives.list j).isUsed := by
    intro j
    simp only [State.free]
    split
    next i hi =>
      split
      · by_cases hj : j = i <;> simp [Sys.setDescr, hj]
      · rfl
    · rfl
  have hlist : ∀ j, s.boundnative t ≠ some j →
      (s.free t).natives.list j = s.natives.list j := by
    intro j hj
    simp only [State.free]
    split
    next i hi =>
      have hji : j ≠ i := fun heq => hj (heq ▸ hi)
      split
      · simp [Sys.setDescr, hji]
      · rfl
    · rfl
  refine ⟨⟨h.sound.exact.congr hphase hnumber, by rw [hphase]; exact h.sound.settled, ?_⟩, ?_, ?_⟩
  · intro j hj
    rw [hphase]
    exact h.sound.used j (by rw [← hused j]; exact hj)
  · intro u j hu
    obtain ⟨hut, hu⟩ := hbound u j hu
    rw [hphase]
    exact ⟨(List.mem_erase_of_ne hut).mpr (h.live u j hu).1, (h.live u j hu).2⟩
  · intro u j hu hnot
    obtain ⟨hut, hu⟩ := hbound u j hu
    have hother : s.boundnative t ≠ some j :=
      fun htj => hut (hone u (h.live u j hu).1 t ht j hu htj)
    rw [hlist j hother]
    exact h.owner u j hu fun hmem => hnot ((List.mem_erase_of_ne hut).mpr hmem)

theorem Owned.step (h : Owned s) (hone : OnePerNative s) (hs : s.step a = some s') :
    Owned s' := by
  cases a with
  | spawn t mem cloned =>
    simp only [State.step] at hs
    split at hs <;> cases hs
    exact h.spawn
  | process mem cloned =>
    cases hs
    exact h.made (newNative_made h.sound rfl)
  | start i =>
    obtain ⟨n', hn, rfl⟩ := Option.map_eq_some_iff.mp hs
    exact h.start hn
  | pipe i =>
    obtain ⟨n', hn, rfl⟩ := Option.map_eq_some_iff.mp hs
    exact h.pipe hn
  | free t =>
    simp only [State.step] at hs
    split at hs <;> cases hs
    rename_i ht
    exact h.free hone ht

/-! ## One thread per native -/

theorem onePerNative_bind (hone : OnePerNative s) (ht : t ∉ s.threads) (reused : List Nat)
    (hlive : ∀ u j, s.boundnative u = some j → u ∈ s.threads) :
    OnePerNative { natives := n', boundnative := update s.boundnative t (some i)
                   threads := t :: s.threads, reused := reused } ↔
      ∀ u, s.boundnative u ≠ some i := by
  constructor
  · intro h u hu
    have hut : u ≠ t := fun heq => ht (heq ▸ hlive u i hu)
    refine hut (h u (List.mem_cons_of_mem t (hlive u i hu)) t List.mem_cons_self i ?_ ?_)
    · simpa [hut] using hu
    · simp
  · intro h u hu v hv j huj hvj
    by_cases hut : u = t <;> by_cases hvt : v = t
    · rw [hut, hvt]
    · simp only [hut, update_self, Option.some.injEq] at huj
      simp only [update_of_ne hvt, ← huj] at hvj
      exact absurd hvj (h v)
    · simp only [hvt, update_self, Option.some.injEq] at hvj
      simp only [update_of_ne hut, ← hvj] at huj
      exact absurd huj (h u)
    · simp only [update_of_ne hut] at huj
      simp only [update_of_ne hvt] at hvj
      exact hone u ((List.mem_cons.mp hu).resolve_left hut) v
        ((List.mem_cons.mp hv).resolve_left hvt) j huj hvj

theorem OnePerNative.spawn_iff (hone : OnePerNative s) (h : Owned s) (ht : t ∉ s.threads) :
    OnePerNative (s.spawn t mem cloned) ↔ NotTaken s (.spawn t mem cloned) := by
  have hlive : ∀ u j, s.boundnative u = some j → u ∈ s.threads := fun u j hu => (h.live u j hu).1
  rcases hnew : newNative s.natives .system (some t) mem cloned with ⟨n', r⟩
  have hmade := newNative_made h.sound hnew
  unfold State.spawn NotTaken
  rw [hnew]
  cases hmade with
  | failed hnone _ _ _ => exact iff_of_true hone (by simp [hnone rfl])
  | @found i _ hfound =>
    rw [onePerNative_bind hone ht _ hlive]
    simp only [hfound, Option.mem_some_iff, forall_eq']
    exact ⟨fun hnot u _ => hnot u, fun hnot u hu => hnot u (h.reused_of_found hfound hu) hu⟩
  | made hnone _ _ _ _ _ =>
    rw [onePerNative_bind hone ht _ hlive]
    refine iff_of_true (fun u hu => ?_) (by simp [hnone rfl])
    exact (h.live u _ hu).2 h.sound.exact.next_free

theorem OnePerNative.step_iff (hone : OnePerNative s) (h : Owned s) (hs : s.step a = some s') :
    OnePerNative s' ↔ NotTaken s a := by
  cases a with
  | spawn t mem cloned =>
    simp only [State.step] at hs
    split at hs <;> cases hs
    rename_i ht
    exact hone.spawn_iff h ht
  | process mem cloned =>
    cases hs
    exact iff_of_true hone trivial
  | start | pipe =>
    obtain ⟨n', -, rfl⟩ := Option.map_eq_some_iff.mp hs
    exact iff_of_true hone trivial
  | free t =>
    simp only [State.step] at hs
    split at hs <;> cases hs
    refine iff_of_true (fun u hu v hv i hui hvi => ?_) trivial
    have hbound : ∀ w, (s.free t).boundnative w = some i → s.boundnative w = some i := by
      intro w hw
      by_cases hwt : w = t
      · simp [State.free, hwt] at hw
      · simpa [State.free, hwt] using hw
    exact hone u (List.mem_of_mem_erase hu) v (List.mem_of_mem_erase hv) i (hbound u hui)
      (hbound v hvi)

/-- **One thread per native thread** in runs in which no spawn finds a native thread that
was found for a thread that still lives; the next spawn keeps it so if and only if it
finds none either. -/
theorem one_thread_per_native (s : State) (hs : Reachable State.step NotTaken Initial s) :
    OnePerNative s ∧ ∀ a s', s.step a = some s' → (OnePerNative s' ↔ NotTaken s a) := by
  have hI : Owned s ∧ OnePerNative s := hs.invariant (I := fun s => Owned s ∧ OnePerNative s)
    (fun s h => ⟨h.owned, fun t ht => by rw [h.threads] at ht; cases ht⟩)
    fun s a s' hI hok h => ⟨hI.1.step hI.2 h, (hI.2.step_iff hI.1 h).mpr hok⟩
  exact ⟨hI.2, fun a s' h => hI.2.step_iff hI.1 h⟩

/-- The first native thread and no thread of system scope. -/
def quiet : State :=
  { natives := alone, boundnative := fun _ => none, threads := [], reused := [] }

theorem quiet_initial : Initial quiet := by
  refine ⟨alone_start, fun i hi => ?_, fun _ => rfl, rfl, rfl⟩
  have h0 : i = 0 := by simpa [quiet, alone] using hi
  rw [h0]
  nofun

/-- A thread comes and goes, and leaves its native thread behind. -/
def comesAndGoes : List Act :=
  [.spawn 1 .enough true, .start 1, .pipe 1, .free 1]

/-- The native thread of a thread that has gone is used again, and again after that. -/
theorem one_thread_per_native_reuse :
    ∃ s, runOk State.step NotTaken quiet (comesAndGoes ++
        [.spawn 2 .enough true, .free 2, .spawn 3 .enough true]) = some s ∧
      s.boundnative 3 = some 1 ∧ OnePerNative s := by
  obtain ⟨s, hs, hbound⟩ : ∃ s, runOk State.step NotTaken quiet (comesAndGoes ++
      ([.spawn 2 .enough true, .free 2, .spawn 3 .enough true] : List Act)) = some s ∧
      s.boundnative 3 = some 1 := ⟨_, rfl, rfl⟩
  exact ⟨s, hs, hbound, (one_thread_per_native s (reachable_of_runOk (.init quiet_initial) hs)).1⟩

/-- Two more threads after the first has gone: both get its native thread. -/
theorem reuse_shares_native :
    ∃ s, Reachable State.step Always Initial s ∧ s.threads = [3, 2] ∧
      (s.natives.list 1).isBounded = true ∧ s.boundnative 2 = some 1 ∧
      s.boundnative 3 = some 1 ∧ ¬ OnePerNative s := by
  obtain ⟨s, hs, hthreads, hbounded, htwo, hthree⟩ : ∃ s, run State.step quiet (comesAndGoes ++
      ([.spawn 2 .enough true, .spawn 3 .enough true] : List Act)) = some s ∧ s.threads = [3, 2] ∧
      (s.natives.list 1).isBounded = true ∧ s.boundnative 2 = some 1 ∧
      s.boundnative 3 = some 1 := ⟨_, rfl, rfl, rfl, rfl, rfl⟩
  refine ⟨s, reachable_of_run (.init quiet_initial) hs, hthreads, hbounded, htwo, hthree,
    fun hone => ?_⟩
  have := hone 2 (by rw [hthreads]; decide) 3 (by rw [hthreads]; decide) 1 htwo hthree
  cases this

end Ngpt.Bounded
