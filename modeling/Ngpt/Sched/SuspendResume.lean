import Ngpt.Event.Wait
import Ngpt.Sched.BackRef
import Ngpt.Sched.Held

/-!
# ngpt — a suspend and the resume after it (`pth_lib.c`)

`pth_suspend` and `pth_resume` as calls that nothing interferes with. Both work out the
queue of a thread from its state, its binding and the number of native threads, while
`pth_spawn` and the schedulers go by the maximum number of native threads, and the threads
that they have queued stay where they are when the number changes.

A waiting thread that is resumed goes to the wait queue of its native or, if it has none, of the
caller's. Which events the event managers find there depends on the natives: `Finds` has the types
that a pass tests (`EvType.early`, `EvType.late`) and the timers that it sets.

Result: `suspend_resume_iff`.
-/

namespace Ngpt.Sched.Multi

open Function Ngpt.Queue Transition
open Ngpt.Event (EvType Late)
open Ngpt.Sched.Single (PthState)

variable {D T : Type} {first d d' ds : D} {s s₁ s' : State D T} {t cur cur' : T} {q q' : QName D}
  {max : Nat} {events : List EvType} {p p' : Pc D T} {rc : Errno}

/-! ## The setting -/

theorem natives_eq_of_one (hd : d ∈ s.natives) (hd' : d' ∈ s.natives)
    (h : ¬ s.natives.length > 1) : d' = d ∧ s.natives = [d] := by
  have hlen : s.natives.length = 1 := by
    have := List.length_pos_of_mem hd
    omega
  obtain ⟨e, he⟩ := List.length_eq_one_iff.mp hlen
  rw [he, List.mem_singleton] at hd hd'
  exact ⟨hd'.trans hd.symm, by rw [he, hd]⟩

theorem boundTo_eq_some (h : s.boundTo t = some ds) :
    (s.tcb t).boundnative = some ds ∧ s.isBounded ds = true := by
  unfold State.boundTo at h
  exact Option.filter_eq_some_iff.mp h

theorem lockFree_of_free (hfree : ∀ ds, s.lock ds = none) (q : Option (QName D)) :
    s.lockFree q = true := by
  unfold State.lockFree
  split
  · exact decide_eq_true (hfree _)
  · rfl

/-- The native threads, and what decides about the thread's queue, are as before. -/
structure SameSetting (s s' : State D T) (t : T) : Prop where
  natives   : s'.natives = s.natives
  isBounded : s'.isBounded = s.isBounded
  bound     : (s'.tcb t).boundnative = (s.tcb t).boundnative
  state     : (s'.tcb t).state = (s.tcb t).state

/-- The thread has been moved to `pth_SQ`. -/
structure TakenOut (s s' : State D T) (t : T) : Prop extends SameSetting s s' t where
  heap  : s'.heap.Ok
  place : s'.place t = some .pthSQ

/-- The call returns 0 exactly if `c` holds, and then the thread is in `pth_SQ`. -/
def TakesOutIf (s : State D T) (t : T) (r : State D T × Errno) (c : Prop) : Prop :=
  (r.2 = .ok ↔ c) ∧ (r.2 = .ok → TakenOut s r.1 t)

theorem takesOutIf_of_failed {r : State D T × Errno} {c : Prop} (hrc : r.2 ≠ .ok) (hc : ¬ c) :
    TakesOutIf s t r c :=
  ⟨iff_of_false hrc hc, fun h => absurd h hrc⟩

/-! ## Which queues are attended to -/

/-- The kinds of queues that threads are suspended from. -/
inductive Kind where
  | new
  | ready
  | wait
  deriving DecidableEq, Repr

def kind : QName D → Option Kind
  | .newQueue _ | .pthNQ => some .new
  | .readyQueue _ | .pthRQ => some .ready
  | .waitQueue _ | .pthWQ => some .wait
  | .pthSQ | .pthDQ => none

section Serves

variable (first : D) (max : Nat) (s : State D T) (t : T) (events : List EvType)

/-- The scheduler of `e` runs the thread when it finds it in its ready queue, or passes it on
to the first native thread. -/
def Keeps (e : D) : Prop := ∀ b, (s.tcb t).boundnative = some b → b = e ∨ b = first

/-- The event manager of `e` walks the wait queue of `ds`: a bounded native its own, the first
native all of them, the others those that they share `pth_RQ` with. -/
def Walks (e ds : D) : Prop :=
  e ∈ s.natives ∧ ds ∈ s.natives ∧ (s.isBounded e = true → ds = e) ∧
    (e ≠ first ∧ s.isBounded e = false → s.isBounded ds = false ∧ ds ≠ first)

variable [DecidableEq D]

/-- Some scheduler takes threads from the ready queue, and all that do keep this one. -/
def ServesReady (q : QName D) : Prop :=
  (∃ e ∈ s.natives, schedRQ first e (s.isBounded e) = q) ∧
    ∀ e ∈ s.natives, schedRQ first e (s.isBounded e) = q → Keeps first s t e

/-- The scheduler of `e` moves the threads of the new queue to its ready queue. -/
def ServesNew (q : QName D) : Prop :=
  ∃ e ∈ s.natives, s.isBounded e = false ∧ schedNQ first e false = q ∧
    ServesReady first s t (schedRQ first e false)

/-- It finds events of type `k` of the thread in the wait queue of `ds`: one of its passes tests
them and, for a time or a function, they set the timer of its `select`. -/
def Finds (e ds : D) (k : EvType) : Prop :=
  (k.early = true ∨ k.late (⟨s.isBounded e, ds = e, fun _ => true, false⟩ : Late Unit) = true) ∧
    (k = .time ∨ k = .func →
      e ≠ first ∧ s.isBounded e = false ∨ max = 1 ∨ (s.tcb t).boundnative = some e)

/-- Whichever of its events occurs, some event manager finds it. -/
def ServesWait (ds : D) : Prop :=
  events ≠ [] ∧ ∀ k ∈ events, ∃ e, Walks first s e ds ∧ Finds first max s t e ds k

/-- **The queue is attended to**: the thread will be dispatched from it or, for one of its events,
woken. -/
def Serves : QName D → Prop
  | .waitQueue ds => ServesWait first max s t events ds
  | .pthWQ | .pthSQ | .pthDQ => False
  | .newQueue e => ServesNew first s t (.newQueue e)
  | .pthNQ => ServesNew first s t .pthNQ
  | .readyQueue e => ServesReady first s t (.readyQueue e)
  | .pthRQ => ServesReady first s t .pthRQ

end Serves

theorem walks_self (hds : ds ∈ s.natives) : Walks first s ds ds :=
  ⟨hds, hds, fun _ => rfl, fun h => ⟨h.2, h.1⟩⟩

theorem walks_first (hfirst : first ∈ s.natives) (hfree : s.isBounded first = false)
    (hds : ds ∈ s.natives) : Walks first s first ds :=
  ⟨hfirst, hds, fun hb => Bool.noConfusion (hfree.symm.trans hb), fun h => absurd rfl h.1⟩

section

variable (h : SameSetting s s' t)
include h

theorem SameSetting.boundTo : s'.boundTo t = s.boundTo t := by
  unfold State.boundTo
  rw [h.bound, h.isBounded]

theorem SameSetting.resumeQueue : s'.resumeQueue d t = s.resumeQueue d t := by
  unfold State.resumeQueue
  rw [h.boundTo, h.state, h.natives]

theorem SameSetting.keeps (e : D) : Keeps first s' t e ↔ Keeps first s t e := by
  unfold Keeps
  rw [h.bound]

variable [DecidableEq D]

theorem SameSetting.servesReady : ServesReady first s' t q ↔ ServesReady first s t q := by
  unfold ServesReady
  simp only [h.natives, h.isBounded, h.keeps]

theorem SameSetting.serves :
    Serves first max s' t events q ↔ Serves first max s t events q := by
  cases q with
  | newQueue | pthNQ => simp only [Serves, ServesNew, h.natives, h.isBounded, h.servesReady]
  | readyQueue | pthRQ => exact h.servesReady
  | waitQueue => simp only [Serves, ServesWait, Walks, Finds, h.natives, h.isBounded, h.bound]
  | pthWQ | pthSQ | pthDQ => rfl

end

variable [DecidableEq D]

/-- The queue `q` is the one in which `pth_suspend` looks for the thread. -/
def LooksIn (s : State D T) (d : D) (t : T) (q : QName D) : Prop :=
  match s.boundTo t, (s.tcb t).state with
  | some ds, .new => q = .readyQueue ds
  | some ds, .waiting => q = .waitQueue ds
  | none, .new => q = if s.natives.length > 1 then .pthNQ else .newQueue d
  | none, .ready => q = if s.natives.length > 1 then .pthRQ else .readyQueue d
  | none, .waiting => ∃ ds ∈ s.natives, q = .waitQueue ds
  | _, _ => False

/-- There are native threads that share `pth_NQ` and `pth_RQ`, and the thread is not bound
to another one. -/
def Shared (first : D) (s : State D T) (t : T) : Prop :=
  (∃ e ∈ s.natives, e ≠ first ∧ s.isBounded e = false) ∧
    ∀ e ∈ s.natives, e ≠ first → s.isBounded e = false → Keeps first s t e

/-- The events of type `k` of the thread are found in the wait queue of `ds`. -/
def Heard (first : D) (max : Nat) (s : State D T) (t : T) (ds : D) : EvType → Prop
  | .fd => s.isBounded ds = false
  | .select | .timeSigs =>
    s.isBounded ds = false ∨ first ∈ s.natives ∧ s.isBounded first = false
  | .time | .func =>
    max = 1 ∨ (ds ≠ first ∧ s.isBounded ds = false) ∨ (s.tcb t).boundnative = some ds ∨
      ((s.tcb t).boundnative = some first ∧ first ∈ s.natives ∧ s.isBounded first = false)
  | .sigs | .msg | .mutex | .cond | .tid => True

/-- A bound thread has its native thread in the table. A new or ready thread that is not
bound to a bounded native thread has one that shares the queues, or there is only the first
one, which is not bounded if the thread is new. The events of a waiting thread are found on its
native thread or, if it is not bound, on the one that the resume is called on, `d'`. -/
def Attended (first : D) (max : Nat) (s : State D T) (d d' : D) (t : T) (events : List EvType) :
    Prop :=
  match s.boundTo t, (s.tcb t).state with
  | some ds, .waiting =>
    ds ∈ s.natives ∧ events ≠ [] ∧ ∀ k ∈ events, Heard first max s t ds k
  | none, .waiting => events ≠ [] ∧ ∀ k ∈ events, Heard first max s t d' k
  | some ds, _ => ds ∈ s.natives
  | none, .new =>
    if s.natives.length > 1 then Shared first s t
    else d = first ∧ s.isBounded d = false ∧ Keeps first s t d
  | none, _ =>
    if s.natives.length > 1 then Shared first s t
    else (d = first ∨ s.isBounded d = true) ∧ Keeps first s t d

/-! ## Where the resumed thread is -/

theorem schedRQ_eq_ready {e : D} {b : Bool} :
    schedRQ first e b = .readyQueue d ↔ e = d ∧ (b = true ∨ e = first) := by
  by_cases h : b = true ∨ e = first <;> simp [schedRQ, h]

theorem schedRQ_eq_shared {e : D} {b : Bool} :
    schedRQ first e b = .pthRQ ↔ e ≠ first ∧ b = false := by
  cases b <;> simp [schedRQ]

theorem servesReady_bound (h : s.boundTo t = some ds) :
    ServesReady first s t (.readyQueue ds) ↔ ds ∈ s.natives := by
  obtain ⟨hbound, hbounded⟩ := boundTo_eq_some h
  constructor
  · rintro ⟨⟨e, he, hrq⟩, -⟩
    exact (schedRQ_eq_ready.mp hrq).1 ▸ he
  · refine fun hds => ⟨⟨ds, hds, schedRQ_eq_ready.mpr ⟨rfl, Or.inl hbounded⟩⟩,
      fun e _ hrq b hb => ?_⟩
    rw [hbound] at hb
    cases hb
    exact Or.inl (schedRQ_eq_ready.mp hrq).1.symm

/-- A manager that is not bounded is that of the first native, or of one like `ds`. -/
theorem Walks.unbounded {e : D} (h : Walks first s e ds) (hfree : s.isBounded e = false) :
    (first ∈ s.natives ∧ e = first) ∨ (s.isBounded ds = false ∧ ds ≠ first) := by
  by_cases he : e = first
  · subst he
    exact Or.inl ⟨h.1, rfl⟩
  · exact Or.inr (h.2.2.2 ⟨he, hfree⟩)

theorem heard_of_finds {e : D} {k : EvType} (hw : Walks first s e ds)
    (hf : Finds first max s t e ds k) : Heard first max s t ds k := by
  obtain ⟨htests, harms⟩ := hf
  cases k <;> simp only [EvType.early, EvType.late, Heard] at htests ⊢
  case fd =>
    obtain ⟨hfree, rfl⟩ : s.isBounded e = false ∧ ds = e := by simpa using htests
    exact hfree
  case select | timeSigs =>
    have hfree : s.isBounded e = false := by simpa using htests
    rcases hw.unbounded hfree with ⟨hfirst, rfl⟩ | h
    · exact Or.inr ⟨hfirst, hfree⟩
    · exact Or.inl h.1
  case time | func =>
    rcases harms (by simp) with hother | hmax | hbound
    · exact Or.inr (Or.inl (hw.2.2.2 hother).symm)
    · exact Or.inl hmax
    · cases hb : s.isBounded e with
      | true => exact Or.inr (Or.inr (Or.inl (hw.2.2.1 hb ▸ hbound)))
      | false =>
        rcases hw.unbounded hb with ⟨hfirst, rfl⟩ | h
        · exact Or.inr (Or.inr (Or.inr ⟨hbound, hfirst, hb⟩))
        · exact Or.inr (Or.inl h.symm)

theorem finds_of_heard {k : EvType} (hds : ds ∈ s.natives) (h : Heard first max s t ds k) :
    ∃ e, Walks first s e ds ∧ Finds first max s t e ds k := by
  cases k <;> simp only [Heard] at h
  case fd => exact ⟨ds, walks_self hds, by simp [Finds, EvType.late, h]⟩
  case select | timeSigs =>
    rcases h with h | ⟨hfirst, hfree⟩
    · exact ⟨ds, walks_self hds, by simp [Finds, EvType.late, h]⟩
    · exact ⟨first, walks_first hfirst hfree hds, by simp [Finds, EvType.late, hfree]⟩
  case time | func =>
    rcases h with h | h | h | ⟨hbound, hfirst, hfree⟩
    · exact ⟨ds, walks_self hds, by simp [Finds, EvType.early, h]⟩
    · exact ⟨ds, walks_self hds, by simp [Finds, EvType.early, h]⟩
    · exact ⟨ds, walks_self hds, by simp [Finds, EvType.early, h]⟩
    · exact ⟨first, walks_first hfirst hfree hds, by simp [Finds, EvType.early, hbound]⟩
  all_goals exact ⟨ds, walks_self hds, by simp [Finds, EvType.early]⟩

theorem servesWait_iff : ServesWait first max s t events ds ↔
    ds ∈ s.natives ∧ events ≠ [] ∧ ∀ k ∈ events, Heard first max s t ds k := by
  constructor
  · rintro ⟨hne, hall⟩
    obtain ⟨k, hk⟩ := List.exists_mem_of_ne_nil events hne
    obtain ⟨e, hw, -⟩ := hall k hk
    refine ⟨hw.2.1, hne, fun k hk => ?_⟩
    obtain ⟨e, hw, hf⟩ := hall k hk
    exact heard_of_finds hw hf
  · rintro ⟨hds, hne, hall⟩
    exact ⟨hne, fun k hk => finds_of_heard hds (hall k hk)⟩

theorem servesReady_shared : ServesReady first s t .pthRQ ↔ Shared first s t := by
  unfold ServesReady Shared
  simp only [schedRQ_eq_shared]
  exact and_congr_right fun _ => ⟨fun h e he hne hb => h e he ⟨hne, hb⟩,
    fun h e he hrq => h e he hrq.1 hrq.2⟩

theorem servesNew_shared : ServesNew first s t .pthNQ ↔ Shared first s t := by
  constructor
  · rintro ⟨e, -, -, hnq, hserves⟩
    have hne : e ≠ first := by
      rintro rfl
      simp [schedNQ] at hnq
    rw [schedRQ_eq_shared.mpr ⟨hne, rfl⟩] at hserves
    exact servesReady_shared.mp hserves
  · intro h
    obtain ⟨e, he, hne, hb⟩ := h.1
    refine ⟨e, he, hb, by simp [schedNQ, hne], ?_⟩
    rw [schedRQ_eq_shared.mpr ⟨hne, rfl⟩]
    exact servesReady_shared.mpr h

theorem servesReady_own (h : s.natives = [d]) :
    ServesReady first s t (.readyQueue d) ↔
      (d = first ∨ s.isBounded d = true) ∧ Keeps first s t d := by
  unfold ServesReady
  rw [h]
  simp only [List.mem_singleton, exists_eq_left, forall_eq, schedRQ_eq_ready, true_and]
  constructor
  · rintro ⟨hserves, hkeeps⟩
    exact ⟨hserves.symm, hkeeps hserves⟩
  · rintro ⟨hserves, hkeeps⟩
    exact ⟨hserves.symm, fun _ => hkeeps⟩

theorem servesNew_own (h : s.natives = [d]) :
    ServesNew first s t (.newQueue d) ↔
      d = first ∧ s.isBounded d = false ∧ Keeps first s t d := by
  unfold ServesNew
  rw [h]
  simp only [List.mem_singleton, exists_eq_left]
  constructor
  · rintro ⟨hb, hnq, hserves⟩
    have hfirst : d = first := by
      by_contra hne
      simp [schedNQ, hne] at hnq
    rw [schedRQ_eq_ready.mpr ⟨rfl, Or.inr hfirst⟩, servesReady_own h] at hserves
    exact ⟨hfirst, hb, hserves.2⟩
  · rintro ⟨hfirst, hb, hkeeps⟩
    refine ⟨hb, by simp [schedNQ, hfirst], ?_⟩
    rw [schedRQ_eq_ready.mpr ⟨rfl, Or.inr hfirst⟩, servesReady_own h]
    exact ⟨Or.inl hfirst, hkeeps⟩

theorem resumeQueue_of_looksIn (first : D) (max : Nat) (events : List EvType)
    (hd : d ∈ s.natives) (hd' : d' ∈ s.natives) (h : LooksIn s d t q) :
    ∃ q', s.resumeQueue d' t = some q' ∧ kind q' = kind q ∧
      (Serves first max s t events q' ↔ Attended first max s d d' t events) := by
  unfold LooksIn at h
  unfold State.resumeQueue Attended
  cases hbound : s.boundTo t <;> cases hstate : (s.tcb t).state <;>
    simp only [hbound, hstate] at h ⊢
  case some.new => exact ⟨_, rfl, by rw [h], servesReady_bound hbound⟩
  case some.waiting => exact ⟨_, rfl, by rw [h], servesWait_iff⟩
  case none.waiting =>
    obtain ⟨ds, -, rfl⟩ := h
    exact ⟨_, rfl, rfl, servesWait_iff.trans (and_iff_right hd')⟩
  all_goals
    refine ⟨_, rfl, ?_⟩
    by_cases hmany : s.natives.length > 1 <;> simp only [hmany, reduceIte] at h ⊢
    · exact ⟨by rw [h], by first | exact servesNew_shared | exact servesReady_shared⟩
    · obtain ⟨rfl, hone⟩ := natives_eq_of_one hd hd' hmany
      exact ⟨by rw [h], by first | exact servesNew_own hone | exact servesReady_own hone⟩

theorem goto_goto : (s.goto d p).goto d p' = s.goto d p' := by
  simp only [State.goto, update_idem]

theorem goto_ret : (s.goto d p).ret d cur rc = s.ret d cur rc := by
  simp only [State.ret, goto_goto]
  rfl

variable [DecidableEq T]

/-! ## The calls -/

namespace State

/-- From the label `found` on: to `pth_SQ`, if the thread is in the queue `q`. -/
def takeOut (s : State D T) (q : QName D) (t : T) : State D T × Errno :=
  if pqueueContains s.heap q t then ((s.delete t).append .pthSQ t, .ok) else (s, .esrch)

/-- `pth_WQ_delete` and the append to `pth_SQ`. -/
def takeOutWaiting (s : State D T) (t : T) : State D T × Errno :=
  if s.natives.any fun ds => pqueueContains s.heap (.waitQueue ds) t then
    (((s.delete t).setWaitedNative t none).append .pthSQ t, .ok)
  else (s, .esrch)

/-- `pth_suspend (t)` by `cur` on `d`. -/
def pthSuspend (s : State D T) (d : D) (cur t : T) : State D T × Errno :=
  if t = cur then (s, .eperm)
  else if s.natives.any fun e => (s.pc e).current = some t then
    (s.setShouldSuspend t true, .einprogress)
  else
    match s.boundTo t with
    | some ds =>
      match (s.tcb t).state with
      | .new => s.takeOut (.readyQueue ds) t
      | .waiting => s.takeOut (.waitQueue ds) t
      | _ => (s, .eperm)
    | none =>
      match (s.tcb t).state with
      | .new => s.takeOut (if s.natives.length > 1 then .pthNQ else .newQueue d) t
      | .ready => s.takeOut (if s.natives.length > 1 then .pthRQ else .readyQueue d) t
      | .waiting => s.takeOutWaiting t
      | _ => (s, .eperm)

/-- `pth_resume (t)` by `cur` on `d`, up to the switch in `pth_yield (t)`, and what it
returns. -/
def pthResume (s : State D T) (d : D) (cur t : T) : State D T × Errno :=
  if t = cur then (s, .eperm)
  else if pqueueContains s.heap .pthSQ t then
    let s := s.delete t
    match s.resumeQueue d t with
    | none => (s, .eperm)
    | some q => ((s.append q t).yieldTo d cur t, .ok)
  else (s, .eperm)

end State

/-! ## The pieces in a row -/

/-- The native `d` goes on alone. -/
def Goes (first d : D) (s s' : State D T) : Prop :=
  ∃ n, run (State.step first) s (List.replicate n (.go d)) = some s'

theorem Goes.refl (first d : D) (s : State D T) : Goes first d s s := ⟨0, rfl⟩

theorem Goes.step (s₁ : State D T) (h : s.go first d = some s₁) (hrest : Goes first d s₁ s') :
    Goes first d s s' := by
  obtain ⟨n, hn⟩ := hrest
  refine ⟨n + 1, ?_⟩
  show (s.go first d).bind _ = some s'
  rw [h]
  exact hn

theorem Goes.last (h : s.go first d = some s') : Goes first d s s' := .step _ h (.refl first d _)

theorem Goes.trans (h : Goes first d s s₁) (h' : Goes first d s₁ s') : Goes first d s s' := by
  obtain ⟨n, hn⟩ := h
  obtain ⟨m, hm⟩ := h'
  refine ⟨n + m, ?_⟩
  rw [← List.replicate_append_replicate, run_append, hn]
  exact hm

theorem Goes.run_cons {a : Action D T} (hstep : s.step first a = some s₁) (h : Goes first d s₁ s') :
    ∃ n, run (State.step first) s (a :: List.replicate n (.go d)) = some s' := by
  obtain ⟨n, hn⟩ := h
  refine ⟨n, ?_⟩
  show (s.step first a).bind _ = some s'
  rw [hstep]
  exact hn

theorem suspend_goes (first : D) (hcur : s.pc d = .running cur) (slots : List D) :
    Goes first d (s.goto d (.suspend cur t slots))
      (if slots.any fun e => (s.pc e).current = some t then
        (s.setShouldSuspend t true).ret d cur .einprogress
      else s.goto d (.locate cur t)) := by
  induction slots with
  | nil =>
    refine .last ?_
    simp [State.go, State.goto]
  | cons e slots ih =>
    -- the caller's own slot has the caller as its current thread, in the call or not
    have hsame : (update s.pc d (.suspend cur t (e :: slots)) e).current = (s.pc e).current := by
      by_cases he : e = d
      · simp [he, hcur, Pc.current]
      · simp [he]
    by_cases hfound : (s.pc e).current = some t
    · refine .last ?_
      simp [State.go, State.goto, hsame, hfound, State.ret, State.setShouldSuspend, State.setTcb]
    · simp only [List.any_cons, hfound, decide_false, Bool.false_or]
      refine .step _ ?_ ih
      simp [State.go, State.goto, hsame, hfound]

theorem found_goes (hfree : ∀ ds, s.lock ds = none) (q : QName D) :
    Goes first d (s.goto d (.found cur t q))
      ((s.takeOut q t).1.ret d cur (s.takeOut q t).2) := by
  unfold State.takeOut
  split
  case isTrue hin =>
    refine .step (s.goto d (.remove cur t q)) ?_ (.step ((s.delete t).goto d (.toSQ cur t))
      ?_ (.last ?_)) <;>
      simp [State.go, State.goto, State.ret, State.delete, State.append, lockFree_of_free, hfree,
        hin]
  case isFalse hno =>
    refine .last ?_
    simp [State.go, State.goto, State.ret, hno]

theorem wqScan_goes (first d : D) (cur t : T) (hfree : ∀ ds, s.lock ds = none) (slots : List D) :
    Goes first d (s.goto d (.wqScan cur t slots))
      (if slots.any fun ds => pqueueContains s.heap (.waitQueue ds) t then
        (((s.delete t).setWaitedNative t none).append .pthSQ t).ret d cur .ok
      else s.ret d cur .esrch) := by
  induction slots with
  | nil =>
    refine .last ?_
    simp [State.go, State.goto, State.ret]
  | cons ds slots ih =>
    have hlock : update s.lock ds none = s.lock := by rw [← hfree ds, update_eq_self]
    by_cases hin : pqueueContains s.heap (.waitQueue ds) t = true
    · simp only [List.any_cons, hin, Bool.true_or, if_true]
      refine .step (s.goto d (.wqLock cur t ds)) ?_
        (.step (((s.acquire ds d).delete t).goto d (.wqDeleted cur t ds)) ?_
        (.step (((s.delete t).setWaitedNative t none).goto d (.toSQ cur t)) ?_ (.last ?_))) <;>
        simp [State.go, State.goto, State.ret, State.delete, State.append, State.acquire,
          State.release, State.setWaitedNative, State.setTcb, hin, hfree, hlock]
    · simp only [List.any_cons, hin, Bool.false_or]
      refine .step _ ?_ ih
      simp [State.go, State.goto, hin]

theorem locate_goes (hfree : ∀ ds, s.lock ds = none) (hne : t ≠ cur)
    (hidle : ¬ (s.natives.any fun e => (s.pc e).current = some t) = true) :
    Goes first d (s.goto d (.locate cur t))
      ((s.pthSuspend d cur t).1.ret d cur (s.pthSuspend d cur t).2) := by
  have hgo : (s.goto d (.locate cur t)).go first d =
      some ((s.goto d (.locate cur t)).locate d cur t) := by
    simp [State.go, State.goto]
  refine .step _ hgo ?_
  simp only [State.locate, State.pthSuspend, if_neg hne, if_neg hidle, goto_goto, goto_ret]
  have hbound : (s.goto d (.locate cur t)).boundTo t = s.boundTo t := rfl
  have hstate : ((s.goto d (.locate cur t)).tcb t).state = (s.tcb t).state := rfl
  rw [hbound, hstate]
  cases s.boundTo t <;> cases (s.tcb t).state
  case none.waiting =>
    have hscan := wqScan_goes first d cur t hfree s.natives
    split at hscan <;> rename_i h <;> simp only [State.takeOutWaiting, h] <;> exact hscan
  all_goals first | exact found_goes hfree _ | exact .refl first d _

/-- **A suspend that nothing interferes with** returns, having done what `pthSuspend` says. -/
theorem suspend_run (first : D) (hcur : s.pc d = .running cur) (hfree : ∀ ds, s.lock ds = none)
    (t : T) : ∃ n, run (State.step first) s (.suspend d t :: List.replicate n (.go d)) =
      some ((s.pthSuspend d cur t).1.ret d cur (s.pthSuspend d cur t).2) := by
  have hstep : s.step first (.suspend d t) =
      some (if t = cur then s.ret d cur .eperm else s.goto d (.suspend cur t s.natives)) := by
    simp only [State.step, State.byRunning, hcur]
  refine Goes.run_cons hstep ?_
  by_cases hne : t = cur
  · rw [if_pos hne, State.pthSuspend, if_pos hne]
    exact .refl first d _
  · rw [if_neg hne]
    refine (suspend_goes first hcur s.natives).trans ?_
    by_cases hidle : (s.natives.any fun e => (s.pc e).current = some t) = true
    · rw [if_pos hidle, State.pthSuspend, if_neg hne, if_pos hidle]
      exact .refl first d _
    · rw [if_neg hidle]
      exact locate_goes hfree hne hidle

/-- The thread runs on native 2. -/
theorem suspend_run_running :
    ∃ n, run (State.step 0) twoRunning (.suspend 1 2 :: List.replicate n (.go 1)) =
      some ((twoRunning.setShouldSuspend 2 true).ret 1 1 .einprogress) :=
  suspend_run (s := twoRunning) (d := 1) 0 rfl (fun _ => rfl) 2

theorem goto_yieldTo : (s.goto d p).yieldTo d cur t = s.yieldTo d cur t := by
  simp only [State.yieldTo, State.ret, State.goto, update_idem]

/-- **A resume that nothing interferes with** returns or, after `pth_yield`, is about to switch,
having done what `pthResume` says. -/
theorem resume_run (first : D) (hcur : s.pc d = .running cur) (hfree : ∀ ds, s.lock ds = none)
    (t : T) : ∃ n, run (State.step first) s (.resume d t :: List.replicate n (.go d)) =
      some (if (s.pthResume d cur t).2 = .ok then (s.pthResume d cur t).1
        else (s.pthResume d cur t).1.ret d cur (s.pthResume d cur t).2) := by
  have hstep : s.step first (.resume d t) =
      some (if t = cur then s.ret d cur .eperm
        else if pqueueContains s.heap .pthSQ t then s.goto d (.resumeRemove cur t)
        else s.ret d cur .eperm) := by
    simp only [State.step, State.byRunning, hcur]
  refine Goes.run_cons hstep ?_
  unfold State.pthResume
  by_cases hne : t = cur
  · simp only [if_pos hne]
    exact .refl first d _
  by_cases hin : pqueueContains s.heap .pthSQ t = true <;> simp only [if_neg hne, hin, reduceIte]
  · have hqueue : ((s.delete t).goto d (.resumeAppend cur t)).resumeQueue d t =
        (s.delete t).resumeQueue d t := rfl
    refine .step ((s.delete t).goto d (.resumeAppend cur t)) ?_ (.last ?_)
    · simp [State.go, State.goto, State.delete, lockFree_of_free, hfree]
    · simp only [State.go, show ((s.delete t).goto d (.resumeAppend cur t)).pc d = _
        from update_self ..]
      rw [hqueue]
      cases (s.delete t).resumeQueue d t with
      | none => exact congrArg some (goto_ret)
      | some q =>
        refine (if_pos (lockFree_of_free hfree _)).trans (congrArg some ?_)
        exact goto_yieldTo (s := (s.delete t).append q t)
  · exact .refl first d _

/-- Thread 0 is suspended. -/
theorem resume_run_suspended :
    ∃ n, run (State.step 0) (twoRunning.append .pthSQ 0) (.resume 1 0 :: List.replicate n (.go 1)) =
      some ((twoRunning.append .pthSQ 0).pthResume 1 1 0).1 :=
  resume_run (s := twoRunning.append .pthSQ 0) (d := 1) 0 rfl (fun _ => rfl) 0

/-! ## What the calls leave -/

theorem requeue_heap {h : Heap (QName D) T} (hO : h.Ok) (q : QName D) :
    (pqueueAppendNode (pqueueDeleteNode h t) q t).Ok ∧
      (pqueueAppendNode (pqueueDeleteNode h t) q t).place t = some q := by
  have hdeleted : (pqueueDeleteNode h t).Ok := hO.exec t .delete
  have hnone : (pqueueDeleteNode h t).place t = none :=
    (pqueueDeleteNode_place hO t t).trans (if_pos rfl)
  refine ⟨hdeleted.exec t (.append q), ?_⟩
  exact (pqueueAppendNode_place hdeleted hnone q t).trans (if_pos rfl)

theorem takeOut_spec (hO : s.heap.Ok) (hq : s.place t = some q) (q' : QName D) :
    TakesOutIf s t (s.takeOut q' t) (q = q') := by
  have hcontains : pqueueContains s.heap q' t = true ↔ q = q' := by
    rw [hO.contains_iff]
    show s.place t = some q' ↔ _
    rw [hq, Option.some_inj]
  obtain ⟨hok, hplace⟩ := requeue_heap hO .pthSQ
  unfold State.takeOut
  split
  case isTrue hin =>
    exact ⟨iff_of_true rfl (hcontains.mp hin), fun _ => ⟨⟨rfl, rfl, rfl, rfl⟩, hok, hplace⟩⟩
  case isFalse hno =>
    exact takesOutIf_of_failed (Errno.noConfusion ·) fun he => hno (hcontains.mpr he)

theorem takeOutWaiting_spec (hO : s.heap.Ok) (hq : s.place t = some q) :
    TakesOutIf s t (s.takeOutWaiting t) (∃ ds ∈ s.natives, q = .waitQueue ds) := by
  have hany : (s.natives.any fun ds => pqueueContains s.heap (.waitQueue ds) t) = true ↔
      ∃ ds ∈ s.natives, q = .waitQueue ds := by
    rw [List.any_eq_true]
    refine exists_congr fun ds => and_congr_right fun _ => ?_
    rw [hO.contains_iff]
    show s.place t = _ ↔ _
    rw [hq, Option.some_inj]
  obtain ⟨hok, hplace⟩ := requeue_heap hO .pthSQ
  have htcb : (((s.delete t).setWaitedNative t none).append .pthSQ t).tcb t =
      { s.tcb t with waitedNative := none } := update_self ..
  have hset : SameSetting s (((s.delete t).setWaitedNative t none).append .pthSQ t) t :=
    ⟨rfl, rfl, by rw [htcb], by rw [htcb]⟩
  unfold State.takeOutWaiting
  split
  case isTrue hin => exact ⟨iff_of_true rfl (hany.mp hin), fun _ => ⟨hset, hok, hplace⟩⟩
  case isFalse hno =>
    exact takesOutIf_of_failed (Errno.noConfusion ·) fun he => hno (hany.mpr he)

theorem pthSuspend_spec (hO : s.heap.Ok) (hne : t ≠ cur)
    (hrun : ∀ e, (s.pc e).current ≠ some t) (hq : s.place t = some q) :
    TakesOutIf s t (s.pthSuspend d cur t) (LooksIn s d t q) := by
  have hidle : ¬ (s.natives.any fun e => (s.pc e).current = some t) = true := by
    simpa using fun e _ => hrun e
  unfold State.pthSuspend LooksIn
  rw [if_neg hne, if_neg hidle]
  cases s.boundTo t <;> cases (s.tcb t).state
  case none.waiting => exact takeOutWaiting_spec hO hq
  all_goals
    first | exact takeOut_spec hO hq _ | exact takesOutIf_of_failed (Errno.noConfusion ·) id

theorem yieldTo_setting (s : State D T) (d : D) (cur t u : T) :
    SameSetting s (s.yieldTo d cur t) u := by
  rcases s.yieldTo_cases d cur t with h | h <;> rw [h] <;> exact ⟨rfl, rfl, rfl, rfl⟩

theorem pthResume_spec (hO : s.heap.Ok) (hne : t ≠ cur) (hplace : s.place t = some .pthSQ)
    (hq : s.resumeQueue d t = some q) :
    (s.pthResume d cur t).2 = .ok ∧ (s.pthResume d cur t).1.place t = some q ∧
      SameSetting s (s.pthResume d cur t).1 t := by
  have hin : pqueueContains s.heap .pthSQ t = true := hO.contains_iff.mpr hplace
  have hset : SameSetting s (s.delete t) t := ⟨rfl, rfl, rfl, rfl⟩
  unfold State.pthResume
  simp only [if_neg hne, if_pos hin, hset.resumeQueue, hq]
  refine ⟨trivial, ?_, ?_⟩
  · show (State.heap _).place t = _
    rw [State.yieldTo_heap, pqueueFavor_place]
    exact (requeue_heap hO q).2
  · have hyield := yieldTo_setting ((s.delete t).append q t) d cur t t
    exact ⟨hyield.natives, hyield.isBounded, hyield.bound, hyield.state⟩

end Ngpt.Sched.Multi

namespace Ngpt.Sched.Create

open Ngpt.Queue Ngpt.Sched.Multi Transition
open Ngpt.Natives (Scope)

/-- The main thread is dispatched and spawns a second one. -/
def spawnOne (attr : Option Attr) (native : Native Bool) : List (Action Bool Bool) :=
  [.multi (.moveNew false), .multi (.pick false), .multi (.go false),
    .spawn false true attr native, .append false]

/-- The second thread is dispatched and waits; the main thread goes on. -/
def waitOne : List (Action Bool Bool) :=
  let go : Action Bool Bool := .multi (.go false)
  spawnOne none .unneeded ++
    [.multi (.yield false), go, go, go, .multi (.moveNew false), .multi (.pick false), go,
      .multi (.yield false), go, go, go, .multi (.pick false), go,
      .multi (.wait false), go, go, go, go, .multi (.pick false), go]

end Ngpt.Sched.Create
