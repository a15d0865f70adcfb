import Ngpt.Errno
import Ngpt.Sched.Dispatch

/-!
# ngpt — thread-control calls that fail (`pth_lib.c`, `pth_cancel.c`)

`pth_suspend`, `pth_resume`, `pth_cancel` and `pth_abort` as calls that nothing interferes
with, by the thread that runs on the native `d`. `pth_suspend` makes its tests first. The others
write to the thread or unlink it before their last test, and `pth_abort` takes the 0 of a
`pth_join` that has freed the thread for a failure.

Result: `failed_control_iff`.
-/

namespace Ngpt.Sched.Control

open Function Ngpt.Queue

/-- `pth_state_t`. -/
inductive PthState where
  | scheduler | new | ready | waiting | mutexWaiting | dead | exit
  deriving DecidableEq, Repr

/-- `struct pth_st`, the fields that the calls read or write; `cancelEnable` and `cancelAsync`
are the bits of `cancelstate`. -/
@[ext]
structure Tcb (D : Type) where
  state         : PthState
  cancelreq     : Bool
  cancelEnable  : Bool
  cancelAsync   : Bool
  joinable      : Bool
  joinedCount   : Int
  boundnative   : Option D
  shouldSuspend : Bool

/-- `threads` is `pth_threads_queue`, `natives` is `pth_native_list`. -/
structure State (D T : Type) where
  heap      : Heap (QName D) T
  tcb       : T → Tcb D
  threads   : List T
  natives   : List D
  isBounded : D → Bool
  current   : D → Option T
  sched     : D → Option T

variable {D T : Type} [DecidableEq D]

namespace State

variable [DecidableEq T]

def setTcb (s : State D T) (t : T) (x : Tcb D) : State D T :=
  { s with tcb := update s.tcb t x }

def append (s : State D T) (q : QName D) (t : T) : State D T :=
  { s with heap := pqueueAppendNode s.heap q t }

def delete (s : State D T) (t : T) : State D T :=
  { s with heap := pqueueDeleteNode s.heap t }

/-- The bounded native that a thread is bound to. -/
def boundTo (s : State D T) (t : T) : Option D :=
  (s.tcb t).boundnative.filter fun ds => s.isBounded ds

/-- The queue of the new threads, seen from the native `d`. -/
def newQueue (s : State D T) (d : D) : QName D :=
  if s.natives.length > 1 then .pthNQ else .newQueue d

def readyQueue (s : State D T) (d : D) : QName D :=
  if s.natives.length > 1 then .pthRQ else .readyQueue d

/-- From the label `found` of `pth_suspend` on. -/
def takeOut (s : State D T) (q : QName D) (t : T) : State D T × Errno :=
  if pqueueContains s.heap q t then ((s.delete t).append .pthSQ t, .ok) else (s, .esrch)

def pthSuspend (s : State D T) (d : D) (t : T) : State D T × Errno :=
  if s.current d = some t ∨ s.sched d = some t then (s, .eperm)
  else if s.natives.any fun e => s.current e = some t then
    (s.setTcb t { s.tcb t with shouldSuspend := true }, .einprogress)
  else
    match s.boundTo t with
    | some ds =>
      match (s.tcb t).state with
      | .new => s.takeOut (.readyQueue ds) t
      | .waiting => s.takeOut (.waitQueue ds) t
      | _ => (s, .eperm)
    | none =>
      match (s.tcb t).state with
      | .new => s.takeOut (s.newQueue d) t
      | .ready => s.takeOut (s.readyQueue d) t
      | .waiting =>
        -- `pth_WQ_delete`
        match s.natives.find? fun ds => pqueueContains s.heap (.waitQueue ds) t with
        | some ds => s.takeOut (.waitQueue ds) t
        | none => (s, .esrch)
      | _ => (s, .eperm)

/-- The queue that `pth_resume` chooses. -/
def resumeQueue (s : State D T) (d : D) (t : T) : Option (QName D) :=
  match s.boundTo t, (s.tcb t).state with
  | some ds, .new => some (.readyQueue ds)
  | some ds, .waiting => some (.waitQueue ds)
  | none, .new => some (s.newQueue d)
  | none, .ready => some (s.readyQueue d)
  | none, .waiting => some (.waitQueue d)
  | _, _ => none

/-- `pth_resume` up to its `pth_yield`. -/
def pthResume (s : State D T) (d : D) (t : T) : State D T × Errno :=
  if s.current d = some t ∨ s.sched d = some t then (s, .eperm)
  else if !pqueueContains s.heap .pthSQ t then (s, .eperm)
  else
    match s.resumeQueue d t with
    | none => (s.delete t, .eperm)
    | some q => ((s.delete t).append q t, .ok)

/-- `pth_tcb_free`: off the list of threads. -/
def pthTcbFree (s : State D T) (t : T) : State D T := { s with threads := s.threads.erase t }

/-- From the label `found` of `pth_cancel` on; the cleanup handlers are left out. -/
def cancelFound (s : State D T) (q : QName D) (t : T) : State D T × Bool :=
  if !pqueueContains s.heap q t then (s, false)
  else if !(s.tcb t).joinable then ((s.delete t).pthTcbFree t, true)
  else (((s.delete t).setTcb t { s.tcb t with state := .dead }).append .pthDQ t, true)

/-- The cancellation of another thread at once. -/
def cancelNow (s : State D T) (d : D) (t : T) : State D T × Bool :=
  match s.boundTo t, (s.tcb t).state with
  | some ds, .new => s.cancelFound (.readyQueue ds) t
  | some _, _ => (s, true)
  | none, .new => s.cancelFound (s.newQueue d) t
  | none, .ready | none, .waiting | none, .mutexWaiting => (s, true)
  | none, _ => (s, false)

/-- `pth_cancel`; a thread that cancels itself may not return from `pth_cancel_point`. -/
def pthCancel (s : State D T) (d : D) (t : T) : State D T × Bool :=
  if t ∉ s.threads then (s, false)
  else if (s.tcb t).state = .dead ∨ (s.tcb t).cancelreq then (s, true)
  else
    let s := s.setTcb t { s.tcb t with cancelreq := true }
    if (s.tcb t).cancelEnable && (s.tcb t).cancelAsync then
      if s.current d = some t then (s, true) else s.cancelNow d t
    else (s, true)

/-- `pth_join` of a thread that is dead and joinable. -/
def joinDead (s : State D T) (t : T) : State D T × Errno :=
  if t ∉ s.threads then (s, .esrch)
  else if s.threads.length = 1 then (s, .edeadlk)
  else if !pqueueContains s.heap .pthDQ t then (s, .esrch)
  else
    let s := s.setTcb t { s.tcb t with joinedCount := (s.tcb t).joinedCount - 1 }
    if (s.tcb t).joinedCount > 0 then (s, .esrch) else ((s.delete t).pthTcbFree t, .ok)

/-- What `pth_abort` writes before it calls `pth_cancel`. -/
def detach (s : State D T) (t : T) : State D T :=
  s.setTcb t { s.tcb t with joinable := false, cancelEnable := true, cancelAsync := true }

def pthAbort (s : State D T) (d : D) (t : T) : State D T × Bool :=
  if s.current d = some t then (s, false)
  else if (s.tcb t).state = .dead ∧ (s.tcb t).joinable then
    ((s.joinDead t).1, (s.joinDead t).2 ≠ .ok)
  else (s.detach t).pthCancel d t

end State

/-- The thread is linked as before, in the same queue, with the same fields. -/
structure Unchanged (t : T) (s s' : State D T) : Prop where
  links : s'.heap.links = s.heap.links
  queue : ∀ q, pqueueContains s'.heap q t = pqueueContains s.heap q t
  tcb   : s'.tcb t = s.tcb t

variable {s : State D T} {d : D} {t : T} {q : QName D}

theorem Unchanged.refl (t : T) (s : State D T) : Unchanged t s s := ⟨rfl, fun _ => rfl, rfl⟩

theorem not_unchanged_cancelreq {s' : State D T} (h : (s.tcb t).cancelreq = false)
    (h' : (s'.tcb t).cancelreq = true) : ¬ Unchanged t s s' := by
  intro hu
  rw [hu.tcb, h] at h'
  cases h'

/-- What is asked of `pth_suspend` and `pth_resume`, and of `pth_cancel` and `pth_abort`. -/
def Failing (t : T) (s : State D T) (r : State D T × Errno) : Prop :=
  r.2 ≠ .ok → r.2 ≠ .einprogress → Unchanged t s r.1

def Refusing (t : T) (s : State D T) (r : State D T × Bool) : Prop :=
  r.2 = false → Unchanged t s r.1

/-- A suspended thread has a queue to go to. -/
def ResumeFits (s : State D T) (d : D) (t : T) : Prop :=
  s.current d = some t ∨ s.sched d = some t ∨ pqueueContains s.heap .pthSQ t = false ∨
    (s.resumeQueue d t).isSome

/-- A thread that can be cancelled at once is where its state says. -/
def Findable (s : State D T) (d : D) (t : T) : Prop :=
  match s.boundTo t, (s.tcb t).state with
  | some ds, .new => pqueueContains s.heap (.readyQueue ds) t = true
  | none, .new => pqueueContains s.heap (s.newQueue d) t = true
  | none, .scheduler | none, .exit | none, .dead => False
  | _, _ => True

/-- A thread that `pth_cancel` has something to do for, other than the caller. -/
def Cancels (s : State D T) (d : D) (t : T) : Prop :=
  t ∈ s.threads ∧ (s.tcb t).state ≠ .dead ∧ (s.tcb t).cancelreq = false ∧ s.current d ≠ some t

def CancelFits (s : State D T) (d : D) (t : T) : Prop :=
  Cancels s d t → (s.tcb t).cancelEnable = true → (s.tcb t).cancelAsync = true → Findable s d t

variable [DecidableEq T]

/-- A dead thread is not joined: it is not listed or the only one, it is not in `pth_DQ`, or
others have to join it too. Any other is found, or it has been freed with the fields that
`pth_abort` writes. -/
def AbortFits (s : State D T) (d : D) (t : T) : Prop :=
  s.current d = some t ∨
    if (s.tcb t).state = .dead ∧ (s.tcb t).joinable = true then
      t ∈ s.threads → s.threads.length ≠ 1 → pqueueContains s.heap .pthDQ t = true →
        1 < (s.tcb t).joinedCount
    else if t ∈ s.threads then Cancels s d t → Findable s d t
    else (s.tcb t).joinable = false ∧ (s.tcb t).cancelEnable = true ∧ (s.tcb t).cancelAsync = true

/-- A thread that is deleted is in no queue, so the caller can tell. -/
theorem contains_delete (hq : pqueueContains s.heap q t = true) :
    pqueueContains (s.delete t).heap q t = false := by
  have hin : nodeLtCheck s.heap t .pqueue = false ∧ (s.heap.node t).bp = some q := by
    simpa [pqueueContains] using hq
  have hdel : ((s.delete t).heap.node t).bp = none := by
    simp only [State.delete, pqueueDeleteNode, hin, Bool.false_eq_true, if_false]
    split <;>
      simp [pqueueDelete, nodePqueueSet, Heap.setNode, Heap.resetBit, Heap.setPqueue]
  simp [pqueueContains, hdel]

theorem findable_setTcb {x : Tcb D} (hs : x.state = (s.tcb t).state)
    (hb : x.boundnative = (s.tcb t).boundnative) :
    Findable (s.setTcb t x) d t ↔ Findable s d t := by
  simp [Findable, State.boundTo, State.setTcb, State.newQueue, hs, hb]

theorem cancelFound_cases :
    pqueueContains s.heap q t = true ∧ (s.cancelFound q t).2 = true ∨
      ¬ pqueueContains s.heap q t = true ∧ s.cancelFound q t = (s, false) := by
  unfold State.cancelFound
  cases pqueueContains s.heap q t <;> simp
  split <;> rfl

theorem cancelNow_cases :
    Findable s d t ∧ (s.cancelNow d t).2 = true ∨
      ¬ Findable s d t ∧ s.cancelNow d t = (s, false) := by
  simp only [Findable, State.cancelNow]
  cases s.boundTo t <;> cases (s.tcb t).state <;>
    first | exact cancelFound_cases | simp

theorem pthCancel_cases :
    t ∉ s.threads ∧ s.pthCancel d t = (s, false) ∨
      t ∈ s.threads ∧ CancelFits s d t ∧ (s.pthCancel d t).2 = true ∨
      t ∈ s.threads ∧ ¬ CancelFits s d t ∧ (s.tcb t).cancelreq = false ∧
        s.pthCancel d t = (s.setTcb t { s.tcb t with cancelreq := true }, false) := by
  by_cases hex : t ∈ s.threads
  · refine Or.inr ?_
    simp only [hex, true_and, State.pthCancel, not_true_eq_false, if_false]
    split
    next hdone =>
      refine Or.inl ⟨fun hc => ?_, rfl⟩
      rcases hdone with hdead | hreq
      · exact absurd hdead hc.2.1
      · simp [hc.2.2.1] at hreq
    next hdone =>
      simp only [not_or, Bool.not_eq_true] at hdone
      split
      next hasync =>
        simp only [State.setTcb, update_self, Bool.and_eq_true] at hasync
        split
        next hcur => exact Or.inl ⟨fun hc => absurd hcur hc.2.2.2, rfl⟩
        next hcur =>
          have hfind := findable_setTcb (d := d)
            (x := { s.tcb t with cancelreq := true }) rfl rfl
          rcases cancelNow_cases (s := s.setTcb t { s.tcb t with cancelreq := true })
            with ⟨hf, hr⟩ | ⟨hf, hr⟩
          · exact Or.inl ⟨fun _ _ _ => hfind.mp hf, hr⟩
          · refine Or.inr ⟨fun hfits => hf (hfind.mpr ?_), hdone.2, hr⟩
            exact hfits ⟨hex, hdone.1, hdone.2, hcur⟩ hasync.1 hasync.2
      next hasync =>
        refine Or.inl ⟨fun _ he ha => ?_, rfl⟩
        simp [State.setTcb, he, ha] at hasync
  · exact Or.inl ⟨hex, by simp [State.pthCancel, hex]⟩

theorem suspend_failing : Failing t s (s.pthSuspend d t) := by
  have htake : ∀ q, Failing t s (s.takeOut q t) := by
    intro q h₁ _
    unfold State.takeOut at h₁ ⊢
    split
    · simp_all
    · exact .refl t s
  unfold State.pthSuspend
  split
  · exact fun _ _ => .refl t s
  split
  · exact fun _ h => absurd rfl h
  cases s.boundTo t <;> cases (s.tcb t).state <;> dsimp only
  case none.waiting =>
    split
    · exact htake _
    · exact fun _ _ => .refl t s
  all_goals first | exact htake _ | exact fun _ _ => .refl t s

theorem resume_failing_iff : Failing t s (s.pthResume d t) ↔ ResumeFits s d t := by
  unfold State.pthResume ResumeFits
  split
  next hcur => exact ⟨fun _ => by tauto, fun _ _ _ => .refl t s⟩
  next hcur =>
    cases hq : pqueueContains s.heap .pthSQ t
    · simp only [Bool.not_false, if_true]
      exact ⟨fun _ => by tauto, fun _ _ _ => .refl t s⟩
    · cases hr : s.resumeQueue d t with
      | some q => simp [Failing]
      | none =>
        have hnot : ¬ Unchanged t s (s.delete t) := fun hu => by
          have := hu.queue .pthSQ
          rw [contains_delete hq, hq] at this
          cases this
        simp only [not_or] at hcur
        simp [Failing, hnot, hcur.1, hcur.2]

theorem cancel_refusing_iff : Refusing t s (s.pthCancel d t) ↔ CancelFits s d t := by
  rcases pthCancel_cases (s := s) with ⟨hex, hr⟩ | ⟨hex, hfits, hr⟩ |
    ⟨hex, hfits, hreq, hr⟩
  · rw [hr]
    exact ⟨fun _ hc => absurd hc.1 hex, fun _ _ => .refl t s⟩
  · refine ⟨fun _ => hfits, fun _ h => ?_⟩
    cases hr.symm.trans h
  · rw [hr]
    refine ⟨fun h => absurd (h rfl) (not_unchanged_cancelreq hreq (by simp [State.setTcb])),
      fun h => absurd h hfits⟩

/-- A dead thread stays if `pth_join` fails one of its tests, and is unlinked if it passes. -/
theorem joinDead_cases :
    (s.joinDead t).2 ≠ .ok ∧ (t ∈ s.threads → s.threads.length ≠ 1 →
        pqueueContains s.heap .pthDQ t = true → 1 < (s.tcb t).joinedCount) ∨
      (s.joinDead t).2 = .ok ∧ (s.joinDead t).1.heap = (s.delete t).heap ∧ t ∈ s.threads ∧
        s.threads.length ≠ 1 ∧ pqueueContains s.heap .pthDQ t = true ∧
        ¬ 1 < (s.tcb t).joinedCount := by
  unfold State.joinDead
  split
  next hex => exact Or.inl ⟨by simp, fun h => absurd h hex⟩
  next hex =>
    split
    next hone => exact Or.inl ⟨by simp, fun _ h => absurd hone h⟩
    next hone =>
      split
      next hq => exact Or.inl ⟨by simp, fun _ _ h => by simp [h] at hq⟩
      next hq =>
        simp only [State.setTcb, update_self]
        split
        next hcount => exact Or.inl ⟨by simp, fun _ _ _ => by omega⟩
        next hcount =>
          exact Or.inr ⟨rfl, rfl, not_not.mp hex, hone, by simpa using hq, by omega⟩

theorem abort_refusing_iff : Refusing t s (s.pthAbort d t) ↔ AbortFits s d t := by
  unfold State.pthAbort AbortFits
  by_cases hcur : s.current d = some t
  · simp [hcur, Refusing, Unchanged.refl]
  rw [if_neg hcur]
  simp only [hcur, false_or]
  split
  next hdead =>
    rcases joinDead_cases (s := s) (t := t) with ⟨hfail, hfits⟩ |
      ⟨hok, hheap, hex, hone, hq, hcount⟩
    · exact ⟨fun _ => hfits, fun _ hr => absurd (by simpa using hr) hfail⟩
    · -- the thread has left `pth_DQ`
      refine ⟨fun h => ?_, fun h => absurd (h hex hone hq) hcount⟩
      have hu := (h (by simpa using hok)).queue .pthDQ
      rw [hheap, contains_delete hq, hq] at hu
      cases hu
  next hdead =>
    have hfind : Findable (s.detach t) d t ↔ Findable s d t := findable_setTcb rfl rfl
    have hfits : CancelFits (s.detach t) d t ↔ (Cancels s d t → Findable s d t) := by
      rw [CancelFits, hfind]
      simp [Cancels, State.detach, State.setTcb]
    rcases pthCancel_cases (s := s.detach t) with ⟨hex, hr⟩ | ⟨hex, hc, hr⟩ |
      ⟨hex, hc, hreq, hr⟩
    · have hex' : t ∉ s.threads := hex
      rw [hr, if_neg hex']
      refine ⟨fun h => ?_, fun h _ => ⟨rfl, fun _ => rfl, ?_⟩⟩
      · rw [← (h rfl).tcb]
        simp [State.detach, State.setTcb]
      · ext <;> simp [State.detach, State.setTcb, h]
    · have hex' : t ∈ s.threads := hex
      rw [if_pos hex']
      refine ⟨fun _ => hfits.mp hc, fun _ h => ?_⟩
      cases hr.symm.trans h
    · have hex' : t ∈ s.threads := hex
      rw [hr, if_pos hex']
      refine ⟨fun h => absurd (h rfl) (not_unchanged_cancelreq ?_ (by simp [State.setTcb])),
        fun h => absurd (hfits.mpr h) hc⟩
      simpa [State.detach, State.setTcb] using hreq

/-- A failed call leaves the thread as it was: always for `pth_suspend`, and just under these
conditions for the others. -/
theorem failed_control_iff (s : State D T) (d : D) (t : T) :
    Failing t s (s.pthSuspend d t) ∧ (Failing t s (s.pthResume d t) ↔ ResumeFits s d t) ∧
      (Refusing t s (s.pthCancel d t) ↔ CancelFits s d t) ∧
      (Refusing t s (s.pthAbort d t) ↔ AbortFits s d t) :=
  ⟨suspend_failing, resume_failing_iff, cancel_refusing_iff, abort_refusing_iff⟩

/-- After a `pth_spawn` of a suspended thread with asynchronous cancellation. -/
def spawned : State Unit Bool where
  heap := pqueueAppendNode initHeap .pthSQ true
  tcb _ := ⟨.new, false, true, true, true, 0, none, false⟩
  threads := [true, false]
  natives := [()]
  isBounded _ := false
  current _ := some false
  sched _ := none

/-- `pth_cancel` of it fails and leaves the request behind. -/
theorem failed_cancel_leaves_request :
    (spawned.pthCancel () true).2 = false ∧
      ((spawned.pthCancel () true).1.tcb true).cancelreq = true ∧
      ¬ Refusing true spawned (spawned.pthCancel () true) := by
  have hr : (spawned.pthCancel () true).2 = false ∧
      ((spawned.pthCancel () true).1.tcb true).cancelreq = true := by
    decide
  exact ⟨hr.1, hr.2, fun h => not_unchanged_cancelreq rfl hr.2 (h hr.1)⟩

end Ngpt.Sched.Control
