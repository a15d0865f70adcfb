import Ngpt.Lib.Transition
import Ngpt.Sched.Fork

/-!
# ngpt — the global list of threads (`pth_threads_queue`)

First the loops that walk the list, which share their termination test: `list_node_is_tail`
holds of the last thread, so that no loop gets to it. Then the list and `pth_threads_count`
over a run. Threads enter and leave the two under `pth_native_lock`; a native thread that
fails to start frees the threads in its ready queue and takes them off the count only.

Results: `walks_complete_iff`, `count_and_list_agree`.
-/

namespace Ngpt.Sched.ThreadList

open LinkedRing Transition Function

/-- The list nodes: the head of the list, and `thread_queue` of a thread. -/
inductive Node (T : Type) where
  | queue
  | thread (t : T)
  deriving DecidableEq, Repr

variable {T : Type}

/-! ## Walks -/

/-- The threads up to the first one that is refused. -/
def untilNull (ok : T → Bool) : List T → List T
  | [] => []
  | t :: ts => if ok t then t :: untilNull ok ts else [t]

/-- What a body may do: drop its thread from the list, or leave it there. -/
def Edits (body : Links (Node T) → T → Links (Node T) × Bool) : Prop :=
  ∀ l t (xs ys : List T), IsRing l .queue ((xs ++ t :: ys).map .thread) →
    ∃ xs', IsRing (body l t).1 .queue ((xs' ++ ys).map .thread)

theorem edits_keep (ok : T → Bool) : Edits fun l t => (l, ok t) :=
  fun _ t xs _ hr => ⟨xs ++ [t], by simpa using hr⟩

theorem untilNull_true (ts : List T) : untilNull (fun _ => true) ts = ts := by
  induction ts with
  | nil => rfl
  | cons t ts ih => simp [untilNull, ih]

theorem untilNull_dropLast_iff (ok : T → Bool) (ts : List T) :
    untilNull ok ts.dropLast = untilNull ok ts ↔ ts = [] ∨ ∃ t ∈ ts.dropLast, ok t = false := by
  induction ts with
  | nil => simp
  | cons t ts ih =>
    cases ts with
    | nil => cases hok : ok t <;> simp [untilNull, hok]
    | cons t' ts =>
      rw [List.dropLast_cons_cons]
      cases hok : ok t <;> simp_all [untilNull]

variable [DecidableEq T]

def listNodeIsTail (l : Links (Node T)) (n f : Node T) : Bool := l.next n = f

/-- The loops over the list: the threads that the body is run for. The body may edit the
list, and says whether the loop goes on; the next node is read before. -/
def walk (body : Links (Node T) → T → Links (Node T) × Bool) :
    Nat → Links (Node T) → Node T → Option (List T)
  | 0, _, _ => none
  | fuel + 1, l, lnode =>
    if listNodeIsTail l lnode .queue then some []
    else match lnode with
      | .queue => none
      | .thread t =>
        if (body l t).2 then (walk body fuel (body l t).1 (l.next lnode)).map (t :: ·)
        else some [t]

/-- `pth_scheduler_drop`: the threads it frees. `pth_tcb_free` takes them off the list. -/
def pthSchedulerDrop (current : T) (fuel : Nat) (l : Links (Node T)) : Option (List T) :=
  (walk (fun l t => (if t ≠ current then l.unlink (l.prev (.thread t)) (l.next (.thread t)) else l,
    true)) fuel l (l.next .queue)).map (·.filter (· ≠ current))

/-- The loop of `pth_fork_drop_threads`: `pth_fork_tcb_free` leaves the list as it is. -/
def pthForkDropThreads (current : T) (fuel : Nat) (l : Links (Node T)) : Option (List T) :=
  (walk (fun l _ => (l, true)) fuel l (l.next .queue)).map (·.filter (· ≠ current))

/-- `__td_sync_handles`: the threads passed to `td_add_handle`, which returns NULL where `ok`
does not hold. -/
def tdSyncHandles (ok : T → Bool) (fuel : Nat) (l : Links (Node T)) : Option (List T) :=
  walk (fun l t => (l, ok t)) fuel l (l.next .queue)

variable {l : Links (Node T)} {xs ts : List T} {current : T}

theorem edits_drop (current : T) : Edits fun l t =>
    (if t ≠ current then l.unlink (l.prev (.thread t)) (l.next (.thread t)) else l, true) := by
  intro l t xs ys hr
  by_cases ht : t = current
  · exact ⟨xs ++ [t], by simpa [ht] using hr⟩
  · refine ⟨xs, ?_⟩
    rw [List.map_append, List.map_cons] at hr
    simpa [ht] using hr.unlink

theorem walk_from {body : Links (Node T) → T → Links (Node T) × Bool} {ok : T → Bool}
    (hbody : Edits body) (hok : ∀ l t, (body l t).2 = ok t) {t : T} {fuel : Nat}
    (hr : IsRing l .queue ((xs ++ t :: ts).map .thread)) (hfuel : (t :: ts).length ≤ fuel) :
    walk body fuel l (.thread t) = some (untilNull ok (t :: ts).dropLast) := by
  -- the walk goes down the list; what is behind it may have been dropped
  induction ts generalizing t l xs fuel with
  | nil =>
    cases fuel with
    | zero => simp at hfuel
    | succ fuel =>
      rw [List.map_append] at hr
      have hnext : l.next (.thread t) = .queue := hr.next_mid
      simp [walk, listNodeIsTail, hnext, untilNull]
  | cons t' ts ih =>
    cases fuel with
    | zero => simp at hfuel
    | succ fuel =>
      obtain ⟨xs', hr'⟩ := hbody l t xs (t' :: ts) hr
      rw [List.map_append] at hr
      have hnext : l.next (.thread t) = .thread t' := hr.next_mid
      have hrest := ih hr' (Nat.le_of_succ_le_succ hfuel)
      simp only [walk, listNodeIsTail, hnext, hok, hrest, List.dropLast_cons_cons, untilNull]
      cases ok t <;> simp

theorem walk_eq {body : Links (Node T) → T → Links (Node T) × Bool} {ok : T → Bool}
    (hbody : Edits body) (hok : ∀ l t, (body l t).2 = ok t) {fuel : Nat}
    (hr : IsRing l .queue (ts.map .thread)) (hfuel : ts.length < fuel) :
    walk body fuel l (l.next .queue) = some (untilNull ok ts.dropLast) := by
  cases ts with
  | nil =>
    obtain ⟨fuel, rfl⟩ := Nat.exists_eq_succ_of_ne_zero (Nat.ne_of_gt hfuel)
    simp [walk, listNodeIsTail, (IsRing.empty_iff.mp hr).1, untilNull]
  | cons t ts =>
    rw [IsRing.next_head_cons (by simpa using hr)]
    have hr' : IsRing l .queue (([] ++ t :: ts).map .thread) := hr
    exact walk_from hbody hok hr' hfuel.le

theorem filter_dropLast_iff (current : T) (ts : List T) :
    ts.dropLast.filter (· ≠ current) = ts.filter (· ≠ current) ↔
      ∀ t ∈ ts.getLast?, t = current := by
  rcases List.eq_nil_or_concat ts with rfl | ⟨xs, x, rfl⟩
  · simp
  · by_cases hx : x = current <;> simp [hx]

/-- **Walks of the list.** A drop is complete if the last thread is the one to keep, and the
handles are if there is no thread, or one before the last is refused. -/
theorem walks_complete_iff (l : Links (Node T)) (ts : List T)
    (hr : IsRing l .queue (ts.map .thread)) (current : T) (ok : T → Bool) (fuel : Nat)
    (hfuel : ts.length < fuel) :
    (pthSchedulerDrop current fuel l = some (ts.filter (· ≠ current)) ↔
      ∀ t ∈ ts.getLast?, t = current) ∧
    (pthForkDropThreads current fuel l = some (ts.filter (· ≠ current)) ↔
      ∀ t ∈ ts.getLast?, t = current) ∧
    (tdSyncHandles ok fuel l = some (untilNull ok ts) ↔
      ts = [] ∨ ∃ t ∈ ts.dropLast, ok t = false) := by
  rw [pthSchedulerDrop, pthForkDropThreads, tdSyncHandles,
    walk_eq (edits_drop current) (fun _ _ => rfl) hr hfuel,
    walk_eq (edits_keep fun _ => true) (fun _ _ => rfl) hr hfuel,
    walk_eq (edits_keep ok) (fun _ _ => rfl) hr hfuel]
  simp only [Option.map_some, Option.some.injEq, untilNull_true]
  exact ⟨filter_dropLast_iff current ts, filter_dropLast_iff current ts,
    untilNull_dropLast_iff ok ts⟩

theorem pthForkDropThreads_freed (hr : IsRing l .queue (ts.map .thread)) :
    pthForkDropThreads current (ts.length + 1) l = some (Fork.freedThreads current ts) := by
  rw [pthForkDropThreads, walk_eq (edits_keep fun _ => true) (fun _ _ => rfl) hr (by omega),
    untilNull_true, Option.map_some, Option.some.injEq]
  clear hr
  induction ts with
  | nil => rfl
  | cons t ts ih =>
    cases ts with
    | nil => rfl
    | cons t' ts => simp [Fork.freedThreads, List.filter_cons, ← ih]

/-- Two threads on the list, in this order. -/
def two : Links (Node Bool) where
  next | .queue => .thread true | .thread true => .thread false | .thread false => .queue
  prev | .queue => .thread false | .thread true => .queue | .thread false => .thread true

theorem two_ring : IsRing two .queue ([true, false].map .thread) := by
  refine ⟨?_, by decide⟩
  simp [Links.Linked, two]

theorem walks_complete_iff_last :
    pthSchedulerDrop false 3 two = some [true] ∧
      tdSyncHandles (fun _ => false) 3 two = some [true] := by
  obtain ⟨hdrop, -, htd⟩ := walks_complete_iff two [true, false] two_ring false (fun _ => false) 3
    (by decide)
  exact ⟨hdrop.mpr (by decide), htd.mpr (by decide)⟩

/-- The current thread is the first one: the other one is neither freed nor handled. -/
theorem last_thread_missed :
    pthSchedulerDrop true 3 two = some [] ∧ pthForkDropThreads true 3 two = some [] ∧
      tdSyncHandles (fun _ => true) 3 two = some [true] := by
  decide

/-! ## The count -/

variable {D : Type}

/-- How far a control block has got: `pth_spawn_cb` has allocated it, it is on the list, or
`pth_tcb_free` has taken it off. -/
inductive Phase where
  | free | made | listed | unlinked
  deriving DecidableEq, Repr

/-- `pth_threads_queue` as a list, `pth_threads_count`, the control blocks, and the ready queues
of the native threads. -/
structure State (T D : Type) where
  queue : List T
  count : Int
  phase : T → Phase
  ready : D → List T

inductive Action (T D : Type) where
  /-- `pth_spawn_cb`: the block, and its place on the list -/
  | alloc (t : T)
  | add (t : T)
  /-- `pth_tcb_free`: off the list -/
  | remove (t : T)
  /-- the block is freed: by `pth_tcb_free` then, and before it is listed if the spawn fails or
  the block is a scheduler's -/
  | release (t : T)
  /-- a thread goes to a native's ready queue, or leaves it -/
  | append (t : T) (d : D)
  | delete (t : T) (d : D)
  /-- `pth_new_scheduler` when the process exits or `pipe` fails -/
  | startFails (d : D)
  deriving DecidableEq

namespace State

variable [DecidableEq D]

/-- The control block is allocated. -/
def live (s : State T D) (t : T) : Bool := s.phase t ≠ .free

/-- The loop over the ready queue of a native that does not start. -/
def dropReady (s : State T D) : List T → State T D
  | [] => s
  | t :: ts => { s with count := s.count - 1, phase := update s.phase t .free }.dropReady ts

def step (s : State T D) : Action T D → Option (State T D)
  | .alloc t => if s.phase t = .free then some { s with phase := update s.phase t .made } else none
  | .add t =>
    if s.phase t = .made then
      some { s with
        queue := t :: s.queue, count := s.count + 1, phase := update s.phase t .listed }
    else none
  | .remove t =>
    if s.phase t = .listed then
      some { s with
        queue := s.queue.erase t, count := s.count - 1, phase := update s.phase t .unlinked }
    else none
  | .release t =>
    if s.phase t = .made ∨ s.phase t = .unlinked then
      some { s with phase := update s.phase t .free }
    else none
  | .append t d => some { s with ready := update s.ready d (s.ready d ++ [t]) }
  | .delete t d => some { s with ready := update s.ready d ((s.ready d).erase t) }
  | .startFails d => some { s.dropReady (s.ready d) with ready := update s.ready d [] }

/-- The count is the length of the list, and the list has no block that has been freed. -/
structure Agree (s : State T D) : Prop where
  count : s.count = s.queue.length
  live  : ∀ t ∈ s.queue, s.live t = true

end State

/-- Before the first spawn. -/
def Initial (s : State T D) : Prop :=
  s.queue = [] ∧ s.count = 0 ∧ ∀ t, s.phase t ≠ .listed

/-- No native fails to start while its ready queue has a thread. -/
def Starts (s : State T D) : Action T D → Prop
  | .startFails d => s.ready d = []
  | _ => True

instance (s : State T D) (a : Action T D) : Decidable (Starts s a) := by
  rcases a <;> dsimp only [Starts] <;> infer_instance

/-- The list has the blocks that have been put there and not taken off, each of them once. -/
structure Inv (s : State T D) : Prop where
  count : s.count = s.queue.length
  nodup : s.queue.Nodup
  mem   : ∀ t, t ∈ s.queue ↔ s.phase t = .listed

variable {s s' : State T D} {a : Action T D}

/-- A block off the list goes on to a phase off the list. -/
theorem Inv.setPhase (h : Inv s) {t : T} {x : Phase} (ht : s.phase t ≠ .listed)
    (hx : x ≠ .listed) : Inv { s with phase := update s.phase t x } := by
  refine ⟨h.count, h.nodup, fun u => ?_⟩
  by_cases hut : u = t
  · subst hut
    simp [h.mem, ht, hx]
  · simp [h.mem, hut]

variable [DecidableEq D]

theorem Inv.step (h : Inv s) (hok : Starts s a) (hs : s.step a = some s') : Inv s' := by
  cases a with
  | alloc t =>
    obtain ⟨hfree, ⟨⟩⟩ := Option.ite_none_right_eq_some.mp hs
    exact h.setPhase (by simp [hfree]) (by simp)
  | add t =>
    obtain ⟨hmade, ⟨⟩⟩ := Option.ite_none_right_eq_some.mp hs
    have hnew : t ∉ s.queue := by simp [h.mem, hmade]
    refine ⟨by simp [h.count], List.nodup_cons.mpr ⟨hnew, h.nodup⟩, fun u => ?_⟩
    by_cases hut : u = t <;> simp [hut, h.mem]
  | remove t =>
    obtain ⟨hlisted, ⟨⟩⟩ := Option.ite_none_right_eq_some.mp hs
    have ht : t ∈ s.queue := (h.mem t).mpr hlisted
    have hpos := List.length_pos_of_mem ht
    refine ⟨?_, h.nodup.erase t, fun u => ?_⟩
    · simp only [h.count, List.length_erase_of_mem ht]
      omega
    · by_cases hut : u = t <;> simp [hut, h.nodup.mem_erase_iff, h.mem]
  | release t =>
    obtain ⟨hoff, ⟨⟩⟩ := Option.ite_none_right_eq_some.mp hs
    exact h.setPhase (by rcases hoff with hoff | hoff <;> simp [hoff]) (by simp)
  | append | delete =>
    cases hs
    exact ⟨h.count, h.nodup, h.mem⟩
  | startFails d =>
    simp only [State.step, show s.ready d = [] from hok] at hs
    cases hs
    exact ⟨h.count, h.nodup, h.mem⟩

/-- **The count and the list** agree in every run in which no native fails to start with a
thread in its ready queue. -/
theorem count_and_list_agree (s : State T D)
    (h : Reachable State.step Starts (Initial (T := T) (D := D)) s) : s.Agree := by
  have hI : Inv s := by
    refine h.invariant (fun s ⟨hqueue, hcount, hphase⟩ => ?_) fun _ _ _ hI hok hs => hI.step hok hs
    exact ⟨by simp [hqueue, hcount], by simp [hqueue], fun t => by simp [hqueue, hphase t]⟩
  exact ⟨hI.count, fun t ht => by simp [State.live, (hI.mem t).mp ht]⟩

def emptyState : State Nat Nat := ⟨[], 0, fun _ => .free, fun _ => []⟩

/-- Two threads are spawned, a native without threads fails, and a thread is freed. -/
def spawns : List (Action Nat Nat) :=
  [.alloc 0, .add 0, .alloc 1, .add 1, .startFails 7, .remove 0, .release 0]

theorem count_and_list_agree_spawns :
    (runOk State.step Starts emptyState spawns).map (·.queue) = some [1] ∧
      ∀ s, runOk State.step Starts emptyState spawns = some s → s.Agree :=
  ⟨by decide, fun s hs =>
    count_and_list_agree s (reachable_of_runOk (.init ⟨rfl, rfl, by simp [emptyState]⟩) hs)⟩

/-- The native of a bound thread does not start: the list keeps the freed block. -/
theorem start_failure_leaves_thread :
    (run State.step emptyState [.alloc 0, .add 0, .append 0 7, .startFails 7]).map
      (fun s => (s.queue, s.count, s.live 0)) = some ([0], 0, false) := by
  decide

end Ngpt.Sched.ThreadList
