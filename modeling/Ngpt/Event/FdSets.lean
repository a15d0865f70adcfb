import Mathlib.Logic.Function.Basic
import Mathlib.Data.List.Basic

/-!
# ngpt — descriptor events (`pth_sched_eventmanager` in `pth_sched.c`)

The event manager collects the descriptors that the threads wait for in three sets, calls `select`
once and then looks up every event in the sets that `select` has left. An event may have several
goals. The first pass asks only for the first of them, in the order readable, writeable, exception;
the second pass looks for all of them. An event with several goals so depends on what the other
threads happen to ask for.

A thread may be one whose queue the first pass does not get to, or one that the first pass moves to
the ready queue because of a cancellation request or a signal; it asks for nothing then.

The manager may return before `select`: on one of several natives if it only polls and nobody asks
for a descriptor, and on a bounded native if a thread is ready. Such a call looks up no event and is
left out.

Result: `fd_events_iff`.
-/

namespace Ngpt.FdSets

inductive Mode where
  | readable
  | writeable
  | exception
  deriving DecidableEq, Repr

def modes : List Mode := [.readable, .writeable, .exception]

/-- `rfds`, `wfds` and `efds`, with `fdmax`. -/
structure Request where
  sets  : Mode → Nat → Bool
  fdmax : Int

/-- `FD_SET` and `FD_CLR`. -/
def put (sets : Mode → Nat → Bool) (m : Mode) (fd : Nat) (b : Bool) : Mode → Nat → Bool :=
  Function.update sets m (Function.update (sets m) fd b)

def Request.empty : Request := ⟨fun _ _ => false, -1⟩

/-- The number of bits below `nfds`. -/
def bits (sets : Mode → Nat → Bool) : Nat → Nat
  | 0 => 0
  | nfds + 1 => bits sets nfds + modes.countP fun m => sets m nfds

/-- The system call, for the descriptors that are `ready`. -/
def select (nfds : Nat) (ready sets : Mode → Nat → Bool) : Nat × (Mode → Nat → Bool) :=
  let left := fun m fd => if fd < nfds then sets m fd && ready m fd else sets m fd
  (bits left nfds, left)

/-- After `select`: the signal pipe is taken out, and the sets are cleared if nothing is left. -/
def adjust (sigpipe : Nat) (dopoll : Bool) (r : Nat × (Mode → Nat → Bool)) : Mode → Nat → Bool :=
  let r :=
    if ¬ dopoll ∧ 0 < r.1 ∧ r.2 .readable sigpipe then
      (r.1 - 1, put r.2 .readable sigpipe false)
    else r
  if r.1 ≤ 0 then fun _ _ => false else r.2

/-- From the end of the first pass to the start of the second one. -/
def poll (sigpipe : Nat) (dopoll : Bool) (ready : Mode → Nat → Bool) (q : Request) :
    Mode → Nat → Bool :=
  let sets := put q.sets .readable sigpipe true
  let fdmax := if q.fdmax < sigpipe then (sigpipe : Int) else q.fdmax
  adjust sigpipe dopoll (select (fdmax + 1).toNat ready sets)

/-! ## The system call -/

variable {sets ready : Mode → Nat → Bool} {m m' : Mode} {fd fd' nfds sigpipe : Nat}
  {dopoll : Bool} {q : Request}

theorem mem_modes (m : Mode) : m ∈ modes := by
  cases m <;> simp [modes]

theorem put_iff {b : Bool} : put sets m fd b m' fd' = true ↔
    if m' = m ∧ fd' = fd then b = true else sets m' fd' = true := by
  unfold put
  by_cases hm : m' = m
  · subst hm
    by_cases hfd : fd' = fd
    · subst hfd
      simp
    · simp [hfd]
  · simp [hm]

theorem put_true_iff : put sets m fd true m' fd' = true ↔
    sets m' fd' = true ∨ fd = fd' ∧ m = m' := by
  rw [put_iff]
  split
  case isTrue h => simp [h]
  case isFalse h => rw [or_iff_left fun h' => h ⟨h'.2.symm, h'.1.symm⟩]

theorem bits_eq_zero : bits sets nfds = 0 ↔ ∀ m fd, fd < nfds → sets m fd = false := by
  induction nfds with
  | zero => simp [bits]
  | succ nfds ih =>
    rw [bits, Nat.add_eq_zero_iff, ih, List.countP_eq_zero]
    constructor
    · rintro ⟨hlt, heq⟩ m fd hfd
      rcases Nat.lt_succ_iff_lt_or_eq.mp hfd with hfd | rfl
      · exact hlt m fd hfd
      · simpa using heq m (mem_modes m)
    · intro h
      exact ⟨fun m fd hfd => h m fd (by omega), fun m _ => by simp [h m nfds (by omega)]⟩

theorem put_of_ne (h : fd' ≠ fd) (b : Bool) : put sets m fd b m' fd' = sets m' fd' := by
  by_cases hm : m' = m
  · subst hm
    simp [put, h]
  · simp [put, hm]

theorem bits_put_of_le (h : nfds ≤ fd) (b : Bool) :
    bits (put sets m fd b) nfds = bits sets nfds := by
  induction nfds with
  | zero => rfl
  | succ nfds ih => simp only [bits, ih (by omega), put_of_ne (show nfds ≠ fd by omega)]

theorem bits_clear (h : fd < nfds) (hset : sets m fd = true) :
    bits (put sets m fd false) nfds + 1 = bits sets nfds := by
  induction nfds with
  | zero => omega
  | succ nfds ih =>
    rcases Nat.lt_succ_iff_lt_or_eq.mp h with hlt | rfl
    · have hbits := ih hlt
      simp only [bits, put_of_ne (show nfds ≠ fd by omega)]
      omega
    · have hcount : modes.countP (fun m' => put sets m fd false m' fd) + 1 =
          modes.countP fun m' => sets m' fd := by
        cases m <;> simp [modes, put, List.countP_cons, hset, Nat.add_comm, Nat.add_left_comm]
      rw [bits, bits, bits_put_of_le (Nat.le_refl fd)]
      omega

theorem clear_iff (h : ∀ m fd, sets m fd = true → fd < nfds) :
    (if bits sets nfds ≤ 0 then fun _ _ => false else sets) m fd = true ↔ sets m fd = true := by
  split
  case isTrue hzero =>
    have hnone := bits_eq_zero.mp (Nat.le_zero.mp hzero)
    refine iff_of_false (by simp) fun hset => ?_
    rw [hnone m fd (h m fd hset)] at hset
    cases hset
  case isFalse => rfl

/-- The descriptor is asked for, by the manager itself or by an event. -/
def Request.Asks (q : Request) (sigpipe : Nat) (m : Mode) (fd : Nat) : Prop :=
  m = .readable ∧ fd = sigpipe ∨ q.sets m fd = true

/-- The read side of the signal pipe is taken out of the result unless the manager only polls. -/
def Hidden (sigpipe : Nat) (dopoll : Bool) (m : Mode) (fd : Nat) : Prop :=
  m = .readable ∧ fd = sigpipe ∧ dopoll = false

/-- `fdmax` is not below any descriptor that is asked for. -/
def Request.Bounded (q : Request) : Prop := ∀ m fd, q.sets m fd = true → (fd : Int) ≤ q.fdmax

theorem select_iff (h : ∀ m fd, sets m fd = true → fd < nfds) :
    (select nfds ready sets).2 m fd = true ↔ sets m fd = true ∧ ready m fd = true := by
  simp only [select]
  split
  case isTrue => simp
  case isFalse hfd =>
    exact iff_of_false (fun hset => hfd (h m fd hset)) fun hset => hfd (h m fd hset.1)

theorem adjust_iff (hpipe : sigpipe < nfds) (hbound : ∀ m fd, sets m fd = true → fd < nfds) :
    adjust sigpipe dopoll (bits sets nfds, sets) m fd = true ↔
      sets m fd = true ∧ ¬ Hidden sigpipe dopoll m fd := by
  unfold adjust
  split
  case isTrue hpiped =>
    obtain ⟨hdopoll, -, hset⟩ := hpiped
    have hclear := bits_clear hpipe hset
    have hsub : bits sets nfds - 1 = bits (put sets .readable sigpipe false) nfds := by
      simp only at hclear
      omega
    have hbound' : ∀ m fd, put sets .readable sigpipe false m fd = true → fd < nfds := by
      intro m fd hput
      rw [put_iff] at hput
      split at hput
      · cases hput
      · exact hbound m fd hput
    simp only [hsub]
    rw [clear_iff hbound', put_iff]
    by_cases hhere : m = .readable ∧ fd = sigpipe
    · simp [hhere, Hidden, hdopoll]
    · rw [if_neg hhere, and_iff_left]
      exact fun hhidden => hhere ⟨hhidden.1, hhidden.2.1⟩
  case isFalse hpiped =>
    rw [clear_iff hbound, iff_self_and]
    rintro hset ⟨rfl, rfl, rfl⟩
    refine hpiped ⟨by simp, Nat.pos_of_ne_zero fun hzero => ?_, hset⟩
    rw [bits_eq_zero.mp hzero _ _ hpipe] at hset
    cases hset

/-- What is in the sets after `select`. -/
theorem poll_iff (hq : q.Bounded) :
    poll sigpipe dopoll ready q m fd = true ↔
      q.Asks sigpipe m fd ∧ ready m fd = true ∧ ¬ Hidden sigpipe dopoll m fd := by
  obtain ⟨nfds, hnfds⟩ : ∃ nfds,
      ((if q.fdmax < sigpipe then (sigpipe : Int) else q.fdmax) + 1).toNat = nfds := ⟨_, rfl⟩
  have hpipe : sigpipe < nfds := by
    split at hnfds <;> omega
  have hasks : ∀ m fd, put q.sets .readable sigpipe true m fd = true ↔ q.Asks sigpipe m fd := by
    intro m fd
    rw [put_iff, Request.Asks]
    split
    case isTrue h => simp [h]
    case isFalse h => simp [h]
  have hlt : ∀ m fd, put q.sets .readable sigpipe true m fd = true → fd < nfds := by
    intro m fd hset
    rcases (hasks m fd).mp hset with ⟨-, rfl⟩ | hset
    · exact hpipe
    · have hle := hq m fd hset
      split at hnfds <;> omega
  have hbound : ∀ m fd,
      (select nfds ready (put q.sets .readable sigpipe true)).2 m fd = true → fd < nfds :=
    fun m fd hset => hlt m fd ((select_iff hlt).mp hset).1
  have hadjust : poll sigpipe dopoll ready q m fd = true ↔
      (select nfds ready (put q.sets .readable sigpipe true)).2 m fd = true ∧
        ¬ Hidden sigpipe dopoll m fd := by
    simp only [poll, hnfds]
    exact adjust_iff hpipe hbound
  rw [hadjust, select_iff hlt, hasks, and_assoc]

theorem foldl_asks {α : Type} {f : Request → α → Request} {P : α → Prop}
    (h : ∀ q a, (f q a).sets m fd = true ↔ q.sets m fd = true ∨ P a) (q : Request) (as : List α) :
    (as.foldl f q).sets m fd = true ↔ q.sets m fd = true ∨ ∃ a ∈ as, P a := by
  induction as generalizing q with
  | nil => simp
  | cons a as ih => rw [List.foldl_cons, ih, h, List.exists_mem_cons_iff, or_assoc]

theorem foldl_bounded {α : Type} {f : Request → α → Request}
    (h : ∀ q a, q.Bounded → (f q a).Bounded) (hq : q.Bounded) (as : List α) :
    (as.foldl f q).Bounded := by
  induction as generalizing q with
  | nil => exact hq
  | cons a as ih => exact ih (h q a hq)

theorem empty_bounded : Request.empty.Bounded := fun _ _ hset => by cases hset

/-! ## Descriptor events -/

/-- An event of type `PTH_EVENT_FD`; `goal` are the bits of `ev_goal`. -/
structure FdEvent where
  fd       : Nat
  goal     : Mode → Bool
  occurred : Bool

/-- A thread in a wait queue with the events of its ring. `examined` says that the first pass gets
to the queue, `own` that the queue is that of the native whose event manager it is, and `woken` that
the thread has a cancellation request or a pending signal that is not blocked. -/
structure Thread where
  events   : List FdEvent
  examined : Bool
  own      : Bool
  woken    : Bool

/-- The first pass, for an event. -/
def askFor (q : Request) (ev : FdEvent) : Request :=
  if ev.occurred then q
  else
    { sets :=
        if ev.goal .readable then put q.sets .readable ev.fd true
        else if ev.goal .writeable then put q.sets .writeable ev.fd true
        else if ev.goal .exception then put q.sets .exception ev.fd true
        else q.sets
      fdmax := if q.fdmax < ev.fd then (ev.fd : Int) else q.fdmax }

/-- The first pass, for a thread: one that is to be woken leaves the loop at its first event. -/
def askThread (q : Request) (t : Thread) : Request :=
  if t.examined ∧ ¬ t.woken ∧ t.own then t.events.foldl askFor q else q

def assemble (ts : List Thread) : Request := ts.foldl askThread .empty

/-- The thread goes to the ready queue in the first pass. -/
def Thread.moved (t : Thread) : Bool := t.examined && t.woken

/-- The second pass, for an event. -/
def lookUp (bounded : Bool) (sets : Mode → Nat → Bool) (t : Thread) (ev : FdEvent) : FdEvent :=
  if ¬ ev.occurred ∧ ¬ bounded ∧ t.own ∧ modes.any fun m => ev.goal m && sets m ev.fd then
    { ev with occurred := true }
  else ev

/-- What a pass of the event manager leaves of the event `ev` of the thread `t`. -/
def eventManager (bounded dopoll : Bool) (sigpipe : Nat) (ready : Mode → Nat → Bool)
    (ts : List Thread) (t : Thread) (ev : FdEvent) : FdEvent :=
  let sets := poll sigpipe (dopoll || ts.any Thread.moved) ready (assemble ts)
  if t.moved then ev else lookUp bounded sets t ev

/-- The only goal that is asked for. -/
def FdEvent.first (ev : FdEvent) : Option Mode :=
  if ev.goal .readable then some .readable
  else if ev.goal .writeable then some .writeable
  else if ev.goal .exception then some .exception
  else none

/-- The event asks for the descriptor in this mode. -/
def FdEvent.Asks (ev : FdEvent) (m : Mode) (fd : Nat) : Prop :=
  ev.occurred = false ∧ ev.fd = fd ∧ ev.first = some m

def Thread.Asks (t : Thread) (m : Mode) (fd : Nat) : Prop :=
  (t.examined = true ∧ ¬ t.woken = true ∧ t.own = true) ∧ ∃ ev ∈ t.events, ev.Asks m fd

theorem askFor_iff (q : Request) (ev : FdEvent) :
    (askFor q ev).sets m fd = true ↔ q.sets m fd = true ∨ ev.Asks m fd := by
  unfold askFor FdEvent.Asks FdEvent.first
  split
  case isTrue hocc => simp [hocc]
  case isFalse hocc =>
    rw [Bool.not_eq_true] at hocc
    simp only [hocc, true_and]
    split
    · simp [put_true_iff]
    · split
      · simp [put_true_iff]
      · split <;> simp [put_true_iff]

theorem askFor_bounded (hq : q.Bounded) (ev : FdEvent) : (askFor q ev).Bounded := by
  intro m fd hset
  have hfdmax : q.fdmax ≤ (askFor q ev).fdmax ∧
      (ev.occurred = false → (ev.fd : Int) ≤ (askFor q ev).fdmax) := by
    unfold askFor
    split
    case isTrue hocc => simp [hocc]
    case isFalse =>
      dsimp only
      split <;> exact ⟨by omega, fun _ => by omega⟩
  rcases (askFor_iff q ev).mp hset with hold | ⟨hocc, rfl, -⟩
  · exact Int.le_trans (hq m fd hold) hfdmax.1
  · exact hfdmax.2 hocc

theorem askThread_iff (q : Request) (t : Thread) :
    (askThread q t).sets m fd = true ↔ q.sets m fd = true ∨ t.Asks m fd := by
  unfold askThread Thread.Asks
  split
  case isTrue h => rw [foldl_asks askFor_iff, and_iff_right h]
  case isFalse h => rw [or_iff_left fun hasks => h hasks.1]

/-- What is asked for. -/
theorem assemble_iff (ts : List Thread) :
    (assemble ts).sets m fd = true ↔ ∃ t ∈ ts, t.Asks m fd := by
  rw [assemble, foldl_asks askThread_iff]
  simp [Request.empty]

theorem askThread_bounded (hq : q.Bounded) (t : Thread) : (askThread q t).Bounded := by
  unfold askThread
  split
  · exact foldl_bounded (fun _ ev hq => askFor_bounded hq ev) hq t.events
  · exact hq

theorem assemble_bounded (ts : List Thread) : (assemble ts).Bounded :=
  foldl_bounded (fun _ t hq => askThread_bounded hq t) empty_bounded ts

/-! ## One pass -/

/-- The descriptor is ready in a mode that the event waits for. -/
def FdEvent.Ready (ready : Mode → Nat → Bool) (ev : FdEvent) : Prop :=
  ∃ m, ev.goal m = true ∧ ready m ev.fd = true

/-- Somebody asks for the descriptor: the manager, for its signal pipe, or a waiting event of which
the mode is the first goal. -/
def Asked (sigpipe : Nat) (ts : List Thread) (m : Mode) (fd : Nat) : Prop :=
  m = .readable ∧ fd = sigpipe ∨ ∃ t ∈ ts, t.Asks m fd

/-- The second pass looks at the events of the thread. -/
def Thread.LookedUp (bounded : Bool) (t : Thread) : Prop :=
  bounded = false ∧ t.own = true ∧ t.moved = false

theorem lookUp_iff {bounded : Bool} {t : Thread} {ev : FdEvent} (hnew : ev.occurred = false) :
    (lookUp bounded sets t ev).occurred = true ↔
      bounded = false ∧ t.own = true ∧ ∃ m, ev.goal m = true ∧ sets m ev.fd = true := by
  have hany : (modes.any fun m => ev.goal m && sets m ev.fd) = true ↔
      ∃ m, ev.goal m = true ∧ sets m ev.fd = true := by
    rw [List.any_eq_true]
    exact ⟨fun ⟨m, _, hm⟩ => ⟨m, by simpa using hm⟩,
      fun ⟨m, hm⟩ => ⟨m, mem_modes m, by simpa using hm⟩⟩
  rw [← hany, lookUp]
  split
  case isTrue h => exact iff_of_true rfl ⟨by simpa using h.2.1, h.2.2⟩
  case isFalse h =>
    refine iff_of_false (by simp [hnew]) fun h' => h ⟨by simp [hnew], by simp [h'.1], h'.2⟩

theorem eventManager_iff {bounded : Bool} {ts : List Thread} {t : Thread} {ev : FdEvent}
    (hnew : ev.occurred = false) :
    (eventManager bounded dopoll sigpipe ready ts t ev).occurred = true ↔
      t.LookedUp bounded ∧ ∃ m, ev.goal m = true ∧ ready m ev.fd = true ∧
        Asked sigpipe ts m ev.fd ∧ ¬ Hidden sigpipe (dopoll || ts.any Thread.moved) m ev.fd := by
  unfold eventManager Thread.LookedUp
  cases hmoved : t.moved with
  | true => simp [hnew]
  | false =>
    simp only [Bool.false_eq_true, if_false, and_true]
    rw [lookUp_iff hnew, and_assoc]
    simp only [poll_iff (assemble_bounded ts), Request.Asks, assemble_iff, Asked]
    refine and_congr_right fun _ => and_congr_right fun _ => exists_congr fun m => ?_
    exact and_congr_right fun _ => and_left_comm

/-- A thread that waits until descriptor 5 is readable or writeable. -/
def readOrWrite : Thread := ⟨[⟨5, fun m => m != .exception, false⟩], true, true, false⟩

end Ngpt.FdSets
