import Mathlib.Data.Fintype.Basic
import Ngpt.Sched.InHand

/-!
# ngpt — the back reference of a waiting thread

`waited_native` of a thread is `ds` if and only if its node is linked in `ds->wait_queue`.
Every piece of the code is one of the kinds of steps that keep the invariant, as long as it
is `Orderly`.

Results: `back_reference`, `one_native_has_thread`.
-/

namespace Ngpt.Sched.Multi

open Function Ngpt.Queue Transition
open Ngpt.Sched.Single (PthState)

variable {D T : Type}

variable {first d ds : D} {s s' : State D T} {t u x cur : T} {q : QName D} {p p₀ : Pc D T}
  {a : Action D T} {v : View D T} {o : List (Op (QName D))} {lock : D → Option D}
  {r : Option (QName D)}

/-! ## The condition -/

theorem isWait_resumeQueue (hstate : (s.tcb t).state ≠ .waiting)
    (hq : s.resumeQueue d t = some q) : isWait q = false := by
  unfold State.resumeQueue at hq
  cases hst : (s.tcb t).state <;> rw [hst] at hq hstate
  case waiting => exact absurd rfl hstate
  all_goals split at hq <;> cases hq <;> first | rfl | (split <;> rfl)

variable [DecidableEq D] [DecidableEq T]

/-- The condition on the next piece of the code. No thread waits that the scheduler has just
moved to `pth_SQ`; a thread that is woken has a priority that the queues have; a hand-off finds
`waited_native` as it was when it was read, unless it is null now; `pth_suspend` and
`pth_resume` find the thread in the queue where it was found, and this is no wait queue but in
`pth_WQ_delete`; no thread is resumed while a scheduler still has it, nor if it waits. -/
def Pc.Orderly (s : State D T) : Pc D T → Prop
  | .parked t suspended => suspended = true → (s.tcb t).state ≠ .waiting
  | .woken _ t | .ready _ t => (s.tcb t).priority < prioTotal
  | .handoff _ tmp ds => s.waited tmp = none ∨ s.waited tmp = some ds
  | .remove _ t q => s.place t = some q ∧ feeds q = true
  | .wqLock _ t ds => s.place t = some (.waitQueue ds)
  | .resumeRemove _ t => s.place t = some .pthSQ ∧ ∀ d, s.pc d ≠ .parked t true
  | .resumeAppend _ t => (s.tcb t).state ≠ .waiting
  | _ => True

def Orderly (s : State D T) : Action D T → Prop
  | .go d => (s.pc d).Orderly s
  | _ => True

instance [Fintype D] (s : State D T) (pc : Pc D T) : Decidable (pc.Orderly s) := by
  cases pc <;> dsimp only [Pc.Orderly] <;> infer_instance

instance [Fintype D] (s : State D T) (a : Action D T) : Decidable (Orderly s a) := by
  rcases a <;> dsimp only [Orderly] <;> infer_instance

/-- The natives run different threads or none, nobody waits, and no lock is held. -/
structure Start (s : State D T) : Prop where
  heap    : s.heap.Ok
  place   : ∀ t ds, s.place t ≠ some (.waitQueue ds)
  waited  : ∀ t, s.waited t = none
  lock    : ∀ ds, s.lock ds = none
  pc      : ∀ d, s.pc d = .top ∨ ∃ t, s.pc d = .running t ∧ s.place t = none
  running : ∀ d e t, s.pc d = .running t → s.pc e = .running t → d = e

/-! ## The kinds of steps -/

/-- A thread that nobody has in hand is taken off its queue, to be moved. -/
theorem Inv.take {c : Option T} {l₀ l : Option D} (h : Inv v)
    (hnone : ∀ e, (v.pc e).expects x = none) (hpc : v.pc d = p₀) (hbefore : p₀.hand = (c, none, l₀))
    (hafter : p.hand = (c, some (x, none, v.waited x), l))
    (hlocks : Locks (update v.pc d p) lock) :
    Inv { v with heap := execs v.heap x [.delete], pc := update v.pc d p, lock := lock } := by
  simp only [Pc.hand, Prod.mk.injEq] at hbefore hafter
  have hc : c ≠ some x := by
    rintro rfl
    have hd := hnone d
    simp [hpc, Pc.expects, hbefore] at hd
  refine h.moveBy rfl (fun _ _ => rfl) hpc rfl (fun e _ => hnone e)
    (fun u hu => by simp [Pc.expects, hbefore, hafter, hu]) (Or.inl ?_) ?_ hlocks
  · simp only [execs_place h.heap]
    simp [Pc.expects, hafter, Op.moves]
  · simp [Two, hafter, hc]

/-- A thread in hand is put into a queue that is no wait queue, or given up. -/
theorem Inv.give (h : Inv v) (hpc : v.pc d = p₀) (hx : p₀.expects x = some (r, none))
    (hexp : ∀ u, u ≠ x → p.expects u = p₀.expects u) (hnone : p.expects x = none)
    (hops : ∀ q, o.foldl (fun at? op => op.moves at?) r = some q → isWait q = false)
    (hmoved : p.moved = none) (hlock : p.lockOf = p₀.lockOf) :
    Inv { v with heap := execs v.heap x o, pc := update v.pc d p } := by
  obtain ⟨hplace, hwaited, hfree⟩ := h.in_hand hpc hx
  refine h.moveBy rfl (fun _ _ => rfl) hpc rfl hfree hexp (Or.inr ⟨hnone, ?_⟩) ?_
    (h.locks.goto hpc hlock)
  · simp only [execs_place h.heap, hplace, hwaited]
    exact .elsewhere hops
  · simp [Two, hmoved]

theorem Inv.give_moved {c : Option T} {l : Option D} (h : Inv v) (hpc : v.pc d = p₀)
    (hbefore : p₀.hand = (c, some (x, r, none), l)) (hafter : p.hand = (c, none, l))
    (hops : ∀ q, o.foldl (fun at? op => op.moves at?) r = some q → isWait q = false) :
    Inv { v with heap := execs v.heap x o, pc := update v.pc d p } := by
  simp only [Pc.hand, Prod.mk.injEq] at hbefore hafter
  have htwo := h.two d x (r, none)
  rw [hpc, hbefore.1] at htwo
  exact h.give hpc (by simp [Pc.expects, hbefore])
    (fun u hu => by simp [Pc.expects, hbefore, hafter, hu])
    (by simp [Pc.expects, hafter, htwo hbefore.2.1]) hops hafter.2.1
    (hafter.2.2.trans hbefore.2.2.symm)

theorem Inv.give_cur (h : Inv v) (hpc : v.pc d = p₀) (hbefore : p₀.hand = (some x, none, none))
    (hafter : p.hand = (none, none, none))
    (hops : ∀ q, o.foldl (fun at? op => op.moves at?) none = some q → isWait q = false) :
    Inv { v with heap := execs v.heap x o, pc := update v.pc d p } := by
  simp only [Pc.hand, Prod.mk.injEq] at hbefore hafter
  exact h.give hpc (by simp [Pc.expects, hbefore])
    (fun u hu => by simp [Pc.expects, hbefore, hafter, Ne.symm hu]) (by simp [Pc.expects, hafter])
    hops hafter.2.1 (hafter.2.2.trans hbefore.2.2.symm)

theorem Inv.requeue {op : Op (QName D)} (h : Inv v) (hf : pqueueFirstNode v.heap q = some x)
    (hq : feeds q = true) (hop : op = .favor ∨ ∃ r, op = .prependSecond r ∧ r.isReady = true) :
    Inv { v with heap := execs v.heap x [.delete, op] } := by
  have hplace := h.heap.place_of_first hf
  obtain ⟨hnone, hwaited⟩ := h.loose_of_feeds hplace hq
  refine h.move rfl (fun _ _ => rfl) (fun _ _ _ => rfl) (Or.inr ⟨hnone, ?_⟩) h.two h.locks
  simp only [execs_place h.heap, hplace, hwaited]
  rcases hop with rfl | ⟨r, rfl, hr⟩
  · exact .elsewhere (by simp [Op.moves])
  · refine .elsewhere fun q hq => ?_
    cases hq
    exact (isWait_of_ready hr).1

theorem Inv.cleared {c : Option T} (h : Inv v) (hpc : v.pc d = p₀)
    (hbefore : p₀.hand = (c, some (x, none, some ds), some ds))
    (hafter : p.hand = (c, some (x, none, none), none)) :
    Inv { v with
      waited := update v.waited x none, pc := update v.pc d p, lock := update v.lock ds none } := by
  simp only [Pc.hand, Prod.mk.injEq] at hbefore hafter
  have hx : p₀.expects x = some (none, some ds) := by simp [Pc.expects, hbefore]
  obtain ⟨hplace, -, hfree⟩ := h.in_hand hpc hx
  refine h.moveBy (o := []) rfl (fun u hu => update_of_ne hu _ _) hpc rfl hfree (fun u hu => ?_)
    (Or.inl ?_) ?_ (h.locks.release hpc hbefore.2.2 hafter.2.2)
  · simp [Pc.expects, hbefore, hafter, hu]
  · simp [Pc.expects, hafter, hplace]
  · have htwo := h.two d
    simp_all [Two]

/-! ## The steps -/

theorem Inv.effect (h : Inv s.view) (hok : Orderly s a) (he : Effect s a v) : Inv v := by
  have horder : ∀ {d p}, a = .go d → s.pc d = p → p.Orderly s := by
    rintro d p rfl rfl
    exact hok
  have hO : s.heap.Ok := h.heap
  cases he with
  | quiet => exact h
  | turn hpc hhand =>
    simp only [Pc.hand, Prod.mk.injEq] at hhand
    exact h.stay hpc ⟨hhand.1, hhand.2.1⟩ (h.locks.goto hpc hhand.2.2)
  | requeue hf hq hop => exact h.requeue hf hq hop
  | @pick d t q hpc hf hq =>
    have hplace := hO.place_of_first hf
    obtain ⟨hnone, hwaited⟩ := h.loose_of_feeds hplace hq
    refine h.moveBy rfl (fun _ _ => rfl) hpc rfl (fun e _ => hnone e) (fun u hu => ?_) (Or.inl ?_)
      (by simp [Two, Pc.moved]) (h.locks.goto hpc rfl)
    · simp [Pc.expects, Pc.moved, Pc.own, Pc.cur, Pc.current, Ne.symm hu]
    · rw [hwaited, execs_place hO]
      simp [Pc.expects, Pc.moved, Pc.own, Pc.cur, Op.moves]
  | enter hpc hlock => exact h.stay hpc ⟨rfl, rfl⟩ (h.locks.acquire hpc rfl rfl hlock)
  | leave hpc => exact h.stay hpc ⟨rfl, rfl⟩ (h.locks.release hpc rfl rfl)
  | @wake d ds t hpc hin =>
    have hpc' : s.view.pc d = .events ds := hpc
    have hd : s.lock ds = some d := (h.locks d ds).mp (by rw [hpc']; rfl)
    obtain ⟨hnone, hwaited⟩ := h.loose_of_wait (hO.contains_iff.mp hin) fun e he => by
      cases hd.symm.trans he
      rw [hpc']
      rfl
    exact h.take hnone hpc rfl (by rw [hwaited]; rfl) (h.locks.goto hpc rfl)
  | drop hpc => exact h.give_cur (o := []) hpc rfl rfl (by simp)
  | switched hpc hq hhand =>
    rcases hpc with hpc | ⟨_ | _, hpc⟩
    · exact h.give_cur hpc rfl hhand (by simp [Op.moves, hq])
    · exact h.give_cur hpc rfl hhand (by simp [Op.moves, hq])
    · -- the node is in `pth_SQ`, and the append is refused
      exact h.give_moved hpc rfl hhand (by simp [Op.moves, isWait])
  | @marked d t hpc =>
    obtain ⟨hplace, hwaited, hfree⟩ := h.in_hand hpc (x := t) (w := (none, none))
      (by simp [Pc.expects, Pc.moved, Pc.own, Pc.cur])
    refine h.moveBy rfl (fun _ _ => rfl) hpc rfl hfree (fun u hu => ?_) (Or.inl ?_)
      (by simp [Two, Pc.own]) (h.locks.goto hpc rfl)
    · simp [Pc.expects, Pc.moved, Pc.own, Pc.cur, hu, Ne.symm hu]
    · have hplace' : s.heap.place t = none := hplace
      rw [hwaited, execs_place hO, hplace']
      simp [Pc.expects, Pc.moved, Op.moves]
  | @park d ds t b ha hpc hwaits hlock =>
    obtain rfl : b = false := Bool.eq_false_iff.mpr fun hb => horder ha hpc hb hwaits
    obtain ⟨hplace, hwaited, hfree⟩ := h.in_hand hpc (x := t) (w := (none, none))
      (by simp [Pc.expects, Pc.moved, Pc.own, Pc.cur])
    refine h.moveBy rfl (fun _ _ => rfl) hpc rfl hfree (fun u hu => ?_) (Or.inl ?_)
      (by simp [Two, Pc.own, Pc.cur, Pc.current]) (h.locks.acquire hpc rfl rfl hlock)
    · simp [Pc.expects, Pc.moved, Pc.own, Pc.cur, Pc.current, hu, Ne.symm hu]
    · have hplace' : s.heap.place t = none := hplace
      rw [hwaited, execs_place hO, hplace']
      simp [Pc.expects, Pc.moved, Op.moves]
  | @linked d ds t hpc =>
    obtain ⟨hplace, -, hfree⟩ := h.in_hand hpc (x := t) (w := (some (.waitQueue ds), none))
      (by simp [Pc.expects, Pc.moved])
    refine h.moveBy (o := []) rfl (fun u hu => update_of_ne hu _ _) hpc rfl hfree (fun u hu => ?_)
      (Or.inr ⟨rfl, ?_⟩) (by simp [Two, Pc.moved]) (h.locks.release hpc rfl rfl)
    · simp [Pc.expects, Pc.moved, Pc.own, Pc.cur, Pc.current, hu]
    · simp only [hplace, update_self]
      simp [Agree]
  | @woken d ds t q hprio hpc hq =>
    obtain ⟨hplace, -, hfree⟩ := h.in_hand hpc (x := t) (w := (none, some ds))
      (by simp [Pc.expects, Pc.moved])
    refine h.moveBy rfl (fun u hu => update_of_ne hu _ _) hpc rfl hfree (fun u hu => ?_)
      (Or.inr ⟨rfl, ?_⟩) (by simp [Two, Pc.moved]) (h.locks.goto hpc rfl)
    · simp [Pc.expects, Pc.moved, Pc.own, Pc.cur, Pc.current, hu]
    · have hplace' : s.heap.place t = none := hplace
      simp only [execs_place hO, hplace', update_self]
      exact .elsewhere (by simp [Op.moves, (isWait_of_ready hq).1])
  | @ready d c t q hprio hpc hq =>
    refine h.give_moved hpc rfl ?_ (by simp [Op.moves, (isWait_of_ready hq).1])
    cases c <;> rfl
  | handoff ha hpc hlock hwaited =>
    have hw := (horder ha hpc).resolve_left hwaited
    obtain ⟨hnone, hw'⟩ := h.loose_of_wait (h.loose_of_waited hw hlock) fun e he =>
      absurd (hlock.symm.trans he) (by simp)
    exact h.take hnone hpc rfl (by rw [hw']; rfl) (h.locks.acquire hpc rfl rfl hlock)
  | wqLock ha hpc hlock =>
    obtain ⟨hnone, hwaited⟩ := h.loose_of_wait (horder ha hpc) fun e he =>
      absurd (hlock.symm.trans he) (by simp)
    exact h.take hnone hpc rfl (by rw [hwaited]; rfl) (h.locks.acquire hpc rfl rfl hlock)
  | cleared hpc hbefore hafter => exact h.cleared hpc hbefore hafter
  | remove ha hpc =>
    obtain ⟨hnone, hwaited⟩ := h.loose_of_feeds (horder ha hpc).1 (horder ha hpc).2
    exact h.take hnone hpc rfl (by rw [hwaited]; rfl) (h.locks.goto hpc rfl)
  | resumeRemove ha hpc =>
    obtain ⟨hnone, hwaited⟩ := h.loose_of_plain (horder ha hpc).1 rfl fun _ => (horder ha hpc).2
    exact h.take hnone hpc rfl (by rw [hwaited]; rfl) (h.locks.goto hpc rfl)
  | toSQ hpc => exact h.give_moved hpc rfl rfl (by simp [Op.moves, isWait])
  | refused hpc => exact h.give_moved (o := []) hpc rfl rfl (by simp)
  | resumed ha hpc hq hp =>
    refine h.give_moved hpc rfl ?_ (by simp [Op.moves, isWait_resumeQueue (horder ha hpc) hq])
    rcases hp with rfl | rfl <;> rfl

theorem Start.inv (h : Start s) : Inv s.view := by
  have hexp : ∀ d t, (s.pc d).expects t =
      if s.pc d = .running t then some (none, none) else none := by
    intro d t
    rcases h.pc d with hpc | ⟨u, hpc, -⟩ <;>
      simp [hpc, Pc.expects, Pc.moved, Pc.own, Pc.cur, Pc.current]
  have hplain : ∀ d, (s.pc d).moved = none ∧ (s.pc d).lockOf = none := by
    intro d
    rcases h.pc d with hpc | ⟨u, hpc, -⟩ <;> rw [hpc] <;> exact ⟨rfl, rfl⟩
  refine ⟨h.heap, fun t => ?_, fun d t w hw => ?_, fun d ds => ?_⟩
  · by_cases hrun : ∃ d, s.pc d = .running t
    · obtain ⟨d, hd⟩ := hrun
      refine Or.inl ⟨d, ?_, fun e he => ?_⟩
      · rcases h.pc d with hpc | ⟨u, hpc, hplace⟩ <;> cases hd.symm.trans hpc
        rw [show s.view.pc d = _ from hpc, show s.view.heap.place t = _ from hplace,
          show s.view.waited t = _ from h.waited t]
        simp [Pc.expects, Pc.moved, Pc.own, Pc.cur, Pc.current]
      · exact (hexp e t).trans (if_neg fun hrun => he (h.running e d t hrun hd))
    · refine Or.inr ⟨fun d => (hexp d t).trans (if_neg fun hd => hrun ⟨d, hd⟩), fun ds => ?_⟩
      rw [show s.view.waited t = _ from h.waited t]
      exact iff_of_false (by simp) (h.place t ds)
  · cases (hplain d).1.symm.trans hw
  · rw [show (s.view.pc d).lockOf = _ from (hplain d).2, show s.view.lock ds = _ from h.lock ds]
    simp

/-! ## The back reference over runs -/

theorem Inv.of_reachable (hs : Reachable (State.step first) Orderly Start s) : Inv s.view :=
  hs.invariant (fun _ h => h.inv) fun _ _ _ h hok hstep => h.effect hok (effect_of_step hstep)

/-- **The back reference.** In a run whose steps are all orderly, whenever no lock of a
wait queue is held, `waited_native` of a thread is `ds` if and only if its node is linked in
`ds->wait_queue`. -/
theorem back_reference (first : D) (s : State D T)
    (hs : Reachable (State.step first) Orderly Start s) :
    ∃ L : Levels (QName D) T, Represents s.heap L ∧
      ((∀ ds, s.lock ds = none) →
        ∀ t ds, (s.tcb t).waitedNative = some ds ↔ LinkedIn L (.waitQueue ds) t) := by
  have h : Inv s.view := .of_reachable hs
  obtain ⟨L, hL⟩ := h.heap
  refine ⟨L, hL, fun hfree t ds => ?_⟩
  exact (h.agree hfree t ds).trans hL.place_iff

/-- Three native threads, the first one without a thread, and thread `d` running on each of
the others. -/
def twoRunning : State (Fin 3) (Fin 3) where
  heap := initHeap
  tcb := fun _ =>
    { state := .ready, priority := 0, joinable := false, joinedThread := none
      joinedNative := none, waitedNative := none, boundnative := none, shouldSuspend := false }
  pc := fun d => if d.val = 0 then .top else .running d
  lock := fun _ => none
  isBounded := fun _ => false
  natives := List.finRange 3
  exitCount := 0
  rc := fun _ => .ok

theorem twoRunning_start : Start twoRunning where
  heap := ⟨_, initHeap_initialised.repr⟩
  place := nofun
  waited := fun _ => rfl
  lock := fun _ => rfl
  pc := by decide
  running := by decide

/-- The waiting thread 2 is handed over by thread 1, suspended and resumed as a ready
thread; it runs and waits again. -/
theorem back_reference_moved :
    ∃ s : State (Fin 3) (Fin 3), Reachable (State.step 0) Orderly Start s ∧
      (∀ ds, s.lock ds = none) ∧ (s.tcb 2).waitedNative = some 2 ∧
      ∃ L, Represents s.heap L ∧ LinkedIn L (.waitQueue 2) 2 := by
  refine exists_and_of_any₂ (o := runOk (State.step 0) Orderly twoRunning [.wait 2, .go 2, .go 2,
    .go 2, .go 2, .handoff 1 2, .go 1, .go 1, .go 1, .suspend 1 2, .go 1, .go 1, .go 1, .go 1,
    .go 1, .go 1, .go 1, .go 1, .resume 1 2, .go 1, .go 1, .go 1, .go 1, .go 1, .pick 2, .go 2,
    .wait 2, .go 2, .go 2, .go 2, .go 2])
    (fun _ => reachable_of_runOk (.init twoRunning_start)) (by decide +kernel)
    fun s hs hfree hw => ?_
  obtain ⟨L, hL, hiff⟩ := back_reference 0 s hs
  exact ⟨L, hL, (hiff hfree 2 2).mp hw⟩

/-- **One native per thread.** In a run whose steps are all orderly, a thread that a native runs,
has picked or has taken back and put into no queue yet is in no queue, and no other native has
it or moves it. -/
theorem one_native_has_thread (first : D) (s : State D T)
    (hs : Reachable (State.step first) Orderly Start s) (d : D) (t : T)
    (hcur : (s.pc d).own = some t) :
    s.place t = none ∧ s.waited t = none ∧
      ∀ e, e ≠ d → (s.pc e).own ≠ some t ∧ ∀ w, (s.pc e).moved ≠ some (t, w) := by
  have h : Inv s.view := .of_reachable hs
  have hexp : ∀ e, (s.pc e).own = some t → (s.view.pc e).expects t = some (none, none) := by
    intro e hc
    unfold Pc.expects
    split
    case h_1 u w hmoved =>
      -- the thread that a native moves is another one
      have hne : t ≠ u := fun htu => h.two e u w hmoved (htu ▸ hc)
      exact (if_neg hne).trans (if_pos hc)
    case h_2 => exact if_pos hc
  obtain ⟨hplace, hwaited, hothers⟩ := h.in_hand rfl (hexp d hcur)
  refine ⟨hplace, hwaited, fun e he => ⟨fun hc => ?_, fun w hw => ?_⟩⟩
  · cases (hothers e he).symm.trans (hexp e hc)
  · have hnone := hothers e he
    simp [Pc.expects, show (s.view.pc e).moved = _ from hw] at hnone

/-- Thread 2 is marked with `should_suspend` while it runs, is moved to `pth_SQ` when it yields,
and is resumed by thread 1; then both are picked again. -/
theorem one_native_has_thread_two :
    ∃ s : State (Fin 3) (Fin 3), Reachable (State.step 0) Orderly Start s ∧
      s.pc 1 = .running 1 ∧ s.pc 2 = .running 2 ∧ s.place 2 = none ∧ s.waited 2 = none ∧
      ∀ e, e ≠ 2 → (s.pc e).own ≠ some 2 := by
  refine exists_and_of_any₂ (o := runOk (State.step 0) Orderly twoRunning [.suspend 1 2, .go 1,
    .go 1, .go 1, .yield 2, .go 2, .go 2, .go 2, .resume 1 2, .go 1, .go 1, .go 1, .go 1, .go 1,
    .pick 2, .go 2, .pick 1, .go 1])
    (fun _ => reachable_of_runOk (.init twoRunning_start)) (by decide +kernel)
    fun s hs _ htwo => ?_
  obtain ⟨hplace, hwaited, hothers⟩ := one_native_has_thread 0 s hs 2 2 (by rw [htwo]; rfl)
  exact ⟨hplace, hwaited, fun e he => (hothers e he).1⟩

/-- A resume links a waiting thread into a wait queue and leaves its `waited_native` 0. -/
theorem Inv.resume_waiting (first : D) (h : Inv s.view) (hpc : s.pc d = .resumeAppend cur t)
    (hstate : (s.tcb t).state = .waiting) (hbound : s.boundTo t = none) (hlock : s.lock d = none) :
    ∃ s', s.step first (.go d) = some s' ∧ s'.heap.Ok ∧ s'.lock = s.lock ∧
      s'.place t = some (.waitQueue d) ∧ s'.waited t = none := by
  obtain ⟨hplace, hwaited, -⟩ := h.in_hand (x := t) (w := (none, none)) hpc
    (by simp [Pc.expects, Pc.moved])
  have hheap := (s.append (.waitQueue d) t).yieldTo_heap d cur t
  have htcb := (s.append (.waitQueue d) t).yieldTo_tcb d cur t
  have hlock' : ((s.append (.waitQueue d) t).yieldTo d cur t).lock = s.lock := by
    rcases (s.append (.waitQueue d) t).yieldTo_cases d cur t with h | h <;> rw [h] <;> rfl
  have hO : s.heap.Ok := h.heap
  refine ⟨(s.append (.waitQueue d) t).yieldTo d cur t, ?_, ?_, hlock', ?_, ?_⟩
  · simp only [State.step, State.go, hpc, State.resumeQueue, hbound, hstate, State.lockFree, hlock,
      decide_true, if_true]
  · rw [hheap]
    exact hO.execs t [.append (.waitQueue d), .favor]
  · have hmoved := execs_place hO (n := t) [.append (.waitQueue d), .favor]
    rw [show s.heap.place t = none from hplace] at hmoved
    exact (congrArg (Heap.place · t) hheap).trans hmoved
  · show (State.tcb _ t).waitedNative = none
    rw [htcb]
    exact hwaited

/-- The scheduler moves a waiting thread that is to be suspended to `pth_SQ` and leaves its
`waited_native`. -/
theorem Inv.suspend_waiting (first : D) (h : Inv s.view) (hpc : s.pc d = .back t)
    (hsuspend : (s.tcb t).shouldSuspend = true) (hstate : (s.tcb t).state = .waiting)
    (hbound : (s.tcb t).boundnative = none) (hbounded : s.isBounded d = false)
    (hlock : s.lock d = none) :
    ∃ s', run (State.step first) s [.go d, .go d, .go d] = some s' ∧ s'.heap.Ok ∧
      s'.lock = s.lock ∧ s'.place t = some .pthSQ ∧ s'.waited t = some d := by
  obtain ⟨hplace, -, -⟩ := h.in_hand (x := t) (w := (none, none)) hpc
    (by simp [Pc.expects, Pc.moved, Pc.own, Pc.cur])
  -- the three states
  obtain ⟨s₁, hs₁⟩ : ∃ r, r = ((s.setShouldSuspend t false).append .pthSQ t).goto d
      (.parked t true) :=
    ⟨_, rfl⟩
  obtain ⟨s₂, hs₂⟩ : ∃ r, r = ((s₁.acquire d d).append (.waitQueue d) t).goto d (.linked t d) :=
    ⟨_, rfl⟩
  have hpc₁ : s₁.pc d = .parked t true := by rw [hs₁]; exact update_self ..
  have htcb₁ : s₁.tcb t = { s.tcb t with shouldSuspend := false } := by
    rw [hs₁]
    exact update_self ..
  have hpc₂ : s₂.pc d = .linked t d := by rw [hs₂]; exact update_self ..
  have hstep₁ : s.step first (.go d) = some s₁ := by
    simp only [State.step, State.go, hpc, State.schedBack, hstate, hsuspend, if_true, hs₁]
  have hstep₂ : s₁.step first (.go d) = some s₂ := by
    have hlock₁ : s₁.lock d = none := by rw [hs₁]; exact hlock
    have hbounded₁ : s₁.isBounded d = false := by rw [hs₁]; exact hbounded
    simp [State.step, State.go, hpc₁, State.schedPark, htcb₁, hstate, hbound, State.park, hlock₁,
      hbounded₁, hs₂]
  have hstep₃ : s₂.step first (.go d) =
      some (((s₂.setWaitedNative t (some d)).release d).goto d .top) := by
    simp only [State.step, State.go, hpc₂]
  -- the second append does nothing
  have hO₁ : s₁.heap.Ok := by rw [hs₁]; exact h.heap.exec t (.append .pthSQ)
  have hplace₁ : s₁.place t = some .pthSQ := by
    have hmoved := exec_place h.heap (n := t) (.append .pthSQ)
    rw [hplace] at hmoved
    rw [hs₁]
    exact hmoved
  have hheap₂ : s₂.heap = s₁.heap := by
    obtain ⟨L, hL⟩ := hO₁
    obtain ⟨p, hp⟩ := hL.place_iff.mp hplace₁
    rw [hs₂]
    exact pqueueAddNode_linked hL hp _
  refine ⟨((s₂.setWaitedNative t (some d)).release d).goto d .top, ?_, ?_, ?_, ?_, ?_⟩
  · simp only [run, hstep₁, hstep₂, hstep₃, Option.bind_some]
  · show s₂.heap.Ok
    rw [hheap₂]
    exact hO₁
  · show update s₂.lock d none = s.lock
    rw [hs₂, hs₁]
    show update (update s.lock d (some d)) d none = s.lock
    rw [update_idem, ← hlock, update_eq_self]
  · show s₂.heap.place t = _
    rw [hheap₂]
    exact hplace₁
  · simp [State.waited, State.goto, State.release, State.setWaitedNative, State.setTcb]

/-- Thread 2 waits, is suspended and resumed: it is in the wait queue of the native of thread
1, with a null `waited_native`. And a thread marked with `should_suspend` waits: it is in
`pth_SQ`, with `waited_native` set. -/
theorem resumed_waiter_has_no_reference :
    (∃ s : State (Fin 3) (Fin 3), Reachable (State.step 0) Always Start s ∧
      (∀ ds, s.lock ds = none) ∧ (s.tcb 2).waitedNative = none ∧
      ∃ L, Represents s.heap L ∧ LinkedIn L (.waitQueue 1) 2) ∧
    ∃ s : State (Fin 3) (Fin 3), Reachable (State.step 0) Always Start s ∧
      (∀ ds, s.lock ds = none) ∧ (s.tcb 2).waitedNative = some 2 ∧
      ∃ L, Represents s.heap L ∧ ¬ LinkedIn L (.waitQueue 2) 2 := by
  have hreached : ∀ {as : List (Action (Fin 3) (Fin 3))} {s : State (Fin 3) (Fin 3)},
      runOk (State.step 0) Orderly twoRunning as = some s →
      Reachable (State.step 0) Always Start s ∧ Inv s.view := by
    intro as s hs
    have hreach : Reachable (State.step 0) Orderly Start s :=
      reachable_of_runOk (.init twoRunning_start) hs
    exact ⟨hreach.mono fun _ _ _ => trivial, .of_reachable hreach⟩
  refine ⟨?_, ?_⟩
  · obtain ⟨s, hs, hpc, hstate, hbound, hlock⟩ : ∃ s, runOk (State.step 0) Orderly twoRunning
        [.wait 2, .go 2, .go 2, .go 2, .go 2, .suspend 1 2, .go 1, .go 1, .go 1, .go 1, .go 1,
        .go 1, .go 1, .go 1, .go 1, .go 1, .go 1, .resume 1 2, .go 1] = some s ∧
        s.pc 1 = .resumeAppend 1 2 ∧ (s.tcb 2).state = .waiting ∧ s.boundTo 2 = none ∧
        ∀ ds, s.lock ds = none := exists_of_any (by decide +kernel)
    obtain ⟨hreach, h⟩ := hreached hs
    obtain ⟨s', hstep, ⟨L, hL⟩, hlock', hplace, hwaited⟩ :=
      h.resume_waiting 0 hpc hstate hbound (hlock 1)
    exact ⟨s', hreach.step trivial hstep, fun ds => by rw [hlock', hlock ds], hwaited, L, hL,
      hL.place_iff.mp hplace⟩
  · obtain ⟨s, hs, hpc, hsuspend, hstate, hbound, hbounded, hlock⟩ : ∃ s, runOk (State.step 0)
        Orderly twoRunning [.suspend 1 2, .go 1, .go 1, .go 1, .wait 2, .go 2] = some s ∧
        s.pc 2 = .back 2 ∧ (s.tcb 2).shouldSuspend = true ∧ (s.tcb 2).state = .waiting ∧
        (s.tcb 2).boundnative = none ∧ s.isBounded 2 = false ∧ ∀ ds, s.lock ds = none :=
      exists_of_any (by decide +kernel)
    obtain ⟨hreach, h⟩ := hreached hs
    obtain ⟨s', hstep, ⟨L, hL⟩, hlock', hplace, hwaited⟩ :=
      h.suspend_waiting 0 hpc hsuspend hstate hbound hbounded (hlock 2)
    refine ⟨s', reachable_of_run hreach hstep, fun ds => by rw [hlock', hlock ds], hwaited, L, hL,
      fun hlinked => ?_⟩
    cases (hL.place_iff.mpr hlinked).symm.trans hplace

end Ngpt.Sched.Multi
