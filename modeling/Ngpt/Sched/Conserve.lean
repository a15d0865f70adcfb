import Ngpt.Sched.Edits

/-!
# ngpt — no thread is lost on one native thread

Every thread is at home in exactly one place. Which one is decided by its role
(running, just switched back to the scheduler, or neither) and its state:
`Home` lists the queues for each state and `OkAs` is the condition on a single
thread. A queue move breaks the condition for the thread it moves, and for no
other, so the proofs run in three strokes: forget the thread (`Inv.except`),
follow the code on it (`Except.…`), and put it back (`Except.close`).

Results: `threads_conserved`, `dispatch_highest`.
-/

namespace Ngpt.Sched.Single

open Ngpt.Queue Transition

variable {T : Type} [DecidableEq T]

/-! ## The invariant -/

/-- The queues where a thread that is not running may be, by its state. -/
def Home (q : QName Unit) : PthState → Prop
  | .new => q = newQueue ∨ q = .pthSQ
  | .ready => q = readyQueue ∨ q = .pthSQ
  | .waiting => q = waitQueue ∨ q = .pthSQ
  | .dead => q = .pthDQ
  | .exit => False

inductive Role where
  | running
  | back
  | off
  deriving DecidableEq

def role (s : Sys T) (t : T) : Role :=
  match s.phase with
  | .running c => if t = c then .running else .off
  | .back c => if t = c then .back else .off
  | _ => .off

/-- The condition on one thread: its role, whether it exists, the queue its
node is in and its control block fit together. -/
structure OkAs (r : Role) (mem : Prop) (place : Option (QName Unit)) (x : Tcb T) : Prop where
  plain   : x.shouldSuspend = false ∧ x.boundnative = none
  waited  : x.waitedNative ≠ none → place = some waitQueue
  running : r = .running → mem ∧ place = none ∧ x.state = .ready
  back    : r = .back → mem ∧ place = none ∧
              (x.state = .ready ∨ x.state = .waiting ∨ x.state = .exit)
  home    : r = .off → mem → ∃ q, place = some q ∧ Home q x.state
  gone    : ¬ mem → r = .off ∧ place = none

def OkAt (s : Sys T) (t : T) : Prop :=
  OkAs (role s t) (t ∈ s.threads) (s.heap.place t) (s.tcb t)

/-- The invariant with one thread left out. -/
structure Except (s : Sys T) (t : T) : Prop where
  heap   : s.heap.Ok
  nodup  : s.threads.Nodup
  others : ∀ u, u ≠ t → OkAt s u

structure Inv (s : Sys T) : Prop where
  heap  : s.heap.Ok
  nodup : s.threads.Nodup
  each  : ∀ t, OkAt s t

variable {s s' : Sys T} {t u cur main : T} {q : QName Unit} {x : Tcb T}
  {left : Heap (QName Unit) T}

theorem Inv.except (hI : Inv s) (t : T) : Except s t :=
  ⟨hI.heap, hI.nodup, fun u _ => hI.each u⟩

theorem Except.close (hE : Except s t) (ht : OkAt s t) : Inv s := by
  refine ⟨hE.heap, hE.nodup, fun u => ?_⟩
  by_cases hu : u = t
  · rw [hu]
    exact ht
  · exact hE.others u hu

theorem OkAt.role_of_place (hO : OkAt s t) (hp : s.heap.place t = some q) :
    role s t = .off ∧ t ∈ s.threads := by
  have hmem : t ∈ s.threads := by
    by_contra hno
    cases (hO.gone hno).2.symm.trans hp
  refine ⟨?_, hmem⟩
  rcases hr : role s t with _ | _ | _
  · cases (hO.running hr).2.1.symm.trans hp
  · cases (hO.back hr).2.1.symm.trans hp
  · rfl

theorem OkAt.home_of_place (hO : OkAt s t) (hp : s.heap.place t = some q) :
    Home q (s.tcb t).state := by
  obtain ⟨hr, hmem⟩ := hO.role_of_place hp
  obtain ⟨q', hq', hh⟩ := hO.home hr hmem
  rw [hp] at hq'
  cases hq'
  exact hh

theorem OkAt.waited_none (hO : OkAt s t) (hp : s.heap.place t ≠ some waitQueue) :
    (s.tcb t).waitedNative = none := by
  by_contra hw
  exact hp (hO.waited hw)

theorem role_running (hph : s.phase = .running cur) : role s cur = .running := by
  simp [role, hph]

theorem role_back (hph : s.phase = .back cur) : role s cur = .back := by
  simp [role, hph]

theorem role_off_of_ne (hph : s.phase = .running cur ∨ s.phase = .back cur) (hu : u ≠ cur) :
    role s u = .off := by
  rcases hph with hph | hph <;> simp [role, hph, hu]

/-! ## Following the code on one thread -/

theorem OkAt.settled (hO : OkAt s t) (hp : s.heap.place t = some q) (hq : q ≠ waitQueue) :
    role s t = .off ∧ t ∈ s.threads ∧ (s.tcb t).waitedNative = none := by
  obtain ⟨hr, hmem⟩ := hO.role_of_place hp
  exact ⟨hr, hmem, hO.waited_none (by simpa [hp] using hq)⟩

theorem OkAt.congr (hO : OkAt s u) (hrole : role s' u = role s u)
    (hmem : u ∈ s'.threads ↔ u ∈ s.threads) (hplace : s'.heap.place u = s.heap.place u)
    (htcb : s'.tcb u = s.tcb u) : OkAt s' u := by
  unfold OkAt at hO ⊢
  rw [hrole, hmem, hplace, htcb]
  exact hO

namespace Except
section

variable (hE : Except s t)
include hE

theorem delete :
    Except (s.delete t) t ∧ (s.delete t).heap.place t = none := by
  have hp := pqueueDeleteNode_place hE.heap t
  refine ⟨⟨hE.heap.exec t .delete, hE.nodup, fun u hu => ?_⟩, (hp t).trans (if_pos rfl)⟩
  exact (hE.others u hu).congr rfl Iff.rfl ((hp u).trans (if_neg hu)) rfl

theorem append (hn : s.heap.place t = none) (q : QName Unit) :
    Except (s.append q t) t ∧ (s.append q t).heap.place t = some q := by
  have hp := pqueueAppendNode_place hE.heap hn q
  refine ⟨⟨hE.heap.exec t (.append q), hE.nodup, fun u hu => ?_⟩, (hp t).trans (if_pos rfl)⟩
  exact (hE.others u hu).congr rfl Iff.rfl ((hp u).trans (if_neg hu)) rfl

theorem setTcb (x : Tcb T) : Except (s.setTcb t x) t :=
  ⟨hE.heap, hE.nodup, fun u hu =>
    (hE.others u hu).congr rfl Iff.rfl rfl (by simp [Sys.setTcb, hu])⟩

theorem tcbFree : Except (pthTcbFree s t) t :=
  ⟨hE.heap, hE.nodup.erase t, fun u hu =>
    (hE.others u hu).congr rfl (List.mem_erase_of_ne hu) rfl rfl⟩

theorem prependSecond (hn : s.heap.place t = none) (q : QName Unit) :
    Except { s with heap := pqueuePrependSecondNode s.heap q t } t ∧
      (pqueuePrependSecondNode s.heap q t).place t = some q := by
  have hp := pqueuePrependSecondNode_place hE.heap hn q
  refine ⟨⟨hE.heap.exec t (.prependSecond q), hE.nodup, fun u hu => ?_⟩, (hp t).trans (if_pos rfl)⟩
  exact (hE.others u hu).congr rfl Iff.rfl ((hp u).trans (if_neg hu)) rfl

theorem prioritySet (hn : s.heap.place t = none) {prio : Nat}
    (hprio : prio < prioTotal) :
    Except { s with heap := pqueueNodePrioritySet s.heap t prio } t ∧
      (pqueueNodePrioritySet s.heap t prio).place t = none := by
  have hp := pqueueNodePrioritySet_place (h := s.heap) (n := t) prio
  refine ⟨⟨hE.heap.exec t (.prioritySet ⟨prio, hprio⟩), hE.nodup, fun u hu => ?_⟩, (hp t).trans hn⟩
  exact (hE.others u hu).congr rfl Iff.rfl (hp u) rfl

theorem setPhase (hph : s.phase = .running t ∨ s.phase = .back t)
    (p : Phase T) (hp : p = .back t ∨ p = .events ∨ p = .top) :
    Except { s with phase := p } t := by
  refine ⟨hE.heap, hE.nodup, fun u hu => (hE.others u hu).congr ?_ Iff.rfl rfl rfl⟩
  rw [role_off_of_ne hph hu]
  rcases hp with rfl | rfl | rfl <;> simp [role, hu]

end

end Except

theorem Inv.setPc (hI : Inv s) (u : T) (pc : Pc T) : Inv (s.setPc u pc) :=
  ⟨hI.heap, hI.nodup, hI.each⟩

theorem Inv.setTcb (hI : Inv s) (hState : x.state = (s.tcb t).state)
    (hWaited : x.waitedNative = (s.tcb t).waitedNative)
    (hSuspend : x.shouldSuspend = (s.tcb t).shouldSuspend)
    (hBound : x.boundnative = (s.tcb t).boundnative) : Inv (s.setTcb t x) := by
  refine ((hI.except t).setTcb x).close ?_
  have hO := hI.each t
  have hx : (s.setTcb t x).tcb t = x := by simp [Sys.setTcb]
  unfold OkAt at hO ⊢
  rw [hx]
  refine ⟨?_, ?_, ?_, ?_, ?_, hO.gone⟩ <;> simp only [hState, hWaited, hSuspend, hBound]
  exacts [hO.plain, hO.waited, hO.running, hO.back, hO.home]

theorem Inv.favor (hI : Inv s) (t : T) : Inv { s with heap := pqueueFavor s.heap t } :=
  ⟨hI.heap.exec t .favor, hI.nodup, fun u =>
    (hI.each u).congr rfl Iff.rfl (pqueueFavor_place t u) rfl⟩

/-! ## The running thread -/

theorem Except.close_off (hE : Except s t) (hr : role s t = .off) (hmem : t ∈ s.threads)
    (hplace : s.heap.place t = some q) (hhome : Home q (s.tcb t).state)
    (hplain : (s.tcb t).shouldSuspend = false ∧ (s.tcb t).boundnative = none)
    (hwaited : (s.tcb t).waitedNative ≠ none → q = waitQueue) : Inv s := by
  refine hE.close ⟨hplain, fun hw => ?_, by simp [hr], by simp [hr],
    fun _ _ => ⟨q, hplace, hhome⟩, fun hno => absurd hmem hno⟩
  rw [hplace, hwaited hw]

theorem inv_spawn (hI : Inv s) (hu : u ∉ s.threads) (attr : Attr) : Inv (pthSpawn s u attr) := by
  obtain ⟨hoff, hplace⟩ := (hI.each u).gone hu
  unfold pthSpawn
  -- the block is allocated and listed, not yet queued
  set s₁ : Sys T := { s with heap := _, tcb := _, threads := _, pc := _ } with hs₁
  have hE : Except s₁ u := by
    refine ⟨hI.heap.reset hplace, List.nodup_cons.mpr ⟨hu, hI.nodup⟩, fun v hv => ?_⟩
    refine (hI.each v).congr rfl ?_ ?_ ?_
    · simp [hs₁, hv]
    · rw [hs₁, reset_place, if_neg hv]
    · simp [hs₁, hv]
  have hnone : s₁.heap.place u = none := by
    rw [hs₁, reset_place, if_pos rfl]
  obtain ⟨hE', hp'⟩ := hE.append hnone (if attr.suspended then .pthSQ else newQueue)
  refine hE'.close_off hoff List.mem_cons_self hp' ?_ ?_ ?_
  · simp only [Sys.append, hs₁, Function.update_self, Home]
    split
    · exact Or.inr rfl
    · exact Or.inl rfl
  · simp [Sys.append, hs₁]
  · simp [Sys.append, hs₁]

theorem inv_back (hE : Except s cur) (hph : s.phase = .running cur) (hmem : cur ∈ s.threads)
    (hplace : s.heap.place cur = none)
    (hplain : (s.tcb cur).shouldSuspend = false ∧ (s.tcb cur).boundnative = none)
    (hwaited : (s.tcb cur).waitedNative = none)
    (hstate : (s.tcb cur).state = .ready ∨ (s.tcb cur).state = .waiting ∨
      (s.tcb cur).state = .exit) : Inv { s with phase := .back cur } := by
  exact (hE.setPhase (Or.inl hph) _ (Or.inl rfl)).close ⟨hplain, fun hw => absurd hwaited hw,
    by simp [role], fun _ => ⟨hmem, hplace, hstate⟩, by simp [role], fun hno => absurd hmem hno⟩

section

variable (hI : Inv s) (hph : s.phase = .running cur)
include hI hph

theorem Inv.running :
    cur ∈ s.threads ∧ s.heap.place cur = none ∧ (s.tcb cur).state = .ready ∧
      (s.tcb cur).waitedNative = none := by
  have hO := hI.each cur
  obtain ⟨hmem, hplace, hstate⟩ := hO.running (role_running hph)
  exact ⟨hmem, hplace, hstate, hO.waited_none (by simp [hplace])⟩

theorem inv_yield (dest : Option T) :
    Inv (pthYield s cur dest) := by
  have hback : ∀ s₁ : Sys T, Inv s₁ → s₁.phase = .running cur →
      Inv { s₁ with phase := .back cur } := by
    intro s₁ hI₁ hph₁
    obtain ⟨hmem, hplace, hstate, hwaited⟩ := hI₁.running hph₁
    exact inv_back (hI₁.except cur) hph₁ hmem hplace (hI₁.each cur).plain hwaited (Or.inl hstate)
  unfold pthYield
  cases dest with
  | none => exact hback s hI hph
  | some u =>
    simp only
    split
    · exact hI
    · exact hback _ (hI.favor u) hph

theorem inv_leave {st : PthState}
    (hst : st = .waiting ∨ st = .exit) : Inv { s.setState cur st with phase := .back cur } := by
  obtain ⟨hmem, hplace, -, hwaited⟩ := hI.running hph
  have hE := (hI.except cur).setTcb { s.tcb cur with state := st }
  refine inv_back hE hph hmem hplace ?_ ?_ (Or.inr ?_)
  · simpa [Sys.setState, Sys.setTcb] using (hI.each cur).plain
  · simpa [Sys.setState, Sys.setTcb] using hwaited
  · simpa [Sys.setState, Sys.setTcb] using hst

theorem inv_wait : Inv (pthWait s cur) :=
  inv_leave hI hph (Or.inl rfl)

theorem inv_exitEnd : Inv (pthExitEnd s cur) := by
  obtain ⟨-, -, hstate, -⟩ := hI.running hph
  simp only [pthExitEnd, hstate, ne_eq, reduceCtorEq, not_false_eq_true, if_true]
  exact inv_leave hI hph (Or.inr rfl)

end

/-! ## Moving a thread between queues -/

theorem Except.close_freed (hE : Except s t) (hr : role s t = .off) (hplace : s.heap.place t = none)
    (hplain : (s.tcb t).shouldSuspend = false ∧ (s.tcb t).boundnative = none)
    (hwaited : (s.tcb t).waitedNative = none) : Inv (pthTcbFree s t) := by
  have hno : t ∉ (pthTcbFree s t).threads := hE.nodup.not_mem_erase
  have hr' : role (pthTcbFree s t) t = .off := hr
  exact hE.tcbFree.close ⟨hplain, fun hw => absurd hwaited hw, by simp [hr'], by simp [hr'],
    fun _ hm => absurd hm hno, fun _ => ⟨hr', hplace⟩⟩

section

variable (hI : Inv s)
include hI

theorem Inv.place_of_contains (h : ¬ (!pqueueContains s.heap q t) = true) :
    s.heap.place t = some q :=
  hI.heap.contains_iff.mp (by simpa using h)

theorem Inv.move {q' : QName Unit} (hp : s.heap.place t = some q) (hq : q ≠ waitQueue)
    (hhome : Home q' (s.tcb t).state) : Inv ((s.delete t).append q' t) := by
  have hO := hI.each t
  obtain ⟨hr, hmem, hwaited⟩ := hO.settled hp hq
  obtain ⟨hE, hnone⟩ := (hI.except t).delete
  obtain ⟨hE, hplace⟩ := hE.append hnone q'
  exact hE.close_off hr hmem hplace hhome hO.plain (fun hw => absurd hwaited hw)

theorem inv_wakeUp (hp : s.heap.place t = some waitQueue)
    (hprio : (s.tcb t).priority < prioTotal) : Inv (wakeUp s t left) := by
  have hO := hI.each t
  obtain ⟨hr, hmem⟩ := hO.role_of_place hp
  obtain ⟨hE, hnone⟩ := (hI.except t).delete
  have hE := hE.setTcb { (s.delete t).tcb t with waitedNative := none }
  have hE := hE.setTcb
    { ((s.delete t).setWaitedNative t none).tcb t with state := .ready }
  have hprio' : ((((s.delete t).setWaitedNative t none).setState t .ready).tcb t).priority <
      prioTotal := by
    simpa [Sys.setState, Sys.setWaitedNative, Sys.setTcb, Sys.delete] using hprio
  simp only [wakeUp, eprioRecalculateAppend, if_pos hprio']
  obtain ⟨hE, hnone⟩ := hE.prioritySet hnone hprio'
  obtain ⟨hE, hplace⟩ := hE.append hnone readyQueue
  refine hE.close_off hr hmem hplace ?_ ?_ ?_
  · simp [Sys.append, Sys.setTcb, Home]
  · simpa [Sys.append, Sys.setTcb, Sys.delete, Sys.setWaitedNative] using hO.plain
  · simp [Sys.append, Sys.setTcb, Sys.setWaitedNative]

theorem inv_joinEnd (c : T) : Inv (pthJoinEnd s c).2 := by
  have hI' := hI.setTcb
    (x := { s.tcb c with joinedCount := (s.tcb c).joinedCount - 1 }) rfl rfl rfl rfl
  unfold pthJoinEnd
  split
  case isTrue => exact hI
  case isFalse hcont =>
    have hp : (s.setTcb c { s.tcb c with
      joinedCount := (s.tcb c).joinedCount - 1 }).heap.place c = some .pthDQ :=
      hI.place_of_contains hcont
    simp only
    split
    · exact hI'
    split
    · exact hI'
    -- the dead thread leaves the dead queue and the global list
    have hO := hI'.each c
    obtain ⟨hr, -, hwaited⟩ := hO.settled hp (by simp)
    obtain ⟨hE, hnone⟩ := (hI'.except c).delete
    exact hE.close_freed hr hnone hO.plain hwaited

theorem inv_join (hph : s.phase = .running cur) (thread : Option T) :
    Inv (pthJoin s cur thread).2 := by
  unfold pthJoin
  split
  · exact hI
  split
  · exact hI
  split
  · exact hI
  split
  · exact hI
  split
  · exact hI
  split
  · refine inv_wait ((Inv.setTcb hI ?_ ?_ ?_ ?_).setPc cur _) hph
    all_goals rfl
  · exact inv_joinEnd hI _

theorem inv_suspend : Inv (pthSuspend s cur t).2 := by
  have hO := hI.each t
  unfold pthSuspend
  split
  · exact hI
  split
  case h_1 hst | h_2 hst =>
    split
    case isTrue => exact hI
    case isFalse hcont =>
      exact hI.move (hI.place_of_contains hcont) (by simp) (hst ▸ Or.inr rfl)
  case h_3 hst =>
    unfold pthWQDelete
    by_cases hcont : pqueueContains s.heap waitQueue t = true
    · obtain ⟨hr, hmem⟩ := hO.role_of_place (hI.heap.contains_iff.mp hcont)
      obtain ⟨hE, hnone⟩ := (hI.except t).delete
      have hE := hE.setTcb { (s.delete t).tcb t with waitedNative := none }
      obtain ⟨hE, hplace⟩ := hE.append hnone .pthSQ
      simp only [hcont, if_true]
      refine hE.close_off hr hmem hplace ?_ ?_ ?_
      · simp [Sys.append, Sys.setTcb, Sys.delete, hst, Home]
      · simpa [Sys.append, Sys.setTcb, Sys.delete] using hO.plain
      · simp [Sys.append, Sys.setTcb]
    · simp only [hcont, Bool.false_eq_true, if_false]
      exact hI
  case h_4 => exact hI

theorem inv_resume (hph : s.phase = .running cur) : Inv (pthResume s cur t).2 := by
  unfold pthResume
  split
  · exact hI
  split
  · exact hI
  rename_i hcont
  have hp := hI.place_of_contains hcont
  have hhome := (hI.each t).home_of_place hp
  have hst : ((s.delete t).tcb t).state = (s.tcb t).state := rfl
  simp only [hst]
  split
  case h_1 hs | h_2 hs | h_3 hs =>
    exact inv_yield (hI.move hp (by simp) (hs ▸ Or.inl rfl)) hph (some t)
  case h_4 h₁ h₂ h₃ =>
    -- a suspended thread is new, ready or waiting
    cases hs : (s.tcb t).state <;> simp_all [Home]

theorem inv_exit {waitFlag : Bool} (hs : pthExit main s cur waitFlag = some s') :
    Inv s' := by
  unfold pthExit at hs
  split at hs
  · cases hs
  · obtain ⟨-, ⟨⟩⟩ := Option.ite_none_right_eq_some.mp hs
    exact hI.setPc cur _

theorem inv_cancel {b : Bool} (hs : pthCancel main s cur t = some (b, s')) :
    Inv s' := by
  unfold pthCancel at hs
  split at hs
  · cases hs
    exact hI
  split at hs
  · cases hs
    exact hI
  have hI₁ := hI.setTcb (x := { s.tcb t with cancelreq := true }) rfl rfl rfl rfl
  generalize s.setTcb t { s.tcb t with cancelreq := true } = s₁ at hI₁ hs
  have hO := hI₁.each t
  simp only at hs
  split at hs
  case isFalse =>
    cases hs
    exact hI₁
  split at hs
  · obtain ⟨s₂, hs₂, ⟨⟩⟩ := Option.map_eq_some_iff.mp hs
    exact inv_exit (hI₁.setTcb (x := { s₁.tcb t with cancelreq := false })
      rfl rfl rfl rfl) hs₂
  split at hs
  case h_1 =>
    split at hs
    case isTrue =>
      cases hs
      exact hI₁
    case isFalse hcont =>
      obtain ⟨hr, hmem, hwaited⟩ := hO.settled (hI₁.place_of_contains hcont) (by simp)
      obtain ⟨hE, hnone⟩ := (hI₁.except t).delete
      split at hs <;> cases hs
      · exact hE.close_freed hr hnone hO.plain hwaited
      · have hE := hE.setTcb { (s₁.delete t).tcb t with state := .dead }
        obtain ⟨hE, hplace⟩ := hE.append hnone .pthDQ
        refine hE.close_off hr hmem hplace ?_ ?_ ?_
        · simp [Sys.append, Sys.setTcb, Home]
        · simpa [Sys.append, Sys.setTcb, Sys.delete] using hO.plain
        · simpa [Sys.append, Sys.setTcb, Sys.delete] using hwaited
  all_goals
    cases hs
    exact hI₁

end

/-! ## The scheduler -/

theorem role_events {p : Phase T} (hp : p = .events ∨ p = .top) (s : Sys T) (t : T) :
    role { s with phase := p } t = .off := by
  rcases hp with rfl | rfl <;> rfl

theorem inv_requeued {p : Phase T} (hE : Except s t) (hph : s.phase = .back t)
    (hp : p = .events ∨ p = .top) (hmem : t ∈ s.threads) (hplace : s.heap.place t = some q)
    (hhome : Home q (s.tcb t).state)
    (hplain : (s.tcb t).shouldSuspend = false ∧ (s.tcb t).boundnative = none)
    (hwaited : (s.tcb t).waitedNative ≠ none → q = waitQueue) : Inv { s with phase := p } :=
  (hE.setPhase (Or.inr hph) p (Or.inr hp)).close_off (role_events hp s t) hmem hplace hhome
    hplain hwaited

theorem setState_tcb (s : Sys T) (t u : T) (st : PthState) :
    ((s.setState t st).tcb u).priority = (s.tcb u).priority ∧
      ((s.setState t st).tcb u).waitedNative = (s.tcb u).waitedNative ∧
      ((s.setState t st).tcb u).joinedThread = (s.tcb u).joinedThread := by
  by_cases hu : u = t
  · subst hu
    simp [Sys.setState, Sys.setTcb]
  · simp [Sys.setState, Sys.setTcb, hu]

section

omit [DecidableEq T]

/-- An exit is handed to a thread that is woken in range. -/
theorem InRange.joined {tmp : T} (hok : InRange s (.schedBack left)) (hph : s.phase = .back cur)
    (hexit : (s.tcb cur).state = .exit) (hjoinable : (s.tcb cur).joinable = true)
    (hjoined : (s.tcb cur).joinedThread = some tmp) (hw : (s.tcb tmp).waitedNative ≠ none) :
    (s.tcb tmp).priority < prioTotal := by
  refine hok tmp ?_
  simp only [woken, hph, if_pos (And.intro hexit hjoinable), hjoined, Option.mem_def,
    Option.filter_some, Option.isSome_iff_ne_none.mpr hw, if_true]

end

theorem inv_schedBack (hI : Inv s) (hph : s.phase = .back cur)
    (hok : InRange s (.schedBack left)) : Inv (schedBack s cur left) := by
  have hO := hI.each cur
  obtain ⟨hmem, hnone, hstate⟩ := hO.back (role_back hph)
  have hwaited := hO.waited_none (by rw [hnone]; simp)
  have hE := hI.except cur
  unfold schedBack
  split
  case h_1 hst =>
    -- no thread dies while it runs
    simp [hst] at hstate
  case h_2 hst =>
    split
    · exact (hE.setPhase (Or.inr hph) .events (Or.inr (Or.inl rfl))).close_freed
        (role_events (Or.inl rfl) s cur) hnone hO.plain hwaited
    · rename_i hjoinable
      -- to the dead queue
      obtain ⟨hE, hplace⟩ := hE.append hnone .pthDQ
      have hE := hE.setTcb { (s.append .pthDQ cur).tcb cur with state := .dead }
      have hdead : ∀ p : Phase T, p = .events ∨ p = .top →
          Inv { (s.append .pthDQ cur).setState cur .dead with phase := p } := by
        intro p hp
        refine inv_requeued hE hph hp hmem hplace ?_ ?_ ?_
        · simp [Sys.setState, Sys.setTcb, Home]
        · simpa [Sys.append, Sys.setState, Sys.setTcb] using hO.plain
        · simp [Sys.append, Sys.setState, Sys.setTcb, hwaited]
      simp only
      split
      · exact hdead _ (Or.inl rfl)
      rename_i tmp hjoined
      split
      · exact hdead _ (Or.inl rfl)
      · -- the joining thread is marked as waiting, so it is in the wait queue
        rename_i hw
        have htcb := setState_tcb (s.append .pthDQ cur) cur
        refine inv_wakeUp (hdead _ (Or.inr rfl))
          ((hdead _ (Or.inr rfl)).each tmp |>.waited (by simp [hw])) ?_
        refine (htcb tmp .dead).1.trans_lt (hok.joined hph hst (by simpa using hjoinable)
          ((htcb cur .dead).2.2.symm.trans hjoined) ?_)
        rw [← show _ = (s.tcb tmp).waitedNative from (htcb tmp .dead).2.1, hw]
        simp
  case h_3 hne hne' =>
    simp only [hO.plain.1, Bool.false_eq_true, if_false]
    split
    case isTrue hst =>
      obtain ⟨hE, hplace⟩ := hE.append hnone waitQueue
      have hE := hE.setTcb { (s.append waitQueue cur).tcb cur with waitedNative := some () }
      refine inv_requeued hE hph (Or.inl rfl) hmem hplace ?_ ?_ (fun _ => rfl)
      · simp [Sys.append, Sys.setWaitedNative, Sys.setTcb, hst, Home]
      · simpa [Sys.append, Sys.setWaitedNative, Sys.setTcb] using hO.plain
    case isFalse hst =>
      obtain ⟨hE, hplace⟩ := hE.append hnone readyQueue
      have hready := hstate.resolve_right (not_or.mpr ⟨hst, hne'⟩)
      refine inv_requeued hE hph (Or.inl rfl) hmem hplace ?_ hO.plain ?_
      · simp [Sys.append, hready, Home]
      · simp [Sys.append, hwaited]

theorem inv_moveNewThread (hI : Inv s) (hph : s.phase = .top) :
    Inv (moveNewThread s) ∧ (moveNewThread s).phase = .top := by
  unfold moveNewThread
  split
  case h_1 => exact ⟨hI, hph⟩
  case h_2 t hf =>
    have hO := hI.each t
    obtain ⟨hr, hmem, hwaited⟩ := hO.settled (hI.heap.place_of_first hf) (by simp)
    obtain ⟨hE, hnone⟩ := (hI.except t).delete
    have hE := hE.setTcb { (s.delete t).tcb t with state := .ready }
    obtain ⟨hE, hplace⟩ := hE.prependSecond hnone readyQueue
    refine ⟨hE.close_off hr hmem hplace ?_ ?_ ?_, hph⟩
    · simp [Sys.setTcb, Home]
    · simpa [Sys.delete, Sys.setTcb] using hO.plain
    · simp [Sys.delete, Sys.setTcb, hwaited]

theorem inv_moveNewThreads (fuel : Nat) (hI : Inv s) (hph : s.phase = .top) :
    Inv (moveNewThreads fuel s) ∧ (moveNewThreads fuel s).phase = .top := by
  induction fuel generalizing s with
  | zero => exact ⟨hI, hph⟩
  | succ fuel ih =>
    unfold moveNewThreads
    split
    · obtain ⟨hI', hph'⟩ := inv_moveNewThread hI hph
      exact ih hI' hph'
    · exact ⟨hI, hph⟩

theorem inv_schedTop (hI : Inv s) (hph : s.phase = .top) : Inv (schedTop s) := by
  obtain ⟨hI₁, hph₁⟩ := inv_moveNewThreads (pqueueTotal s.heap newQueue) hI hph
  unfold schedTop
  generalize moveNewThreads (pqueueTotal s.heap newQueue) s = s₁ at hI₁ hph₁
  have hRQ : schedRQ () () false = readyQueue := rfl
  simp only [hRQ]
  rcases hf : pqueueFirstNode s₁.heap readyQueue with _ | t
  · rw [selectThread_of_empty hf]
    exact ⟨hI₁.heap, hI₁.nodup, fun u =>
      (hI₁.each u).congr (by simp [role, hph₁]) Iff.rfl rfl rfl⟩
  · -- no thread is bound, so the head is selected
    have hp := hI₁.heap.place_of_first hf
    have hO := hI₁.each t
    obtain ⟨-, hmem, hwaited⟩ := hO.settled hp (by simp)
    have hready : (s₁.tcb t).state = .ready := by
      have hh := hO.home_of_place hp
      cases hst : (s₁.tcb t).state <;> rw [hst] at hh <;> simp [Home] at hh ⊢
    rw [selectThread_of_first hf]
    simp only [hO.plain.2]
    obtain ⟨hE, hnone⟩ := (hI₁.except t).delete
    have hothers : Except { s₁.delete t with phase := .running t } t :=
      ⟨hE.heap, hE.nodup, fun u hu =>
        (hE.others u hu).congr (by simp [role, hu, Sys.delete, hph₁]) Iff.rfl rfl rfl⟩
    exact hothers.close ⟨hO.plain, fun hw => absurd hwaited hw, fun _ => ⟨hmem, hnone, hready⟩,
      by simp [role], by simp [role], fun hno => absurd hmem hno⟩

/-! ## Runs -/

theorem inv_byRunning {f : T → Option (Sys T)} (hs : byRunning s f = some s')
    (hf : ∀ cur, s.phase = .running cur → f cur = some s' → Inv s') : Inv s' := by
  unfold byRunning at hs
  split at hs
  next cur hph =>
    split at hs
    · cases hs
    · exact hf cur hph hs
  · cases hs

/-- Every step keeps the invariant, but for a thread that is woken with a priority of `PRIO_TOTAL`
or more: `__pqueue_append_node` then links its node behind the last level. -/
theorem step_inv {a : Action T} (hI : Inv s) (hok : InRange s a)
    (hs : step main s a = some s') : Inv s' := by
  cases a with
  | spawn u attr =>
    refine inv_byRunning hs fun cur _ hf => ?_
    obtain ⟨hu, ⟨⟩⟩ := Option.ite_none_left_eq_some.mp hf
    exact inv_spawn hI hu attr
  | yield dest =>
    refine inv_byRunning hs fun cur hph hf => ?_
    obtain ⟨-, ⟨⟩⟩ := Option.ite_none_right_eq_some.mp hf
    exact inv_yield hI hph dest
  | wait =>
    refine inv_byRunning hs fun cur hph hf => ?_
    cases hf
    exact inv_wait hI hph
  | join thread =>
    refine inv_byRunning hs fun cur hph hf => ?_
    cases hf
    exact inv_join hI hph thread
  | joinEnd =>
    simp only [step] at hs
    split at hs
    · split at hs <;> cases hs
      exact (inv_joinEnd hI _).setPc _ _
    · cases hs
  | suspend t =>
    refine inv_byRunning hs fun cur _ hf => ?_
    obtain ⟨-, ⟨⟩⟩ := Option.ite_none_right_eq_some.mp hf
    exact inv_suspend hI
  | resume t =>
    refine inv_byRunning hs fun cur hph hf => ?_
    obtain ⟨-, ⟨⟩⟩ := Option.ite_none_right_eq_some.mp hf
    exact inv_resume hI hph
  | cancel t =>
    refine inv_byRunning hs fun cur _ hf => ?_
    obtain ⟨⟨b, s₁⟩, hs₁, rfl⟩ := Option.map_eq_some_iff.mp hf
    exact inv_cancel hI hs₁
  | exit waitFlag => exact inv_byRunning hs fun cur _ hf => inv_exit hI hf
  | exitEnd =>
    refine inv_byRunning hs fun cur hph hf => ?_
    obtain ⟨-, ⟨⟩⟩ := Option.ite_none_right_eq_some.mp hf
    exact inv_exitEnd hI hph
  | schedBack left =>
    simp only [step] at hs
    split at hs <;> cases hs
    case h_1.refl hph => exact inv_schedBack hI hph hok
  | wake t left =>
    obtain ⟨hw, ⟨⟩⟩ := Option.ite_none_right_eq_some.mp hs
    exact inv_wakeUp hI (hI.heap.contains_iff.mp hw.2) (hok t rfl)
  | eventsDone =>
    obtain ⟨hph, ⟨⟩⟩ := Option.ite_none_right_eq_some.mp hs
    exact ⟨hI.heap, hI.nodup, fun u => (hI.each u).congr (by simp [role, hph]) Iff.rfl rfl rfl⟩
  | schedTop =>
    obtain ⟨hph, ⟨⟩⟩ := Option.ite_none_right_eq_some.mp hs
    exact inv_schedTop hI hph

theorem initSys_inv (main : T) (priority : Nat) : Inv (initSys main priority) := by
  refine inv_spawn ⟨⟨_, initHeap_initialised.repr⟩, List.nodup_nil, fun t => ?_⟩ (by simp) _
  refine ⟨⟨rfl, rfl⟩, ?_, ?_, ?_, ?_, ?_⟩ <;> simp [role, initHeap, nodeZero, Heap.place]

/-- The queues a thread may be linked in. -/
def threadQueues : List (QName Unit) := [newQueue, readyQueue, waitQueue, .pthSQ, .pthDQ]

/-- The thread the machine is in, or that has just switched to the scheduler. -/
def IsRunning (s : Sys T) (t : T) : Prop := s.phase = .running t ∨ s.phase = .back t

/-- The thread is in exactly one place, and its state says which. -/
structure InOnePlace (s : Sys T) (L : Levels (QName Unit) T) (t : T) : Prop where
  place   : (IsRunning s t ∧ ∀ q, ¬ LinkedIn L q t) ∨
              (¬ IsRunning s t ∧ ∃! q, LinkedIn L q t ∧ q ∈ threadQueues)
  new     : (s.tcb t).state = .new → LinkedIn L newQueue t ∨ LinkedIn L .pthSQ t
  waiting : (s.tcb t).state = .waiting →
              IsRunning s t ∨ LinkedIn L waitQueue t ∨ LinkedIn L .pthSQ t
  ready   : (s.tcb t).state = .ready →
              IsRunning s t ∨ LinkedIn L readyQueue t ∨ LinkedIn L .pthSQ t
  dead    : (s.tcb t).state = .dead ↔ LinkedIn L .pthDQ t

theorem role_off_iff : role s t = .off ↔ ¬ IsRunning s t := by
  unfold role IsRunning
  cases hph : s.phase with
  | running c | back c => by_cases hc : t = c <;> simp [hc, eq_comm]
  | events | top => simp

theorem home_mem_threadQueues {st : PthState} (hh : Home q st) : q ∈ threadQueues := by
  cases st with
  | exit => exact hh.elim
  | dead =>
    cases hh
    decide
  | new | ready | waiting => rcases hh with rfl | rfl <;> decide

theorem Inv.inOnePlace {L : Levels (QName Unit) T} (hI : Inv s) (hR : Represents s.heap L)
    (ht : t ∈ s.threads) : InOnePlace s L t := by
  have hO := hI.each t
  have hlink : ∀ {q}, LinkedIn L q t ↔ s.heap.place t = some q := fun {q} =>
    hR.place_iff.symm
  by_cases hrun : IsRunning s t
  · -- unlinked, and neither new nor dead
    have hnone : s.heap.place t = none ∧ (s.tcb t).state ≠ .new ∧ (s.tcb t).state ≠ .dead := by
      rcases hrun with hph | hph
      · obtain ⟨-, hnone, hst⟩ := hO.running (role_running hph)
        simp [hnone, hst]
      · obtain ⟨-, hnone, hst⟩ := hO.back (role_back hph)
        rcases hst with hst | hst | hst <;> simp [hnone, hst]
    refine ⟨Or.inl ⟨hrun, fun q hq => ?_⟩, ?_, fun _ => Or.inl hrun, fun _ => Or.inl hrun, ?_⟩
    · rw [hlink, hnone.1] at hq
      cases hq
    · exact fun h => absurd h hnone.2.1
    · simp [hlink, hnone.1, hnone.2.2]
  · obtain ⟨q, hq, hh⟩ := hO.home (role_off_iff.mpr hrun) ht
    refine ⟨Or.inr ⟨hrun, q, ⟨hlink.mpr hq, home_mem_threadQueues hh⟩, ?_⟩, ?_, ?_, ?_, ?_⟩
    · rintro q' ⟨hq', -⟩
      rw [hlink, hq] at hq'
      exact (Option.some.inj hq').symm
    · intro hst
      rw [hst] at hh
      rcases hh with rfl | rfl
      · exact Or.inl (hlink.mpr hq)
      · exact Or.inr (hlink.mpr hq)
    · intro hst
      rw [hst] at hh
      rcases hh with rfl | rfl
      · exact Or.inr (Or.inl (hlink.mpr hq))
      · exact Or.inr (Or.inr (hlink.mpr hq))
    · intro hst
      rw [hst] at hh
      rcases hh with rfl | rfl
      · exact Or.inr (Or.inl (hlink.mpr hq))
      · exact Or.inr (Or.inr (hlink.mpr hq))
    · rw [hlink, hq]
      cases hst : (s.tcb t).state <;> rw [hst] at hh
      case exit => exact hh.elim
      case dead => simp [show q = .pthDQ from hh]
      all_goals rcases hh with rfl | rfl <;> simp

theorem reachable_inv {priority : Nat}
    (hs : Reachable (step main) InRange (· = initSys main priority) s) : Inv s := by
  refine hs.invariant ?_ fun s a s' hI hok hstep => step_inv hI hok hstep
  rintro s rfl
  exact initSys_inv main priority

/-- **No thread is lost on one native thread**, as long as the threads that are woken have a
priority below `PRIO_TOTAL`: every thread on `pth_threads_queue` is the running thread or is linked
in exactly one queue, the one (or the suspend queue) that its state asks for; and nothing else is
linked. -/
theorem threads_conserved (main : T) (priority : Nat) (s : Sys T)
    (hs : Reachable (step main) InRange (· = initSys main priority) s) :
    ∃ L, Represents s.heap L ∧ (∀ t ∈ s.threads, InOnePlace s L t) ∧
      ∀ t q, LinkedIn L q t → t ∈ s.threads := by
  have hI := reachable_inv hs
  obtain ⟨L, hR⟩ := hI.heap
  refine ⟨L, hR, fun t ht => hI.inOnePlace hR ht, fun t q hq => ?_⟩
  exact ((hI.each t).role_of_place (hR.place_iff.mpr hq)).2

/-- Main starts, spawns thread 1 and waits for it; thread 1 runs and exits. -/
def joinRun : List (Action Nat) :=
  [.schedTop, .spawn 1 ⟨false, true, true, false, 20⟩, .join (some 1), .schedBack initHeap,
    .eventsDone, .schedTop, .exit true, .exitEnd, .schedBack initHeap, .schedTop]

theorem threads_conserved_joinRun :
    ∃ s, runOk (step 0) InRange (initSys 0 20) joinRun = some s ∧ s.phase = .running 0 ∧
      ∃ L, Represents s.heap L ∧ (∀ t ∈ s.threads, InOnePlace s L t) ∧
        ∀ t q, LinkedIn L q t → t ∈ s.threads := by
  refine exists_and_of_any (fun _ => id) (by decide +kernel) fun s hs _ => ?_
  exact threads_conserved 0 20 s (reachable_of_runOk (.init rfl) hs)

/-- Main spawns threads 1 and 2 with the given priorities, and all three wait. -/
def allWait (p₁ p₂ : Nat) : List (Action Nat) :=
  [.schedTop, .spawn 1 ⟨false, true, true, false, p₁⟩, .spawn 2 ⟨false, true, true, false, p₂⟩,
    .wait, .schedBack initHeap, .eventsDone, .schedTop, .wait, .schedBack initHeap, .eventsDone,
    .schedTop, .wait, .schedBack initHeap]

/-- `__pqueue_append_node` of the node of `t`, which is at `addr`, with priority `PRIO_TOTAL`. The
words behind `queue[]` are `total` and `slot[0]`: the value of `slot[0]` is taken for the last node
of the list, and `addr` is stored there. That last node is outside the queues. -/
def appendPast (h : Heap (QName Unit) T) (q : QName Unit) (t : T) (addr : BitVec 32) :
    Heap (QName Unit) T :=
  let h := h.setTotal q ((h.pqueue q).total + 1)
  let h := h.setBit q prioTotal
  let h := { h with links := h.links.setNext (.node t) (.head q prioTotal) }
  let slot := (h.pqueue q).bitmap.slot
  let h := h.setPqueue q { h.pqueue q with bitmap := ⟨Function.update slot 0 addr⟩ }
  nodePqueueSet h t (some q)

theorem appendPast_unlisted {h : Heap (QName Unit) T} {addr : BitVec 32} {q' : QName Unit} {p : Nat}
    {ts : List T} (hp : p < prioTotal)
    (hr : LinkedRing.IsRing (appendPast h q t addr).links (.head q' p) (ts.map .node)) :
    t ∉ ts := by
  have hnext : (appendPast h q t addr).links.next (.node t) = .head q prioTotal := by
    simp [appendPast, nodePqueueSet, LinkedRing.Links.setNext, Heap.setPqueue]
  intro ht
  obtain ⟨as, bs, rfl⟩ := List.append_of_mem ht
  rw [List.map_append, List.map_cons] at hr
  have hmid := hnext.symm.trans hr.next_mid
  cases bs with
  | nil =>
    cases hmid
    exact lt_irrefl _ hp
  | cons b bs => cases hmid

/-- Thread 1 is ready at level 30, so that `slot[0]` is 0x40000000, which may be the address of
mapped memory. Then thread 2 is woken with priority 140: it is ready, it is not the running thread,
and it is in the list of no level of any queue. -/
theorem wake_past_levels :
    ∃ s : Sys Nat, Reachable (step 0) Always (· = initSys 0 20) s ∧
      (s.heap.pqueue readyQueue).bitmap.slot 0 = 0x40000000 ∧ (s.tcb 2).priority = 140 ∧
      ∀ addr, ∃ s', step 0 s (.wake 2 (appendPast
          (pqueueNodePrioritySet (pqueueDeleteNode s.heap 2) 2 140) readyQueue 2 addr)) = some s' ∧
        2 ∈ s'.threads ∧ (s'.tcb 2).state = .ready ∧ ¬ IsRunning s' 2 ∧
        ∀ (q : QName Unit) (p : Nat) (ts : List Nat), p < prioTotal →
          LinkedRing.IsRing s'.heap.links (.head q p) (ts.map .node) → 2 ∉ ts := by
  obtain ⟨s, hs, hslot, hprio, hph, hcont, hmem⟩ :
      ∃ s, run (step 0) (initSys 0 20) (allWait 30 140 ++ [.wake 1 initHeap]) = some s ∧
        (s.heap.pqueue readyQueue).bitmap.slot 0 = 0x40000000 ∧ (s.tcb 2).priority = 140 ∧
        s.phase = .events ∧ pqueueContains s.heap waitQueue 2 = true ∧ 2 ∈ s.threads :=
    exists_of_any (by decide +kernel)
  have hreach : Reachable (step 0) Always (· = initSys 0 20) s := reachable_of_run (.init rfl) hs
  refine ⟨s, hreach, hslot, hprio, fun addr => ⟨_, if_pos ⟨hph, hcont⟩, ?_⟩⟩
  have hpast : ¬ (((((s.delete 2).setWaitedNative 2 none).setState 2 .ready).tcb 2).priority <
      prioTotal) := by
    simp [Sys.setState, Sys.setWaitedNative, Sys.setTcb, Sys.delete, hprio, prioTotal]
  simp only [wakeUp, eprioRecalculateAppend, if_neg hpast]
  refine ⟨hmem, by simp [Sys.setState, Sys.setTcb], ?_, fun q p ts hp hr => ?_⟩
  · rintro (hrun | hback)
    · cases hph.symm.trans hrun
    · cases hph.symm.trans hback
  · exact appendPast_unlisted hp hr

/-- **Dispatch.** From the top of its loop, the scheduler switches into a ready thread and leaves no
thread of a higher priority in the ready queue, or it finds that queue empty, as long as the threads
that are woken have a priority below `PRIO_TOTAL`. -/
theorem dispatch_highest (main : T) (priority : Nat) (s s' : Sys T)
    (hs : Reachable (step main) InRange (· = initSys main priority) s)
    (hstep : step main s .schedTop = some s') :
    ∃ L, Represents s'.heap L ∧
      ((∃ t, s'.phase = .running t ∧ (s'.tcb t).state = .ready ∧
          ∀ p, (s'.heap.node t).priority < p → L readyQueue p = []) ∨
        s'.phase = .events ∧ ∀ p, L readyQueue p = []) := by
  have hI := reachable_inv hs
  have hI' := step_inv hI (by simp [InRange, woken]) hstep
  obtain ⟨htop, ⟨⟩⟩ := Option.ite_none_right_eq_some.mp hstep
  obtain ⟨hI₁, -⟩ := inv_moveNewThreads (pqueueTotal s.heap newQueue) hI htop
  unfold schedTop at hI' ⊢
  generalize moveNewThreads (pqueueTotal s.heap newQueue) s = s₁ at hI₁ hI'
  have hRQ : schedRQ () () false = readyQueue := rfl
  simp only [hRQ] at hI' ⊢
  obtain ⟨L, hR⟩ := hI₁.heap
  rcases pqueueFirstNode_spec hR readyQueue with ⟨hnone, hempty⟩ | ⟨t, hfirst, p, ts, hp, hhigh⟩
  · rw [selectThread_of_empty hnone]
    exact ⟨L, hR, Or.inr ⟨rfl, hempty⟩⟩
  · have ht : t ∈ L readyQueue p := hp ▸ List.mem_cons_self
    simp only [selectThread_of_first hfirst, (hI₁.each t).plain.2] at hI' ⊢
    refine ⟨_, pqueueDeleteNode_repr hR ht,
      Or.inl ⟨t, rfl, (hI'.running rfl).2.2.1, fun p' hp' => ?_⟩⟩
    -- the thread keeps its level while it is taken out
    have hprio := pqueueDeleteNode_node.2.trans ((hR.placed.mem readyQueue p t).mp ht).2.2
    have hlt : p < p' := hprio ▸ hp'
    rw [Levels.set_apply, if_neg fun he => hlt.ne' he.2, hhigh p' hlt]

/-- All three threads have been woken, main with 20, thread 1 with 25 and thread 2 with 30. -/
theorem dispatch_highest_woken :
    ∃ s s' : Sys Nat, runOk (step 0) InRange (initSys 0 20)
        (allWait 25 30 ++ [.wake 0 initHeap, .wake 1 initHeap, .wake 2 initHeap, .eventsDone]) =
          some s ∧
      step 0 s .schedTop = some s' ∧ pqueueTotal s'.heap readyQueue = 2 ∧
      ∃ L, Represents s'.heap L ∧
        ((∃ t, s'.phase = .running t ∧ (s'.tcb t).state = .ready ∧
            ∀ p, (s'.heap.node t).priority < p → L readyQueue p = []) ∨
          s'.phase = .events ∧ ∀ p, L readyQueue p = []) := by
  obtain ⟨s, hs, hph, htotal⟩ : ∃ s, runOk (step 0) InRange (initSys 0 20)
      (allWait 25 30 ++ [.wake 0 initHeap, .wake 1 initHeap, .wake 2 initHeap, .eventsDone]) =
        some s ∧ s.phase = .top ∧ pqueueTotal (schedTop s).heap readyQueue = 2 :=
    exists_of_any (by decide +kernel)
  have hstep : step 0 s .schedTop = some (schedTop s) := if_pos hph
  exact ⟨s, _, hs, hstep, htotal,
    dispatch_highest 0 20 s _ (reachable_of_runOk (.init rfl) hs) hstep⟩

end Ngpt.Sched.Single
