import Ngpt.Sync.CondMutex
import Ngpt.Sync.Signals

/-!
# ngpt — condition variables, as their callers see them

What a caller of the mutexes and the condition variable can rely on: what the steps of
the others leave of its place and of its mutex (`Frame`), and where its own steps lead it
while it is in `pth_cond_await` or in a broadcast.
-/

namespace Ngpt.Sync.Condvar

open Function Transition

variable {Mid Tid D : Type}

/-! ## The steps of the others -/

/-- What others leave of a place: they may end a wait for the condition, and that of a
broadcast for its waiters. -/
inductive Pc.Stays (pc pc' : Pc Mid Tid D) : Prop
  | same : pc' = pc → Stays pc pc'
  | woken (m : Mid) (extra occurred elapsed : Bool) : pc = .waiting m extra →
      pc' = .ready m occurred elapsed → Stays pc pc'
  | drained : pc = .drain false → pc' = .notified true → Stays pc pc'

/-- What a step of the others leaves of the thread `u`. -/
structure Frame (s s' : State Mid Tid D) (u : Tid) : Prop where
  pc    : (s.pc u).Stays (s'.pc u)
  call  : s'.mutexes.pc u = s.mutexes.pc u
  solo  : s'.solo u = s.solo u
  owned : ∀ m, (s.mutexes.mem.mutex m).OwnedOnce u → (s'.mutexes.mem.mutex m).OwnedOnce u
  other : ∀ m, (s.mutexes.mem.mutex m).owner ≠ some u → (s'.mutexes.mem.mutex m).owner ≠ some u

variable {s s' : State Mid Tid D} {t u : Tid} {m : Mid} {a : Action Mid Tid D} {isBound : Bool}
  {extra broadcast bounded : Bool} {tmp : Tid}

theorem Pc.Stays.outside {pc pc' : Pc Mid Tid D} (h : pc.Stays pc') (hout : pc.outside = true) :
    pc' = pc := by
  cases h with
  | same h => exact h
  | woken _ _ _ _ h | drained h => simp [h, Pc.outside] at hout

theorem Frame.of_same (hsame : Same s.mutexes.mem s'.mutexes.mem)
    (hpc : (s.pc u).Stays (s'.pc u)) (hcall : s'.mutexes.pc u = s.mutexes.pc u)
    (hsolo : s'.solo u = s.solo u) : Frame s s' u := by
  refine ⟨hpc, hcall, hsolo, fun m h => ?_, fun m h => ?_⟩
  · exact ⟨(hsame.owner m).trans h.1, (hsame.count m).trans h.2⟩
  · rw [hsame.owner m]
    exact h

/-- What a piece of the condition code leaves of the mutexes and of the other threads. -/
structure Aside (s s' : State Mid Tid D) (t : Tid) : Prop where
  same   : Same s.mutexes.mem s'.mutexes.mem
  others : ∀ u, u ≠ t → (s.pc u).Stays (s'.pc u) ∧ s'.mutexes.pc u = s.mutexes.pc u ∧
    s'.solo u = s.solo u

theorem Aside.frame (h : Aside s s' t) (hut : u ≠ t) : Frame s s' u := by
  obtain ⟨hpc, hcall, hsolo⟩ := h.others u hut
  exact .of_same h.same hpc hcall hsolo

section

variable [DecidableEq Tid]

theorem stays_wakeUp {occurred : Bool} (h : s'.pc = s.pc) :
    (s.pc u).Stays ((s'.wakeUp t occurred extra).pc u) := by
  rw [← h]
  unfold State.wakeUp
  split
  next m e hpc =>
    by_cases hut : u = t
    · exact .woken m e occurred extra (hut ▸ hpc) (by simp [State.goto, hut])
    · exact .same (by simp [State.goto, hut])
  · exact .same rfl

theorem wakeUp_solo {occurred : Bool} : (s.wakeUp t occurred extra).solo = s.solo := by
  unfold State.wakeUp
  split <;> rfl

variable {pc : Pc Mid Tid D} {c : Call Mid}

theorem Aside.goto {mem : Mem (Obj Mid) Tid D}
    (hsame : Same s.mutexes.mem mem) : Aside s ((s.setMem mem).goto t pc) t :=
  ⟨hsame, fun _ hu => ⟨.same (update_of_ne hu _ _), rfl, rfl⟩⟩

theorem aside_goto (hmem : s'.mutexes = s.mutexes)
    (hpc : s'.pc = update s.pc t pc) (hsolo : ∀ u, u ≠ t → s'.solo u = s.solo u) :
    Aside s s' t := by
  refine ⟨by rw [hmem]; exact Same.refl _, fun u hu => ⟨.same ?_, by rw [hmem], hsolo u hu⟩⟩
  rw [hpc, update_of_ne hu]

theorem aside_callMutex {mem : Mem (Obj Mid) Tid D} {q : Sync.Pc (Obj Mid)}
    (hsame : Same s.mutexes.mem mem)
    (hmutexes : s'.mutexes = { s.mutexes.goto t q with mem := mem })
    (hpc : s'.pc = update s.pc t pc) (hsolo : s'.solo = s.solo) : Aside s s' t := by
  refine ⟨by rw [hmutexes]; exact hsame, fun u hu => ⟨.same ?_, ?_, by rw [hsolo]⟩⟩
  · rw [hpc, update_of_ne hu]
  · rw [hmutexes]
    exact update_of_ne hu _ _

theorem aside_readyWaiter : Aside s ((s.readyWaiter broadcast tmp).goto t pc) t := by
  unfold State.readyWaiter
  split
  · exact aside_goto rfl rfl fun _ _ => rfl
  · refine ⟨?_, fun u hu => ⟨?_, ?_, ?_⟩⟩
    · simp only [State.goto, wakeUp_mutexes]
      exact same_readyWaiter _ tmp
    · simp only [State.goto, update_of_ne hu]
      exact stays_wakeUp rfl
    · simp only [State.goto, wakeUp_mutexes]
      rfl
    · simp only [State.goto, wakeUp_solo]
      rfl

theorem aside_call : Aside s (s.call t c) t := by
  cases c with
  | acquire | release => exact aside_callMutex (Same.refl _) rfl rfl rfl
  | await | notify => exact aside_goto rfl rfl fun _ _ => rfl

theorem call_pc_of_ne (hut : u ≠ t) : (s.call t c).pc u = s.pc u := by
  cases c <;> exact update_of_ne hut _ _

theorem call_told : (s.call t c).told = s.told := by
  cases c <;> rfl

theorem call_not_counted : ((s.call t c).pc t).counted = false := by
  cases c <;> simp [State.call, State.callMutex, State.goto, Pc.counted]

variable [DecidableEq D]

theorem aside_visit : Aside s (s.visit t broadcast bounded tmp) t := by
  simp only [State.visit]
  cases hb : (s.mutexes.mem.thread tmp).boundnative with
  | some ds =>
    cases broadcast with
    | true => exact .goto (same_pipe _ _)
    | false =>
      exact ⟨same_pipe _ _, fun u hu => ⟨.same (update_of_ne hu _ _), rfl, rfl⟩⟩
  | none => exact aside_readyWaiter

theorem aside_of_move (h : Move s t s') : Aside s s' t := by
  cases h with
  | refuse | again | reacquire | fail | start | nobody | walked | drained | block | raise | count =>
    exact aside_goto rfl rfl fun _ _ => rfl
  | accept => exact aside_goto rfl rfl fun u hu => update_of_ne hu _ _
  | enter _ _ hsame | leave _ _ hsame => exact aside_callMutex hsame rfl rfl rfl
  | visit => exact aside_visit
  | nudge _ hsame => exact .goto hsame

theorem frame_of_step [DecidableEq Mid] (hI : Inv s.mutexes) (hs : s.step a = some s')
    (hu : a.actor ≠ some u) : Frame s s' u := by
  cases change_of_step hs with
  | call => exact aside_call.frame fun h => hu (by rw [h]; rfl)
  | @mutex t occurred ms hgo =>
    have hut : t ≠ u := fun h => hu (by rw [← h]; rfl)
    have hp := piece_of_go hgo
    refine ⟨.same rfl, ?_, rfl, fun m => hp.ownedOnce hI hut, fun m => hp.not_owner hut⟩
    cases hp <;> simp [Sys.goto, hut.symm]
  | go hmove => exact (aside_of_move hmove).frame fun h => hu (by rw [h]; rfl)
  | woken _ _ hsame =>
    refine .of_same ?_ (stays_wakeUp rfl) ?_ ?_
    · rw [wakeUp_mutexes]
      exact hsame
    · rw [wakeUp_mutexes]
      rfl
    · rw [wakeUp_solo]
      rfl
  | examined => exact .of_same (Same.refl _) (.same rfl) rfl rfl
  | @drained _ t _ hpc =>
    by_cases hut : u = t
    · subst hut
      exact .of_same (Same.refl _) (.drained hpc (update_self ..)) rfl rfl
    · exact .of_same (Same.refl _) (.same (update_of_ne hut _ _)) rfl rfl
  | env _ hsame => exact .of_same hsame (.same rfl) rfl rfl

end

/-! ## The steps of the caller -/

/-- A thread in `pth_cond_await`, past its checks, or back from it with `TRUE`. -/
def Pc.awaiting : Pc Mid Tid D → Option Mid
  | .enter m _ _ | .release m _ _ | .waiting m _ | .ready m _ _ | .select m | .reacquire m
  | .awaited m true => some m
  | _ => none

/-- A thread in a broadcast, or back from it with `TRUE`. -/
def Pc.broadcasts : Pc Mid Tid D → Bool
  | .notify broadcast _ | .signal broadcast _ | .walk broadcast _ _ | .count broadcast _ _
  | .nudge broadcast _ _ => broadcast
  | .drain _ | .notified true => true
  | _ => false

/-- A thread in a broadcast that has not set the flags yet. -/
def Pc.raising : Pc Mid Tid D → Bool
  | .notify broadcast _ | .signal broadcast _ => broadcast
  | _ => false

/-- A thread in `pth_cond_await` that is not counted in `cn_waiters` yet. -/
def Pc.atEntry : Pc Mid Tid D → Bool
  | .await _ _ _ | .enter _ _ _ => true
  | _ => false

theorem Pc.Stays.awaiting {pc pc' : Pc Mid Tid D} (h : pc.Stays pc')
    (hpc : pc.awaiting = some m) : pc'.awaiting = some m := by
  cases h with
  | same h => rwa [h]
  | woken k _ _ _ h h' =>
    rw [h] at hpc
    rw [h']
    exact hpc
  | drained h => simp [h, Pc.awaiting] at hpc

theorem Pc.Stays.broadcasts {pc pc' : Pc Mid Tid D} (h : pc.Stays pc')
    (hpc : pc.broadcasts = true) : pc'.broadcasts = true := by
  cases h with
  | same h => rwa [h]
  | woken _ _ _ _ h => simp [h, Pc.broadcasts] at hpc
  | drained _ h => rw [h]; rfl

theorem Waits.owned_of_enter (h : Waits s)
    (hpc : s.pc t = .enter m extra bounded) (hsolo : s.solo t = true) :
    (s.mutexes.mem.mutex (.mutex m)).OwnedOnce t := by
  have hholds := h.holds t
  rw [hpc] at hholds
  exact (hholds.2 hsolo).2

theorem Waits.owned_of_awaited (h : Waits s) (hpc : s.pc t = .awaited m true)
    (hsolo : s.solo t = true) :
    (s.mutexes.pc t).outside = true ∧ (s.mutexes.mem.mutex (.mutex m)).OwnedOnce t := by
  have hholds := h.holds t
  rw [hpc] at hholds
  exact ⟨hholds.1, (hholds.2 hsolo).2⟩

variable [DecidableEq Tid]

variable {v : View Tid}

theorem Effect.initialized (he : Effect s a v) : v.cond.initialized = s.cond.initialized := by
  cases he with
  | quiet | enter | handled | counted | raised => rfl
  | leave =>
    simp only [Cond.countOut]
    split
    · split <;> rfl
    · rfl

theorem Effect.counted_before (he : Effect s a v) (hu : (v.place u).1 = true) :
    (s.pc u).counted = true ∨ (a.actor = some u ∧ (s.pc u).entering = true) := by
  have hplace : ∀ {t : Tid} {n : Option Bool}, (update s.view.place t (false, n) u).1 = true →
      (s.pc u).counted = true := by
    intro t n hu
    by_cases hut : u = t
    · simp [hut] at hu
    · rwa [update_of_ne hut] at hu
  cases he with
  | quiet | handled => exact Or.inl hu
  | leave | raised | counted => exact Or.inl (hplace hu)
  | @enter t _ _ _ _ ha hpc =>
    by_cases hut : u = t
    · exact Or.inr ⟨by rw [ha, hut]; rfl, by rw [hut, hpc]; rfl⟩
    · simp only [update_of_ne hut] at hu
      exact Or.inl hu

theorem Told.kept (h : Told s.view) (he : Effect s a v) (hu : u ∈ s.told)
    (hcounted : (v.place u).1 = true) : u ∈ v.told := by
  cases he with
  | quiet | handled | counted | enter => exact hu
  | @leave t =>
    have hut : u ≠ t := by
      rintro rfl
      simp at hcounted
    exact h.nodup.mem_erase_iff.mpr ⟨hut, hu⟩
  | @raised _ _ broadcast =>
    cases broadcast with
    | true => exact h.inside u hu
    | false => exact hu

theorem readyWaiter_mutexes_pc : (s.readyWaiter broadcast tmp).mutexes.pc = s.mutexes.pc := by
  unfold State.readyWaiter
  split
  · rfl
  · rw [wakeUp_mutexes]
    rfl

variable [DecidableEq D]

theorem Move.inside (h : Move s t s') : (s.pc t).outside = false := by
  cases h with
  | leave hq => rcases hq with hq | ⟨_, _, hq⟩ <;> rw [hq] <;> rfl
  | refuse hq | accept hq | enter hq | block hq | again hq | reacquire hq | fail hq | start hq
  | raise hq | nobody hq | visit hq | walked hq | count hq | nudge hq | drained hq => rw [hq]; rfl

theorem Move.await (h : Move s t s') (hpc : s.pc t = .await m extra bounded)
    (hinit : s.cond.initialized = true)
    (howned : (s.mutexes.mem.mutex (.mutex m)).OwnedOnce t) :
    (s'.pc t).awaiting = some m ∧ s'.solo t = true := by
  cases h with
  | @refuse k _ _ hq hcheck =>
    obtain ⟨rfl, -, -⟩ : m = k ∧ _ ∧ _ := by simpa using hpc.symm.trans hq
    simp [hinit, howned.1] at hcheck
  | @accept k _ _ hq _ =>
    obtain ⟨rfl, -, -⟩ : m = k ∧ _ ∧ _ := by simpa using hpc.symm.trans hq
    simp [State.goto, Pc.awaiting, howned.2]
  | leave hq => rcases hq with hq | ⟨_, _, hq⟩ <;> cases hpc.symm.trans hq
  | enter hq | block hq | again hq | reacquire hq | fail hq | start hq | raise hq | nobody hq
  | visit hq | walked hq | count hq | nudge hq | drained hq => cases hpc.symm.trans hq

theorem Move.awaiting (h : Move s t s') (hpc : (s.pc t).awaiting = some m) :
    (s'.pc t).awaiting = some m ∧ s'.solo t = s.solo t := by
  cases h with
  | enter hq | again hq | reacquire hq =>
    rw [hq] at hpc
    exact ⟨by simpa [State.callMutex, State.goto, Pc.awaiting] using hpc, rfl⟩
  | @block _ _ bounded _ hq =>
    rw [hq] at hpc
    exact ⟨by cases bounded <;> simpa [State.goto, Pc.awaiting] using hpc, rfl⟩
  | leave hq =>
    refine ⟨?_, rfl⟩
    rcases hq with hq | ⟨_, _, hq⟩ <;> rw [hq] at hpc <;>
      simpa [State.callMutex, Pc.awaiting] using hpc
  | refuse hq | accept hq | fail hq | start hq | raise hq | nobody hq | visit hq | walked hq
  | count hq | nudge hq | drained hq => simp [hq, Pc.awaiting] at hpc

theorem Move.atEntry (h : Move s t s') (hpc : (s'.pc t).atEntry = true) :
    (s.pc t).atEntry = true := by
  cases h with
  | refuse hq | accept hq | enter hq => rw [hq]; rfl
  | @block _ _ bounded =>
    cases bounded <;> simp [State.goto, Pc.atEntry] at hpc
  | raise _ _ _ hnext =>
    rcases hnext with ⟨_, rfl⟩ | rfl <;> simp [State.goto, Pc.atEntry] at hpc
  | @visit broadcast =>
    simp only [State.visit] at hpc
    split at hpc <;> cases broadcast <;> simp [State.goto, Pc.atEntry] at hpc
  | nudge _ _ hnext =>
    rcases hnext with rfl | ⟨_, rfl⟩ <;> simp [State.goto, Pc.atEntry] at hpc
  | _ =>
    simp [State.goto, State.callMutex, Pc.atEntry] at hpc

theorem Move.broadcasts (h : Move s t s') (hpc : (s.pc t).broadcasts = true)
    (hinit : s.cond.initialized = true) :
    (s'.pc t).broadcasts = true ∧ s'.mutexes.pc t = s.mutexes.pc t := by
  cases h with
  | fail _ hfalse => simp [hinit] at hfalse
  | start hq | walked hq | count hq =>
    rw [hq] at hpc
    exact ⟨by simpa [State.goto, Pc.broadcasts] using hpc, rfl⟩
  | nobody | drained => exact ⟨by simp [State.goto, Pc.broadcasts], rfl⟩
  | raise hq _ _ hnext =>
    rw [hq] at hpc
    refine ⟨?_, rfl⟩
    rcases hnext with ⟨_, rfl⟩ | rfl <;> simpa [State.goto, Pc.broadcasts] using hpc
  | @visit broadcast _ _ hq =>
    obtain rfl : broadcast = true := by simpa [hq, Pc.broadcasts] using hpc
    simp only [State.visit]
    split
    · exact ⟨by simp [State.goto, Pc.broadcasts], rfl⟩
    · exact ⟨by simp [State.goto, Pc.broadcasts], by simp [State.goto, readyWaiter_mutexes_pc]⟩
  | nudge _ _ hnext =>
    refine ⟨?_, rfl⟩
    rcases hnext with rfl | ⟨_, rfl⟩ <;> simp [State.goto, Pc.broadcasts]
  | leave hq => rcases hq with hq | ⟨_, _, hq⟩ <;> simp [hq, Pc.broadcasts] at hpc
  | refuse hq | accept hq | enter hq | block hq | again hq | reacquire hq =>
    simp [hq, Pc.broadcasts] at hpc

theorem Move.raising (h : Move s t s') (hpc : (s.pc t).raising = true)
    (hinit : s.cond.initialized = true) (hw : 0 < s.cond.waiters) :
    (s'.pc t).raising = true ∨ s'.told = s.inside := by
  cases h with
  | fail _ hfalse => simp [hinit] at hfalse
  | start hq =>
    rw [hq] at hpc
    exact Or.inl (by simpa [State.goto, Pc.raising] using hpc)
  | @raise broadcast _ _ hq =>
    obtain rfl : broadcast = true := by simpa [hq, Pc.raising] using hpc
    exact Or.inr (by simp)
  | nobody _ hnone => omega
  | leave hq => rcases hq with hq | ⟨_, _, hq⟩ <;> simp [hq, Pc.raising] at hpc
  | refuse hq | accept hq | enter hq | block hq | again hq | reacquire hq | visit hq | walked hq
  | count hq | nudge hq | drained hq => simp [hq, Pc.raising] at hpc

variable [DecidableEq Mid]

theorem atEntry_of_step (hI : Inv s.mutexes) (hcall : ∀ u c, a ≠ .call u c)
    (hs : s.step a = some s') (h : (s'.pc t).atEntry = true) : (s.pc t).atEntry = true := by
  by_cases hactor : a.actor = some t
  · cases change_of_step hs with
    | call => exact absurd rfl (hcall _ _)
    | mutex => exact h
    | go hmove =>
      cases hactor
      exact hmove.atEntry h
    | woken hnone | examined hnone | drained hnone | env hnone =>
      rw [hnone] at hactor
      cases hactor
  · cases (frame_of_step hI hs hactor).pc with
    | same hpc => rwa [hpc] at h
    | woken m extra occurred elapsed _ hpc | drained _ hpc => simp [hpc, Pc.atEntry] at h

theorem raising_step (hI : Inv s.mutexes) (hinit : s.cond.initialized = true)
    (hw : 0 < s.cond.waiters) (hu : (s.pc u).raising = true) (hs : s.step a = some s') :
    (s'.pc u).raising = true ∨ s'.told = s.inside := by
  by_cases hactor : a.actor = some u
  · cases change_of_step hs with
    | @call t c hout =>
      obtain rfl := Option.some.inj hactor
      cases hpc : s.pc t <;> simp [hpc, Pc.outside, Pc.raising] at hout hu
    | mutex => exact Or.inl hu
    | go hmove =>
      obtain rfl := Option.some.inj hactor
      exact hmove.raising hu hinit hw
    | woken hnone | examined hnone | drained hnone | env hnone =>
      rw [hnone] at hactor
      cases hactor
  · cases (frame_of_step hI hs hactor).pc with
    | same hpc => exact Or.inl (by rw [hpc]; exact hu)
    | woken m extra occurred elapsed hpc | drained hpc => simp [hpc, Pc.raising] at hu

end Ngpt.Sync.Condvar
