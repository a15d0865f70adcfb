import Ngpt.Sync.Condvar

/-!
# ngpt — signals and broadcasts of a condition variable

A notify is kept in three bits of `cn_state` and in `cn_wakecnt`, and a waiter that
leaves takes it back: the last waiter, or any waiter that finds `PTH_COND_HANDLED` set.
`Effect` says once what a step can do to these fields, to the waiters they count and to
`cn_lock`; what follows is derived from it.
-/

namespace Ngpt.Sync.Condvar

open Function Transition

variable {Mid Tid D : Type}

/-! ## What a step can do -/

/-- A thread that is counted in `cn_waiters`. -/
def Pc.counted : Pc Mid Tid D → Bool
  | .release _ _ _ | .waiting _ _ | .ready _ _ _ | .select _ => true
  | _ => false

/-- A thread that has `cn_lock`, with the kind of its notify. -/
def Pc.notifies : Pc Mid Tid D → Option Bool
  | .walk broadcast _ _ | .count broadcast _ _ => some broadcast
  | _ => none

/-- A thread whose next piece may count it out. -/
def Pc.returning : Pc Mid Tid D → Bool
  | .ready _ _ _ | .select _ => true
  | _ => false

/-- What the flags and counters depend on; `place` says of each thread whether it is
counted, and the kind of its notify. -/
structure View (Tid : Type) where
  cond   : Cond Tid
  inside : List Tid
  told   : List Tid
  place  : Tid → Bool × Option Bool

def State.view (s : State Mid Tid D) : View Tid :=
  ⟨s.cond, s.inside, s.told, fun t => ((s.pc t).counted, (s.pc t).notifies)⟩

variable {s s' : State Mid Tid D} {t u : Tid} {pc : Pc Mid Tid D} {a : Action Mid Tid D}
  {isBound : Bool} {v : View Tid}

theorem place_of_pc (h : s.pc t = pc) : s.view.place t = (pc.counted, pc.notifies) := by
  simp [State.view, h]

theorem returning_place (h : (s.pc t).returning = true) : s.view.place t = (true, none) := by
  cases hpc : s.pc t <;> simp_all [State.view, Pc.returning, Pc.counted, Pc.notifies]

theorem Initial.view (h : Initial s) : s.view = ⟨pthCondInit, [], [], fun _ => (false, none)⟩ := by
  simp only [State.view, h.cond, h.inside, h.told, h.pc]
  rfl

section

variable [DecidableEq Tid]

/-- **What a step does to the condition variable.** -/
inductive Effect (s : State Mid Tid D) (a : Action Mid Tid D) : View Tid → Prop
  | quiet : Effect s a s.view
  | enter {t : Tid} {isBound : Bool} {m : Mid} {extra bounded : Bool} : a = .go t isBound →
      s.pc t = .enter m extra bounded → s.cond.lock = none →
      Effect s a ⟨s.cond.countIn, t :: s.inside, s.told, update s.view.place t (true, none)⟩
  | leave {t : Tid} {isBound : Bool} : a = .go t isBound → (s.pc t).returning = true →
      s.cond.lock = none →
      Effect s a ⟨s.cond.countOut, s.inside.erase t, s.told.erase t,
        update s.view.place t (false, none)⟩
  | handled : (s.cond.signaled = true ∧ s.cond.broadcast = false ∨
        ∃ t, s.view.place t = (false, some false)) →
      Effect s a { s.view with cond := { s.cond with handled := true } }
  | raised {t : Tid} {isBound broadcast bounded : Bool} : a = .go t isBound →
      s.pc t = .signal broadcast bounded → s.cond.lock = none → 0 < s.cond.waiters →
      Effect s a ⟨{ s.cond.raise broadcast with lock := some t }, s.inside,
        if broadcast then s.inside else s.told, update s.view.place t (false, some broadcast)⟩
  | counted {t : Tid} {broadcast : Bool} : s.view.place t = (false, some broadcast) →
      Effect s a { s.view with
        cond := { s.cond.countWake with lock := none }
        place := update s.view.place t (false, none) }

theorem view_eq (h : s'.pc = update s.pc t pc) : s'.view = ⟨s'.cond, s'.inside, s'.told,
    update s.view.place t (pc.counted, pc.notifies)⟩ := by
  simp only [State.view, h, View.mk.injEq, true_and]
  funext u
  by_cases hu : u = t <;> simp [hu]

theorem view_same (h : s'.pc = update s.pc t pc)
    (hplace : (pc.counted, pc.notifies) = s.view.place t) :
    s'.view = ⟨s'.cond, s'.inside, s'.told, s.view.place⟩ := by
  rw [view_eq h, hplace, update_eq_self]

theorem view_wakeUp {occurred extra : Bool} : (s.wakeUp t occurred extra).view = s.view := by
  unfold State.wakeUp
  split
  next m e hpc => exact view_same rfl (by simp [State.view, hpc, Pc.counted, Pc.notifies])
  · rfl

theorem Effect.same (h : s'.view = s.view) : Effect s a s'.view := by
  rw [h]
  exact .quiet

theorem Effect.goto (h : s'.pc = update s.pc t pc) (he : Effect s a ⟨s'.cond, s'.inside, s'.told,
    update s.view.place t (pc.counted, pc.notifies)⟩) : Effect s a s'.view := by
  rw [view_eq h]
  exact he

theorem Effect.examined : Effect s a { s.view with cond := s.cond.examined } := by
  unfold Cond.examined
  split
  next h =>
    simp only [Cond.fires, Bool.and_eq_true] at h
    exact .handled (Or.inl ⟨h.1.1, h.2⟩)
  · exact .quiet

theorem view_readyWaiter (s : State Mid Tid D) (broadcast : Bool) (t : Tid) :
    (s.readyWaiter broadcast t).view = s.view ∨ (broadcast = false ∧
      (s.readyWaiter broadcast t).view =
        { s.view with cond := { s.cond with handled := true } }) := by
  unfold State.readyWaiter
  split
  · exact Or.inl rfl
  · rw [view_wakeUp]
    cases broadcast with
    | true => exact Or.inl (by simp [State.view, State.setMem])
    | false => exact Or.inr ⟨rfl, by simp [State.view, State.setMem]⟩

theorem effect_call {c : Call Mid} (hpc : (s.pc t).outside) : Effect s a (s.call t c).view := by
  have hplace : (false, none) = s.view.place t := by
    cases h : s.pc t <;> simp_all [State.view, Pc.outside, Pc.counted, Pc.notifies]
  cases c with
  | _ => exact .same (view_same rfl hplace)

variable [DecidableEq D]

theorem effect_visit {broadcast bounded : Bool} {tmp : Tid}
    (hpc : s.view.place t = (false, some broadcast)) :
    Effect s a (s.visit t broadcast bounded tmp).view := by
  simp only [State.visit]
  cases hb : (s.mutexes.mem.thread tmp).boundnative with
  | some ds =>
    cases broadcast with
    | true => exact .same (view_same rfl hpc.symm)
    | false =>
      exact .goto rfl (.counted hpc)
  | none =>
    generalize hn : (if broadcast = true then _ else _ : Pc Mid Tid D) = next
    have hnext : (next.counted, next.notifies) = s.view.place t := by
      rw [hpc, ← hn]
      cases broadcast <;> rfl
    have hview : ((s.readyWaiter broadcast tmp).goto t next).view =
        (s.readyWaiter broadcast tmp).view := by
      refine view_same rfl ?_
      rcases view_readyWaiter s broadcast tmp with hv | ⟨-, hv⟩ <;> rw [hv] <;> exact hnext
    rcases view_readyWaiter s broadcast tmp with hv | ⟨rfl, hv⟩
    · exact .same (hview.trans hv)
    · exact hview.trans hv ▸ .handled (Or.inr ⟨t, hpc⟩)

theorem effect_of_move (h : Move s t s') : Effect s (.go t isBound) s'.view := by
  cases h with
  | refuse hpc | again hpc | reacquire hpc | fail hpc | start hpc | nobody hpc | walked hpc
  | drained hpc | accept hpc => exact .same (view_same rfl (place_of_pc hpc).symm)
  | enter hpc hlock =>
    exact .goto rfl (.enter rfl hpc hlock)
  | @block m extra bounded rc hpc =>
    refine .same (view_same rfl ?_)
    rw [place_of_pc hpc]
    cases bounded <;> rfl
  | leave hpc hlock =>
    refine .goto rfl (.leave rfl ?_ hlock)
    rcases hpc with hpc | ⟨_, _, hpc⟩ <;> rw [hpc] <;> rfl
  | raise hpc hlock hw hnext =>
    rcases hnext with ⟨_, rfl⟩ | rfl <;> exact .goto rfl (.raised rfl hpc hlock hw)
  | visit hpc => exact effect_visit (place_of_pc hpc)
  | count hpc =>
    exact .goto rfl (.counted (place_of_pc hpc))
  | nudge hpc _ hnext =>
    refine .same (view_same rfl ?_)
    rw [place_of_pc hpc]
    rcases hnext with rfl | ⟨_, rfl⟩ <;> rfl

theorem effect_of_step [DecidableEq Mid] (h : s.step a = some s') : Effect s a s'.view := by
  cases change_of_step h with
  | call hout => exact effect_call hout
  | mutex | env => exact .quiet
  | go hmove => exact effect_of_move hmove
  | woken _ hc =>
    rw [view_wakeUp]
    rcases hc with rfl | rfl
    · exact .examined
    · exact .quiet
  | examined => exact .examined
  | drained _ hpc => exact .same (view_same rfl (place_of_pc hpc).symm)

end

/-! ## Side conditions -/

/-- A condition on the thread whose piece of the condition code is next. -/
def Action.onGo (a : Action Mid Tid D) (p : Tid → Prop) : Prop :=
  match a with
  | .go t _ => p t
  | _ => True

instance (a : Action Mid Tid D) (p : Tid → Prop) [DecidablePred p] : Decidable (a.onGo p) := by
  rcases a <;> dsimp only [Action.onGo] <;> infer_instance

/-- A thread about to be counted in. -/
def Pc.entering : Pc Mid Tid D → Bool
  | .enter _ _ _ => true
  | _ => false

/-- `cn_waiters` does not wrap. -/
def InRange (s : State Mid Tid D) (a : Action Mid Tid D) : Prop :=
  a.onGo fun t => (s.pc t).entering = true → s.cond.waiters + 1 < Unsigned.range

instance (s : State Mid Tid D) (a : Action Mid Tid D) : Decidable (InRange s a) :=
  inferInstanceAs (Decidable (a.onGo _))

/-! ## The lock -/

/-- A notify that has `cn_lock` between two steps has set `PTH_COND_SIGNALED` for
somebody. -/
structure Locked (v : View Tid) : Prop where
  holder : ∀ t broadcast, (v.place t).2 = some broadcast → v.cond.lock = some t
  holds  : ∀ t, v.cond.lock = some t → (v.place t).2 ≠ none
  raised : v.cond.lock ≠ none → v.cond.signaled = true ∧ 0 < v.cond.waiters

theorem Locked.unlocked (h : Locked v) (hlock : v.cond.lock = none) (u : Tid) :
    (v.place u).2 = none := by
  cases hu : (v.place u).2 with
  | none => rfl
  | some broadcast =>
    have := h.holder u broadcast hu
    rw [hlock] at this
    cases this

theorem Locked.held {broadcast : Bool} (h : Locked v) (ht : v.place t = (false, some broadcast)) :
    v.cond.signaled = true ∧ 0 < v.cond.waiters :=
  h.raised (by rw [h.holder t broadcast (by rw [ht])]; simp)

theorem Locked.free [DecidableEq Tid] {counted : Bool} {place : Tid → Bool × Option Bool}
    (hu : ∀ u, u ≠ t → (place u).2 = none) (hplace : v.place = update place t (counted, none))
    (hlock : v.cond.lock = none) : Locked v := by
  refine ⟨fun u broadcast h => ?_, fun u h => ?_, fun h => absurd hlock h⟩
  · rw [hplace] at h
    by_cases hut : u = t
    · simp [hut] at h
    · rw [update_of_ne hut, hu u hut] at h
      cases h
  · cases hlock.symm.trans h

theorem countOut_lock (c : Cond Tid) : c.countOut.lock = c.lock := by
  simp only [Cond.countOut]
  split
  · split <;> rfl
  · rfl

theorem Locked.effect [DecidableEq Tid] (h : Locked s.view) (he : Effect s a v) : Locked v := by
  cases he with
  | quiet => exact h
  | handled => exact ⟨h.holder, h.holds, h.raised⟩
  | enter _ _ hl => exact .free (fun u _ => h.unlocked hl u) rfl hl
  | leave _ _ hl => exact .free (fun u _ => h.unlocked hl u) rfl ((countOut_lock _).trans hl)
  | @counted t broadcast ht =>
    refine .free (fun u hut => ?_) rfl rfl
    cases hu : (s.view.place u).2 with
    | none => rfl
    | some b =>
      have hl := h.holder u b hu
      rw [h.holder t broadcast (by rw [ht])] at hl
      cases hl
      exact absurd rfl hut
  | @raised t _ _ _ _ _ hl hw =>
    refine ⟨fun u b hu => ?_, fun u hu => ?_, fun _ => ⟨rfl, hw⟩⟩
    · by_cases hut : u = t
      · rw [hut]
      · simp [hut, h.unlocked hl u] at hu
    · cases hu
      simp

theorem Initial.locked (h : Initial s) : Locked s.view := by
  rw [h.view]
  exact ⟨by simp, by simp [pthCondInit], by simp [pthCondInit]⟩

/-! ## Runs of one mutex -/

/-- Thread `t` acquires the mutex and awaits the condition, up to its wait. -/
def awaits {D : Type} (t : Nat) (extra bounded : Bool) : List (Action Unit Nat D) :=
  [.call t (.acquire () false false bounded), .mutex t true, .call t (.await () extra bounded),
    .go t false, .go t false, .mutex t true, .mutex t true, .mutex t true, .go t false]

/-- Thread `t` notifies, with one native; a broadcast then waits for the waiters. -/
def notifies (t : Nat) (broadcast : Bool) : List (Action Unit Nat Unit) :=
  [.call t (.notify broadcast false), .go t false, .go t false, .go t false, .go t false]

/-- Thread `t` leaves its wait, re-acquires the mutex, returns and releases the mutex. -/
def leaves (t : Nat) : List (Action Unit Nat Unit) :=
  [.go t false, .mutex t true, .go t false, .call t (.release ()), .mutex t true, .mutex t true,
    .mutex t true]

/-! ## No signal without waiters -/

/-- The last waiter finds one notify to take back. -/
def OneNotify (s : State Mid Tid D) (a : Action Mid Tid D) : Prop :=
  InRange s a ∧ a.onGo fun t => (s.pc t).returning = true → s.cond.waiters = 1 →
    s.cond.signaled = true → s.cond.wakecnt = 1

instance (s : State Mid Tid D) (a : Action Mid Tid D) : Decidable (OneNotify s a) := by
  unfold OneNotify; infer_instance

/-- Without waiters there is no signal and no notify is counted. -/
def Spent (s : State Mid Tid D) : Prop :=
  s.cond.lock = none → s.cond.waiters = 0 → s.cond.signaled = false ∧ s.cond.wakecnt = 0

structure Settled (v : View Tid) : Prop where
  locked : Locked v
  clear  : v.cond.signaled = false → v.cond.wakecnt = 0
  empty  : v.cond.waiters = 0 → v.cond.signaled = false

theorem countOut_kept {c : Cond Tid}
    (h : ¬ ((Unsigned.decr c.waiters = 0 ∨ c.handled = true) ∧ c.signaled = true)) :
    c.countOut = { c with waiters := Unsigned.decr c.waiters } := by
  simp only [Cond.countOut]
  rw [if_neg h]

theorem countOut_taken {c : Cond Tid}
    (h : (Unsigned.decr c.waiters = 0 ∨ c.handled = true) ∧ c.signaled = true) :
    c.countOut = { c with
      waiters := Unsigned.decr c.waiters, broadcast := false, handled := false
      wakecnt := Unsigned.decr c.wakecnt, signaled := decide (Unsigned.decr c.wakecnt ≠ 0) } := by
  simp only [Cond.countOut]
  rw [if_pos h]
  split
  next hz => simp [hz]
  next hz => simp [hz, h.2]

theorem Settled.leave {c : Cond Tid} (hclear : c.signaled = false → c.wakecnt = 0)
    (hempty : c.waiters = 0 → c.signaled = false)
    (hone : c.waiters = 1 → c.signaled = true → c.wakecnt = 1) :
    (c.countOut.signaled = false → c.countOut.wakecnt = 0) ∧
      (c.countOut.waiters = 0 → c.countOut.signaled = false) := by
  by_cases htake : (Unsigned.decr c.waiters = 0 ∨ c.handled = true) ∧ c.signaled = true
  · rw [countOut_taken htake]
    refine ⟨fun h => by simpa using h, fun (h : Unsigned.decr c.waiters = 0) => ?_⟩
    have hw : c.waiters = 1 := by
      have hpos : c.waiters ≠ 0 := fun h0 => by simp [hempty h0] at htake
      rw [Unsigned.decr_of_pos (by omega)] at h
      omega
    simp [hone hw htake.2, Unsigned.decr]
  · rw [countOut_kept htake]
    refine ⟨hclear, fun (h : Unsigned.decr c.waiters = 0) => ?_⟩
    simpa [h] using htake

theorem Settled.effect [DecidableEq Tid] (h : Settled s.view) (hok : OneNotify s a)
    (he : Effect s a v) : Settled v := by
  have hlocked := h.locked.effect he
  cases he with
  | quiet => exact h
  | handled => exact ⟨hlocked, h.clear, h.empty⟩
  | enter ha hpc =>
    have hlt : s.cond.waiters + 1 < Unsigned.range := by
      rw [ha] at hok
      exact hok.1 (by rw [hpc]; rfl)
    refine ⟨hlocked, h.clear, fun h0 => ?_⟩
    simp [Cond.countIn, Unsigned.incr_of_lt hlt] at h0
  | leave ha hpc =>
    rw [ha] at hok
    obtain ⟨h₁, h₂⟩ := Settled.leave h.clear h.empty (hok.2 hpc)
    exact ⟨hlocked, h₁, h₂⟩
  | raised _ _ _ hw => exact ⟨hlocked, fun hs => absurd hs Bool.noConfusion,
    fun h0 => absurd h0 hw.ne'⟩
  | counted ht =>
    obtain ⟨hsig, hw⟩ := h.locked.held ht
    refine ⟨hlocked, fun hs => ?_, fun h0 => ?_⟩
    · exact absurd (hs.symm.trans hsig) (by decide)
    · exact absurd h0 hw.ne'

theorem Initial.settled (h : Initial s) : Settled s.view := by
  refine ⟨h.locked, ?_, ?_⟩ <;> rw [h.view] <;> intro _ <;> rfl

/-- **A signal does not outlive its waiters**, in runs where the last waiter finds one
notify to take back. -/
theorem signal_spent [DecidableEq Mid] [DecidableEq Tid] [DecidableEq D]
    (s : State Mid Tid D) (hs : Reachable State.step OneNotify Initial s) : Spent s := by
  have hI : Settled s.view := hs.invariant (fun s h => h.settled)
    fun s a s' hI hok h => hI.effect hok (effect_of_step h)
  intro _ hw
  have hsig := hI.empty hw
  exact ⟨hsig, hI.clear hsig⟩

/-- Two waiters, and a signal for each of them in its turn. -/
def signalsInTurn : List (Action Unit Nat Unit) :=
  awaits 0 false false ++ awaits 1 false false ++ notifies 2 false ++
    [.examine 0 false, .examine 1 false] ++
    leaves 0 ++ notifies 2 false ++ [.examine 1 false] ++ leaves 1

theorem signal_spent_inTurn :
    ∃ s : State Unit Nat Unit,
      runOk State.step OneNotify (initState .timedNp) signalsInTurn = some s ∧
      s.cond.lock = none ∧ s.cond.waiters = 0 ∧ Spent s := by
  refine exists_and_of_any₂ (fun _ => id) (by decide +kernel) fun s hs _ _ => ?_
  exact signal_spent s (reachable_of_runOk (.init (initState_initial _)) hs)

/-- One waiter and two signals before it runs again. -/
def signalsAtOnce : List (Action Unit Nat Unit) :=
  awaits 0 false false ++ notifies 1 false ++ notifies 1 false ++ [.examine 0 false, .go 0 false]

/-- The waiter takes back one of the two: `cn_waiters` is 0, `PTH_COND_SIGNALED` is set
and `cn_wakecnt` is 1. -/
theorem signal_outlives_waiter :
    ∃ s : State Unit Nat Unit, Reachable State.step Always Initial s ∧
      s.cond = { pthCondInit with signaled := true, wakecnt := 1 } ∧ ¬ Spent s := by
  refine exists_and_of_any (o := run State.step (initState .timedNp) signalsAtOnce)
    (fun _ => reachable_of_run (.init (initState_initial _))) (by decide +kernel)
    fun s _ hc hspent => ?_
  obtain ⟨hsig, -⟩ := hspent (by rw [hc]; rfl) (by rw [hc]; rfl)
  rw [hc] at hsig
  cases hsig

/-! ## Broadcasts -/

/-- The section of a notify that is not a broadcast. -/
def Pc.signals : Pc Mid Tid D → Bool
  | .signal broadcast _ => !broadcast
  | _ => false

/-- Nobody signals while a thread that a broadcast has found is still inside. -/
def NotMixed (s : State Mid Tid D) (a : Action Mid Tid D) : Prop :=
  InRange s a ∧ a.onGo fun t => (s.pc t).signals = true → s.told = []

instance (s : State Mid Tid D) (a : Action Mid Tid D) : Decidable (NotMixed s a) := by
  unfold NotMixed; infer_instance

/-- With `PTH_COND_SIGNALED` clear, no thread that a broadcast has found among the
waiters is still in that wait. -/
def BroadcastKept (s : State Mid Tid D) : Prop :=
  s.cond.signaled = false → ∀ t ∈ s.told, (s.pc t).counted = false

/-- The threads inside, as `cn_waiters` counts them. -/
structure Counted (v : View Tid) : Prop where
  waiters : v.cond.waiters = v.inside.length
  nodup   : v.inside.Nodup
  place   : ∀ t, (v.place t).1 = true ↔ t ∈ v.inside

theorem Counted.notified [DecidableEq Tid] {c : Cond Tid} {told : List Tid} {n : Option Bool}
    (h : Counted v) (ht : (v.place t).1 = false) (hc : c.waiters = v.cond.waiters) :
    Counted ⟨c, v.inside, told, update v.place t (false, n)⟩ := by
  refine ⟨hc.trans h.waiters, h.nodup, fun u => ?_⟩
  rw [← h.place u]
  by_cases hu : u = t
  · simp [hu, ht]
  · simp [hu]

theorem Counted.effect [DecidableEq Tid] (h : Counted s.view) (hok : InRange s a)
    (he : Effect s a v) : Counted v := by
  cases he with
  | quiet => exact h
  | handled => exact ⟨h.waiters, h.nodup, h.place⟩
  | raised _ hpc => exact h.notified (by simp [State.view, hpc, Pc.counted]) rfl
  | counted ht => exact h.notified (by rw [ht]) rfl
  | @enter t _ _ _ _ ha hpc =>
    have hlt : s.cond.waiters + 1 < Unsigned.range := by
      rw [ha] at hok
      exact hok (by rw [hpc]; rfl)
    have hout : t ∉ s.inside := (h.place t).not.mp (by simp [State.view, hpc, Pc.counted])
    refine ⟨?_, List.nodup_cons.mpr ⟨hout, h.nodup⟩, fun u => ?_⟩
    · exact (Unsigned.incr_of_lt hlt).trans (congrArg (· + 1) h.waiters)
    · have hu : _ ↔ u ∈ s.inside := h.place u
      by_cases hut : u = t
      · simp [hut]
      · simpa [hut] using hu
  | @leave t _ _ hpc =>
    have hin : t ∈ s.inside := (h.place t).mp (by rw [returning_place hpc])
    have hw : s.cond.waiters = s.inside.length := h.waiters
    have hpos := List.length_pos_of_mem hin
    refine ⟨?_, h.nodup.erase t, fun u => ?_⟩
    · rw [Cond.countOut_waiters, List.length_erase_of_mem hin, ← hw]
      exact Unsigned.decr_of_pos (by omega)
    · show _ ↔ u ∈ s.view.inside.erase t
      rw [h.nodup.mem_erase_iff, ← h.place u]
      by_cases hu : u = t <;> simp [hu]

theorem Initial.counted (h : Initial s) : Counted s.view := by
  rw [h.view]
  exact ⟨rfl, List.nodup_nil, by simp⟩

/-- The flags stay those of the broadcast for as long as a thread that it found is
inside. -/
structure Told (v : View Tid) : Prop where
  locked  : Locked v
  counted : Counted v
  nodup   : v.told.Nodup
  inside  : ∀ t ∈ v.told, t ∈ v.inside
  flags   : v.told ≠ [] →
    v.cond.signaled = true ∧ v.cond.broadcast = true ∧ v.cond.handled = false
  signals : ∀ t, (v.place t).2 = some false → v.told = []

theorem Told.countOut [DecidableEq Tid] (h : Told v) (ht : t ∈ v.inside)
    (hne : v.told.erase t ≠ []) :
    v.cond.countOut = { v.cond with waiters := Unsigned.decr v.cond.waiters } := by
  obtain ⟨u, hu⟩ := List.exists_mem_of_ne_nil _ hne
  have hut := (h.nodup.mem_erase_iff).mp hu
  have hu' : u ∈ v.inside.erase t := (h.counted.nodup.mem_erase_iff).mpr ⟨hut.1, h.inside u hut.2⟩
  have hlen := List.length_pos_of_mem hu'
  rw [List.length_erase_of_mem ht, ← h.counted.waiters] at hlen
  obtain ⟨-, -, hhandled⟩ := h.flags (List.ne_nil_of_mem hut.2)
  apply countOut_kept
  rw [Unsigned.decr_of_pos (by omega), hhandled]
  simp only [Bool.false_eq_true, or_false]
  omega

theorem Told.effect [DecidableEq Tid] (h : Told s.view) (hok : NotMixed s a)
    (he : Effect s a v) : Told v := by
  have hlocked := h.locked.effect he
  have hcounted := h.counted.effect hok.1 he
  have hfree : ∀ {t : Tid} {counted : Bool} (u : Tid),
      (update s.view.place t (counted, none) u).2 = some false → s.told = [] := by
    intro t counted u hu
    by_cases hut : u = t
    · simp [hut] at hu
    · rw [update_of_ne hut] at hu
      exact h.signals u hu
  cases he with
  | quiet => exact h
  | handled hwhy =>
    refine ⟨hlocked, hcounted, h.nodup, h.inside, fun hne => ?_, h.signals⟩
    rcases hwhy with ⟨-, hb⟩ | ⟨t, ht⟩
    · exact absurd (hb.symm.trans (h.flags hne).2.1) (by decide)
    · exact absurd (h.signals t (by rw [ht])) hne
  | counted => exact ⟨hlocked, hcounted, h.nodup, h.inside, h.flags, hfree⟩
  | @enter t =>
    exact ⟨hlocked, hcounted, h.nodup, fun u hu => List.mem_cons_of_mem t (h.inside u hu), h.flags,
      hfree⟩
  | @leave t _ _ hpc =>
    have hin : t ∈ s.inside := (h.counted.place t).mp (by rw [returning_place hpc])
    refine ⟨hlocked, hcounted, h.nodup.erase t, fun u hu => ?_, fun hne => ?_, fun u hu => ?_⟩
    · have hu' := h.nodup.mem_erase_iff.mp hu
      exact h.counted.nodup.mem_erase_iff.mpr ⟨hu'.1, h.inside u hu'.2⟩
    · have hc : s.cond.countOut = _ := h.countOut hin hne
      simp only [hc]
      exact h.flags fun hnil => hne (congrArg (List.erase · t) hnil)
    · rw [hfree u hu]
      rfl
  | @raised t _ broadcast _ ha hpc hl _ =>
    cases broadcast with
    | true =>
      refine ⟨hlocked, hcounted, h.counted.nodup, fun _ => id, fun _ => ⟨rfl, rfl, rfl⟩,
        fun u hu => ?_⟩
      by_cases hut : u = t
      · simp [hut] at hu
      · simp [hut, h.locked.unlocked hl u] at hu
    | false =>
      rw [ha] at hok
      have hnil : s.told = [] := hok.2 (by rw [hpc]; rfl)
      exact ⟨hlocked, hcounted, h.nodup, h.inside, fun hne => absurd hnil hne, fun _ _ => hnil⟩

theorem Initial.toldInv (h : Initial s) : Told s.view := by
  refine ⟨h.locked, h.counted, ?_, ?_, ?_, ?_⟩ <;> simp [h.view]

/-- **No broadcast is lost** in runs where nobody signals while a thread that a broadcast
has found is still inside. -/
theorem broadcast_kept [DecidableEq Mid] [DecidableEq Tid] [DecidableEq D]
    (s : State Mid Tid D) (hs : Reachable State.step NotMixed Initial s) : BroadcastKept s := by
  have hI : Told s.view := hs.invariant (fun s h => h.toldInv)
    fun s a s' hI hok h => hI.effect hok (effect_of_step h)
  intro hsig t ht
  have hraised := (hI.flags (List.ne_nil_of_mem ht)).1
  exact absurd (hsig.symm.trans hraised) (by decide)

/-- Two waiters, a signal that one of them takes, and a broadcast for it and the other. -/
def broadcastToTwo : List (Action Unit Nat Unit) :=
  awaits 0 false false ++ awaits 1 false false ++ notifies 2 false ++ [.examine 0 false] ++
    leaves 0 ++
    awaits 0 false false ++ notifies 2 true ++ [.examine 0 false, .examine 1 false] ++ leaves 1 ++
    leaves 0

theorem broadcast_kept_toTwo :
    ∃ s : State Unit Nat Unit,
      runOk State.step NotMixed (initState .timedNp) broadcastToTwo = some s ∧
      s.cond.signaled = false ∧ BroadcastKept s := by
  refine exists_and_of_any (fun _ => id) (by decide +kernel) fun s hs _ => ?_
  exact broadcast_kept s (reachable_of_runOk (.init (initState_initial _)) hs)

/-- Threads 0, 1 and 2 wait and 3 broadcasts; the event manager marks all three. Thread 4
signals and then awaits, thread 0 leaves and awaits again: each of the two is marked as
the one that handles the signal, so that the departures of 0 and 1 take both notifies. -/
def signalAfterBroadcast : List (Action Unit Nat Unit) :=
  awaits 0 false false ++ awaits 1 false false ++ awaits 2 false false ++ notifies 3 true ++
    [.examine 0 false, .examine 1 false, .examine 2 false] ++ notifies 4 false ++
    awaits 4 false false ++ [.examine 4 false] ++ leaves 0 ++ awaits 0 false false ++
      [.examine 0 false] ++
    leaves 1 ++ [.go 2 false]

/-- Thread 2, which the broadcast found, waits again, with one native and no signal. -/
theorem signal_loses_broadcast :
    ∃ s : State Unit Nat Unit, Reachable State.step Always Initial s ∧
      s.mutexes.mem.natives = 1 ∧ s.cond.signaled = false ∧ 2 ∈ s.told ∧
      s.pc 2 = .waiting () false ∧ ¬ BroadcastKept s := by
  obtain ⟨s, hs, hn, hsig, htold, hpc⟩ : ∃ s, run State.step (initState .timedNp)
      signalAfterBroadcast = some s ∧ s.mutexes.mem.natives = 1 ∧ s.cond.signaled = false ∧
      2 ∈ s.told ∧ s.pc 2 = .waiting () false := exists_of_any (by decide +kernel)
  refine ⟨s, reachable_of_run (.init (initState_initial _)) hs, hn, hsig, htold, hpc,
    fun hkept => ?_⟩
  have := hkept hsig 2 htold
  simp [hpc, Pc.counted] at this

/-! ## A wait that times out -/

section

variable [DecidableEq Mid] [DecidableEq Tid]

theorem leave_cond {m : Mid} {bounded : Bool} : (s.leave t m bounded).cond = s.cond.countOut := by
  simp only [State.leave]
  split <;> rfl

theorem leave_pc {m : Mid} {bounded : Bool} :
    (s.leave t m bounded).pc = update s.pc t (.reacquire m) := by
  simp only [State.leave]
  split <;> rfl

variable [DecidableEq D]

/-- The step of `t` leaves the signal as it is, and a waiter that the event manager has
marked and that would have returned still does. -/
def NotStolen (t : Tid) (s s' : State Mid Tid D) : Prop :=
  s'.cond.signaled = s.cond.signaled ∧ s'.cond.handled = s.cond.handled ∧
    s'.cond.wakecnt = s.cond.wakecnt ∧
    ∀ u m extra isBound s'', u ≠ t → s.pc u = .ready m true extra → s.cond.signaled = true →
      s'.go u isBound = some s'' → s''.pc u = .reacquire m

theorem go_ready {m : Mid} {extra : Bool} (hpc : s.pc u = .ready m true extra)
    (hsig : s.cond.signaled = true) (h : s.go u isBound = some s') :
    s'.pc u = .reacquire m := by
  simp only [State.go, hpc, hsig] at h
  split at h
  · cases h
    simp [leave_pc]
  · cases h

/-- **A timed-out waiter steals no signal** if and only if the signal has not been marked
as handled. -/
theorem timeout_steals_iff (s s' : State Mid Tid D) (t : Tid) (m : Mid) (isBound : Bool)
    (hpc : s.pc t = .ready m false true) (hw : 1 < s.cond.waiters)
    (h : s.step (.go t isBound) = some s') :
    NotStolen t s s' ↔ ¬ (s.cond.signaled = true ∧ s.cond.handled = true) := by
  have hs' : s' = s.leave t m false := by
    simp only [State.step, State.go, hpc] at h
    split at h
    · simpa using h.symm
    · cases h
  have hdecr : Unsigned.decr s.cond.waiters ≠ 0 := by
    rw [Unsigned.decr_of_pos (by omega)]
    omega
  constructor
  · rintro ⟨-, hh, -, -⟩ ⟨hsig, hhandled⟩
    rw [hs', leave_cond, countOut_taken ⟨Or.inr hhandled, hsig⟩, hhandled] at hh
    cases hh
  · intro hnot
    have hcond : s'.cond = { s.cond with waiters := Unsigned.decr s.cond.waiters } := by
      rw [hs', leave_cond, countOut_kept]
      rintro ⟨h0 | hhandled, hsig⟩
      · exact hdecr h0
      · exact hnot ⟨hsig, hhandled⟩
    refine ⟨by rw [hcond], by rw [hcond], by rw [hcond], ?_⟩
    intro u m' extra isBound' s'' hu hready hsig hgo
    have hready' : s'.pc u = .ready m' true extra := by
      rw [hs', leave_pc, update_of_ne hu, hready]
    exact go_ready hready' (by rw [hcond]; exact hsig) hgo

end

/-- Thread 0 waits with a timer and thread 1 without. The timer of 0 elapses, a signal
comes, and 0 leaves. -/
def timerThenSignal : List (Action Unit Nat Unit) :=
  awaits 0 true false ++ awaits 1 false false ++ [.examine 0 true] ++ notifies 2 false

theorem timeout_steals_iff_timerFirst :
    ∃ s s' : State Unit Nat Unit, Reachable State.step Always Initial s ∧
      s.step (.go 0 false) = some s' ∧ s.cond.signaled = true ∧ NotStolen 0 s s' := by
  obtain ⟨s, hs, hpc, hw, hsig, hhandled, hsome⟩ : ∃ s, run State.step (initState .timedNp)
      timerThenSignal = some s ∧ s.pc 0 = .ready () false true ∧ s.cond.waiters = 2 ∧
      s.cond.signaled = true ∧ s.cond.handled = false ∧ (s.step (.go 0 false)).isSome :=
    exists_of_any (by decide +kernel)
  obtain ⟨s', hs'⟩ := Option.isSome_iff_exists.mp hsome
  refine ⟨s, s', reachable_of_run (.init (initState_initial _)) hs, hs', hsig, ?_⟩
  refine (timeout_steals_iff s s' 0 () false hpc (by omega) hs').mpr fun h => ?_
  simp [hhandled] at h

/-- Thread 0 waits and thread 1 waits with a timer. A signal comes; the event manager
gives it to 0 and finds the timer of 1 elapsed in the same pass. -/
def signalAndTimer : List (Action Unit Nat Unit) :=
  awaits 0 false false ++ awaits 1 true false ++ notifies 2 false ++
    [.examine 0 false, .examine 1 true]

/-- Thread 1 runs first and takes the signal with it, so that 0 waits again. -/
theorem timeout_steals_signal :
    ∃ s s' s'' : State Unit Nat Unit, Reachable State.step Always Initial s ∧
      s.mutexes.mem.natives = 1 ∧ s.pc 1 = .ready () false true ∧ s.cond.waiters = 2 ∧
      s.pc 0 = .ready () true false ∧ s.step (.go 1 false) = some s' ∧
      s'.step (.go 0 false) = some s'' ∧ s''.pc 0 = .waiting () false ∧ ¬ NotStolen 1 s s' := by
  obtain ⟨s, hs, hn, hpc1, hw, hpc0, hsig, hnext⟩ : ∃ s, run State.step (initState .timedNp)
      signalAndTimer = some s ∧ s.mutexes.mem.natives = 1 ∧ s.pc 1 = .ready () false true ∧
      s.cond.waiters = 2 ∧ s.pc 0 = .ready () true false ∧ s.cond.signaled = true ∧
      (s.step (.go 1 false)).any (fun s' => decide (s'.cond.signaled = false ∧
        (s'.step (.go 0 false)).any fun s'' => decide (s''.pc 0 = .waiting () false))) :=
    exists_of_any (by decide +kernel)
  obtain ⟨s', hs', hsig', hlast⟩ := exists_of_any hnext
  obtain ⟨s'', hs'', hpc''⟩ := exists_of_any hlast
  refine ⟨s, s', s'', reachable_of_run (.init (initState_initial _)) hs, hn, hpc1, hw, hpc0, hs',
    hs'', hpc'', fun hno => ?_⟩
  have := hno.1
  rw [hsig, hsig'] at this
  cases this

/-! ## Signals for bounded waiters -/

/-- The bounded threads `xs`, each on a native of its own, are blocked in
`pth_cond_await`. -/
structure Blocked (s : State Mid Tid D) (xs : List Tid) (native : Tid → D) : Prop where
  natives     : 1 < s.mutexes.mem.natives
  initialized : s.cond.initialized = true
  lock        : s.cond.lock = none
  waiters     : s.cond.waiters = xs.length
  ring        : LinkedRing.IsRing s.mutexes.mem.wait (.mutex .cond) (xs.map .thread)
  select      : ∀ x ∈ xs, ∃ m, s.pc x = .select m
  bound       : ∀ x ∈ xs, (s.mutexes.mem.thread x).boundnative = some (native x)
  distinct    : ∀ x ∈ xs, ∀ y ∈ xs, native x = native y → x = y

/-- A whole `pth_cond_notify` of `t`, to bounded waiters. -/
def signalBy (bounded : Tid → Bool) (t : Tid) : List (Action Mid Tid D) :=
  [.call t (.notify false (bounded t)), .go t false, .go t false, .go t false]

/-- The threads of `xs` to whose native something was written. -/
def written (s s' : State Mid Tid D) (native : Tid → D) (xs : List Tid) : List Tid :=
  xs.filter fun x => s'.mutexes.mem.sigpipe (native x) ≠ s.mutexes.mem.sigpipe (native x)

/-- A thread that may call. -/
def State.free (s : State Mid Tid D) (t : Tid) : Bool :=
  (s.pc t).outside && (s.mutexes.pc t).outside

variable {xs : List Tid} {x : Tid} {native : Tid → D} {bounded : Tid → Bool}

variable [DecidableEq Tid] [DecidableEq D]

/-- What is left of a signal: one more byte for the native of the longest waiter. -/
def State.signaled (s : State Mid Tid D) (t : Tid) (d : D) : State Mid Tid D :=
  ({ s with cond := { (s.cond.raise false).countWake with lock := none } }.writePipe d).goto t
    (.notified true)

theorem Blocked.signaled {d : D} (h : Blocked s xs native) (ht : s.free t = true) :
    Blocked (s.signaled t d) xs native := by
  refine ⟨h.natives, h.initialized, rfl, h.waiters, h.ring, fun y hy => ?_, h.bound, h.distinct⟩
  obtain ⟨m, hm⟩ := h.select y hy
  have hne : y ≠ t := by
    rintro rfl
    simp [State.free, hm, Pc.outside] at ht
  exact ⟨m, by rw [← hm]; exact update_of_ne hne _ _⟩

theorem free_signaled {d : D} (hu : s.free u = true) : (s.signaled t d).free u = true := by
  simp only [State.free, Bool.and_eq_true] at hu ⊢
  refine ⟨?_, hu.2⟩
  by_cases hut : u = t
  · simp [State.signaled, State.goto, hut, Pc.outside]
  · simpa [State.signaled, State.goto, hut, State.writePipe, State.setMem] using hu.1

variable [DecidableEq Mid]

theorem run_notify (ht : s.free t = true) (hi : s.cond.initialized = true)
    (broadcast bounded isBound : Bool) (as : List (Action Mid Tid D)) :
    run State.step s (.call t (.notify broadcast bounded) :: .go t isBound :: as) =
      run State.step (s.goto t (.signal broadcast bounded)) as := by
  simp only [State.free, Bool.and_eq_true] at ht
  have hcall : s.step (.call t (.notify broadcast bounded)) =
      some (s.goto t (.notify broadcast bounded)) := by
    simp only [State.step, ht, and_self, if_true, State.call]
  have hgo : (s.goto t (.notify broadcast bounded)).step (.go t isBound) =
      some (s.goto t (.signal broadcast bounded)) := by
    simp [State.step, State.go, State.goto, hi]
  rw [run_cons hcall, run_cons hgo]

theorem step_signal {b : Bool} (isBound : Bool) (hpc : s.pc t = .signal false b)
    (hl : s.cond.lock = none) (hw : 0 < s.cond.waiters) :
    s.step (.go t isBound) = some { s.goto t
        (if s.mutexes.mem.natives > 1 then .walk false b (s.mutexes.mem.wait.prev (.mutex .cond))
          else .count false b none) with
      cond := { s.cond.raise false with lock := some t } } := by
  simp only [State.step, State.go, hpc, hl, gt_iff_lt, hw, if_true, Bool.false_eq_true, if_false]
  rfl

theorem run_signalBy (h : Blocked s (xs ++ [x]) native) (ht : s.free t = true) :
    run State.step s (signalBy bounded t) = some (s.signaled t (native x)) := by
  have hprev : s.mutexes.mem.wait.prev (.mutex .cond) = .thread x := by
    have hr := h.ring
    rw [List.map_append] at hr
    exact hr.prev_head_concat
  have hw : 0 < s.cond.waiters := by
    rw [h.waiters]
    simp
  have hbound := h.bound x (by simp)
  -- with the flags set, the walk starts at the longest waiter and ends there
  have hsignal := step_signal (s := s.goto t (.signal false (bounded t))) false
    (update_self ..) h.lock hw
  rw [signalBy, run_notify ht h.initialized, run_cons hsignal]
  simp [run, State.step, State.go, State.goto, h.natives, hprev, State.visit, hbound,
    State.signaled, Cond.countWake, State.writePipe, State.setMem]

theorem run_signals (bounded : Tid → Bool) {ts : List Tid} (h : Blocked s (xs ++ [x]) native)
    (hts : ∀ t ∈ ts, s.free t = true) :
    ∃ s', run State.step s (ts.flatMap (signalBy bounded)) = some s' ∧
      ∀ d, s'.mutexes.mem.sigpipe d =
        s.mutexes.mem.sigpipe d + if d = native x then ts.length else 0 := by
  induction ts generalizing s with
  | nil => exact ⟨s, rfl, fun d => by simp⟩
  | cons t ts ih =>
    have ht := hts t List.mem_cons_self
    obtain ⟨s', hrun, hpipe⟩ := ih (h.signaled ht)
      fun u hu => free_signaled (hts u (List.mem_cons_of_mem t hu))
    refine ⟨s', ?_, fun d => ?_⟩
    · rw [List.flatMap_cons, run_append, run_signalBy h ht]
      exact hrun
    · rw [hpipe d]
      by_cases hd : d = native x
      · simp [hd, State.signaled, State.goto, State.writePipe, State.setMem]
        omega
      · simp [hd, State.signaled, State.goto, State.writePipe, State.setMem]

/-- **Distinct wake-ups.** With `n` bounded threads blocked, `k` signals in a row write to
the pipes of `k` different ones of their natives if and only if `k` is at most 1. -/
theorem signals_wake_distinct_iff (s : State Mid Tid D) (xs : List Tid) (native : Tid → D)
    (bounded : Tid → Bool) (ts : List Tid) (h : Blocked s xs native)
    (hts : ∀ t ∈ ts, s.free t = true) (hk : ts.length ≤ xs.length) :
    ∃ s', run State.step s (ts.flatMap (signalBy bounded)) = some s' ∧
      ((written s s' native xs).length = ts.length ↔ ts.length ≤ 1) := by
  rcases List.eq_nil_or_concat xs with rfl | ⟨ys, x, rfl⟩
  · obtain rfl : ts = [] := List.length_eq_zero_iff.mp (Nat.le_zero.mp hk)
    exact ⟨s, rfl, by simp [written]⟩
  · rw [List.concat_eq_append] at h hk ⊢
    obtain ⟨s', hrun, hpipe⟩ := run_signals bounded h hts
    refine ⟨s', hrun, ?_⟩
    -- only the native of `x` is written to
    have hwritten : written s s' native (ys ++ [x]) = if ts = [] then [] else [x] := by
      have hys : ∀ y ∈ ys, native y ≠ native x := by
        intro y hy heq
        have hyx := h.distinct y (by simp [hy]) x (by simp) heq
        have hnd := h.ring.nodup_nodes.of_map
        rw [hyx] at hy
        exact (List.nodup_append.mp hnd).2.2 x hy x (by simp) rfl
      have hnone : ys.filter (fun y => decide
          (s'.mutexes.mem.sigpipe (native y) ≠ s.mutexes.mem.sigpipe (native y))) = [] := by
        refine List.filter_eq_nil_iff.mpr fun y hy => ?_
        simp [hpipe, hys y hy]
      unfold written
      rw [List.filter_append, hnone]
      by_cases hnil : ts = []
      · simp [hpipe, hnil]
      · simp [hpipe, hnil]
    rw [hwritten]
    cases ts with
    | nil | cons => simp

/-- Threads 0 and 1, bound to the natives 0 and 1, await the condition. -/
def twoBounded : List (Action Unit Nat Nat) :=
  [.natives 3, .bind 0 (some 0), .bind 1 (some 1)] ++ awaits 0 false true ++ awaits 1 false true

theorem twoBounded_blocked :
    ∃ s : State Unit Nat Nat, Reachable State.step Always Initial s ∧ Blocked s [1, 0] id ∧
      s.free 2 = true := by
  obtain ⟨s, hs, hn, hc, hfree, hpc0, hb0, hpc1, hb1, hnext, hprev⟩ : ∃ s, run State.step
      (initState .timedNp) twoBounded = some s ∧ s.mutexes.mem.natives = 3 ∧
      s.cond = { pthCondInit with waiters := 2 } ∧ s.free 2 = true ∧ s.pc 0 = .select () ∧
      (s.mutexes.mem.thread 0).boundnative = some 0 ∧ s.pc 1 = .select () ∧
      (s.mutexes.mem.thread 1).boundnative = some 1 ∧
      [.mutex .cond, .thread 1, .thread 0].map s.mutexes.mem.wait.next =
        [.thread 1, .thread 0, .mutex .cond] ∧
      [.mutex .cond, .thread 1, .thread 0].map s.mutexes.mem.wait.prev =
        [.thread 0, .mutex .cond, .thread 1] := exists_of_any (by decide +kernel)
  simp only [List.map_cons, List.map_nil, List.cons.injEq, and_true] at hnext hprev
  obtain ⟨hn0, hn1, hn2⟩ := hnext
  obtain ⟨hp0, hp1, hp2⟩ := hprev
  refine ⟨s, reachable_of_run (.init (initState_initial _)) hs,
    ⟨by omega, by rw [hc]; rfl, by rw [hc]; rfl, by rw [hc]; rfl, ⟨?_, by decide⟩, ?_, ?_, ?_⟩,
    hfree⟩
  · simp [LinkedRing.Links.Linked, hn0, hn1, hn2, hp0, hp1, hp2]
  · simp [hpc0, hpc1]
  · simp [hb0, hb1]
  · simp

theorem signals_wake_distinct_iff_one :
    ∃ s s' : State Unit Nat Nat, Blocked s [1, 0] id ∧
      run State.step s ([2].flatMap (signalBy fun _ => false)) = some s' ∧
      (written s s' id [1, 0]).length = 1 := by
  obtain ⟨s, -, hblocked, hfree⟩ := twoBounded_blocked
  obtain ⟨s', hrun, hiff⟩ := signals_wake_distinct_iff s [1, 0] id (fun _ => false) [2] hblocked
    (by simpa using hfree) (by decide)
  exact ⟨s, s', hblocked, hrun, hiff.mpr (by decide)⟩

/-- Two signals for two waiters: both bytes go to the native of thread 0. -/
theorem signals_wake_same_native :
    ∃ s s' : State Unit Nat Nat, Reachable State.step Always Initial s ∧ Blocked s [1, 0] id ∧
      run State.step s ([2, 2].flatMap (signalBy fun _ => false)) = some s' ∧
      s'.mutexes.mem.sigpipe 0 = s.mutexes.mem.sigpipe 0 + 2 ∧
      s'.mutexes.mem.sigpipe 1 = s.mutexes.mem.sigpipe 1 ∧
      (written s s' id [1, 0]).length ≠ 2 := by
  obtain ⟨s, hreach, hblocked, hfree⟩ := twoBounded_blocked
  obtain ⟨s', hrun, hpipe⟩ := run_signals (fun _ => false)
    (show Blocked s ([1] ++ [0]) id from hblocked)
    (show ∀ t ∈ [2, 2], s.free t = true by simpa using hfree)
  have h0 := hpipe 0
  have h1 := hpipe 1
  simp only [id, List.length_cons, List.length_nil, if_true] at h0
  simp only [id, Nat.one_ne_zero, if_false, Nat.add_zero] at h1
  refine ⟨s, s', hreach, hblocked, hrun, h0, h1, ?_⟩
  simp [written, h0, h1]

end Ngpt.Sync.Condvar
