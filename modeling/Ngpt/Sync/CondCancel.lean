import Ngpt.Sync.SharedCond

/-!
# ngpt — condition waits that are cancelled

A thread that is cancelled in `pth_cond_await` is to run its cleanup handlers with the mutex
and without being counted as a waiter. A cancellation that is acted on in `pth_wait` comes
before `cn_waiters` is decremented, if the wait is for the condition, or else before the mutex
is there. No assumption on the mutexes is needed for that.

Result: `cancelled_await_never`.
-/

namespace Ngpt.Sync.SharedCond

open Function Transition
open Condvar (Cond)

variable {Mid T : Type} {w : Setup Mid T} {s s' : State Mid T} {t u : T} {m : Mid} {o : Outcome T}
  {a : Action Mid T}

/-! ## Places -/

/-- The call that `t` is in is counted in `cn_waiters`. -/
def State.Counted (s : State Mid T) (t : T) : Prop := (t, s.calls t) ∈ s.inside

/-- What is known of a thread at each place. -/
def Place (s : State Mid T) (t : T) : Prop :=
  match s.pc t with
  | .idle | .awaited _ _ | .finish _ | .cleanup _ .atEnd | .dead => True
  | .await _ _ | .enter _ _ | .reacquire _ _ => ¬ s.Counted t
  | .release _ _ _ | .wait _ _ _ | .ready _ _ _ _ | .cleanup _ .inWait => s.Counted t
  | .cleanup m .inAcquire => ¬ (s.mutex m).Held t

/-- `cn_waiters` is the number of the calls that are counted, each of them once. -/
structure Tally (s : State Mid T) : Prop where
  waiters : s.cond.waiters = s.inside.length % Unsigned.range
  nodup   : s.inside.Nodup
  past    : ∀ e ∈ s.inside, e.2 ≤ s.calls e.1

structure Inv (s : State Mid T) : Prop where
  tally : Tally s
  place : ∀ t, Place s t

/-- A step of the others, as `t` sees it. -/
structure Frame (s s' : State Mid T) (t : T) : Prop where
  pc      : s'.pc t = s.pc t ∨ s'.pc t = .dead
  counted : s'.Counted t ↔ s.Counted t
  held    : ∀ m, (s'.mutex m).Held t → (s.mutex m).Held t

theorem Place.frame (h : Place s t) (hf : Frame s s' t) : Place s' t := by
  unfold Place at h ⊢
  rcases hf.pc with hpc | hpc
  · rw [hpc]
    simp only [hf.counted]
    split at h
    case h_13 m _ => exact mt (hf.held m) h
    all_goals exact h
  · rw [hpc]
    trivial

theorem Place.of_outside (hout : (s.pc t).outside = true) : Place s t := by
  unfold Place
  cases hpc : s.pc t <;> simp_all [Pc.outside]

theorem Tally.same (h : Tally s) (hwaiters : s'.cond.waiters = s.cond.waiters)
    (hinside : s'.inside = s.inside) (hcalls : s'.calls = s.calls) : Tally s' := by
  refine ⟨?_, ?_, ?_⟩
  · rw [hwaiters, hinside]
    exact h.waiters
  · rw [hinside]
    exact h.nodup
  · rw [hinside, hcalls]
    exact h.past

theorem Initial.inv (h : Initial s) : Inv s := by
  refine ⟨⟨?_, ?_, ?_⟩, fun t => ?_⟩
  · rw [h.waiters, h.inside]
    rfl
  · rw [h.inside]
    exact List.nodup_nil
  · rw [h.inside]
    nofun
  · unfold Place
    rw [h.pc t]
    trivial

theorem counted_countIn (hut : u ≠ t) : (s.countIn t).Counted u ↔ s.Counted u := by
  simp [State.Counted, State.countIn, hut]

theorem Tally.countIn (h : Tally s) (hnew : ¬ s.Counted t) : Tally (s.countIn t) := by
  refine ⟨?_, List.nodup_cons.mpr ⟨hnew, h.nodup⟩, ?_⟩
  · show Unsigned.incr s.cond.waiters = (s.inside.length + 1) % Unsigned.range
    rw [h.waiters, Unsigned.incr_mod]
  · intro e he
    rcases List.mem_cons.mp he with rfl | he
    · exact Nat.le_refl _
    · exact h.past e he

/-- A mutex call of `t` makes no other thread the owner of a mutex. -/
theorem held_setMutex [DecidableEq Mid] {mx : Lock T} (hmx : (s.mutex m).Follows t mx)
    (hut : u ≠ t) (k : Mid) (hheld : ((s.setMutex m mx).mutex k).Held u) : (s.mutex k).Held u := by
  unfold State.setMutex at hheld
  by_cases hk : k = m
  · subst hk
    simp only [update_self] at hheld
    exact (hmx u hheld).resolve_left hut
  · simpa only [update_of_ne hk] using hheld

variable [DecidableEq T]

theorem counted_countOut (hut : u ≠ t) : (s.countOut t).Counted u ↔ s.Counted u := by
  have hne : (u, s.calls u) ≠ (t, s.calls t) := fun h => hut (Prod.mk.inj h).1
  exact List.mem_erase_of_ne hne

theorem Tally.countOut (h : Tally s) (hin : s.Counted t) : Tally (s.countOut t) := by
  refine ⟨?_, h.nodup.erase _, fun e he => h.past e (List.mem_of_mem_erase he)⟩
  show s.cond.countOut.waiters = (s.inside.erase (t, s.calls t)).length % Unsigned.range
  rw [Cond.countOut_waiters, h.waiters, Unsigned.decr_mod (List.length_pos_of_mem hin),
    List.length_erase_of_mem hin]

theorem Inv.call {bounded : Bool} (h : Inv s) :
    Inv { s.goto t (.await m bounded) with
      calls := update s.calls t (s.calls t + 1)
      asked := update s.asked t none
      touched := update s.touched t false } := by
  refine ⟨⟨h.tally.waiters, h.tally.nodup, fun e he => ?_⟩, fun u => ?_⟩
  · have hpast := h.tally.past e he
    show e.2 ≤ update s.calls t (s.calls t + 1) e.1
    by_cases het : e.1 = t
    · rw [het, update_self]
      rw [het] at hpast
      omega
    · rw [update_of_ne het]
      exact hpast
  · by_cases hut : u = t
    · subst hut
      unfold Place
      simp only [State.goto, update_self, State.Counted]
      -- the number of the call is new
      intro hin
      have hpast := h.tally.past _ hin
      simp only at hpast
      omega
    · refine (h.place u).frame ⟨Or.inl (update_of_ne hut _ _), ?_, fun _ hheld => hheld⟩
      unfold State.Counted
      simp only [update_of_ne hut]
      exact Iff.rfl

variable [DecidableEq Mid]

theorem Turn.frame (h : Turn s t s') (hut : u ≠ t) : Frame s s' u := by
  have hpc := Or.inl (b := s'.pc u = .dead) (h.apart hut).1
  cases h with
  | refused | checked | woken | spurious | returned | exitWait | exitAcquire | exitEnd =>
    exact ⟨hpc, Iff.rfl, fun _ hheld => hheld⟩
  | failed | entered => exact ⟨hpc, counted_countIn hut, fun _ hheld => hheld⟩
  | left waitlist _ =>
    exact ⟨hpc, counted_countOut (s := { s with waitlist := waitlist }) hut,
      fun _ hheld => hheld⟩
  | released _ hmx | acquired _ hmx => exact ⟨hpc, Iff.rfl, held_setMutex hmx hut⟩

theorem Turn.place (h : Turn s t s') (htally : Tally s) (hplace : Place s t) : Place s' t := by
  unfold Place at hplace ⊢
  cases h with
  | refused | returned | failed | acquired =>
    rw [goto_pc]
    trivial
  | checked hpc | woken hpc | spurious hpc | released hpc =>
    rw [hpc] at hplace
    rw [goto_pc]
    exact hplace
  | entered r waitlist hpc =>
    rw [goto_pc]
    exact List.mem_cons_self
  | exitWait hpc =>
    rw [hpc] at hplace
    rw [exit_pc]
    exact hplace
  | left waitlist hpc =>
    rw [goto_pc]
    exact htally.nodup.not_mem_erase
  | exitAcquire hpc hheld =>
    rw [exit_pc]
    exact hheld
  | exitEnd =>
    rw [exit_pc]
    trivial

theorem Turn.tally (h : Turn s t s') (htally : Tally s) (hplace : Place s t) : Tally s' := by
  unfold Place at hplace
  cases h with
  | refused | checked | woken | spurious | returned | exitWait | exitAcquire | exitEnd | released
  | acquired => exact htally.same rfl rfl rfl
  | failed hpc _ =>
    rw [hpc] at hplace
    exact (htally.countIn hplace).same rfl rfl rfl
  | entered _ _ hpc =>
    rw [hpc] at hplace
    exact (htally.countIn hplace).same rfl rfl rfl
  | @left _ _ _ _ waitlist hpc =>
    rw [hpc] at hplace
    have hwait : Tally { s with waitlist := waitlist } := htally.same rfl rfl rfl
    exact (hwait.countOut hplace).same rfl rfl rfl

theorem Inv.go (h : Inv s) (hgo : s.go w t o = some s') : Inv s' := by
  obtain ⟨s₁, hturn, rfl⟩ := go_turn hgo
  have htally := hturn.tally h.tally (h.place t)
  refine ⟨htally.same rfl rfl rfl, fun u => ?_⟩
  show Place s₁ u
  by_cases hut : u = t
  · subst hut
    exact hturn.place h.tally (h.place u)
  · exact (h.place u).frame (hturn.frame hut)

/-- A mutex call outside `pth_cond_await`: nothing is known of its thread there. -/
theorem Inv.mutexCall {mx : Lock T} (h : Inv s) (hout : (s.pc t).outside = true)
    (hmx : (s.mutex m).Follows t mx) : Inv (s.setMutex m mx) := by
  refine ⟨h.tally.same rfl rfl rfl, fun u => ?_⟩
  by_cases hut : u = t
  · subst hut
    exact Place.of_outside hout
  · exact (h.place u).frame ⟨Or.inl rfl, Iff.rfl, held_setMutex hmx hut⟩

theorem Inv.step (h : Inv s) (hs : s.step w a = some s') : Inv s' := by
  cases a with
  | go t o => exact h.go hs
  | call t m bounded =>
    obtain ⟨-, ⟨⟩⟩ := Option.ite_none_right_eq_some.mp hs
    exact h.call
  | mutex t m mx =>
    obtain ⟨hout, hcall⟩ := Option.ite_none_right_eq_some.mp hs
    obtain ⟨hmx, rfl⟩ := mutexCall_eq_some.mp hcall
    exact h.mutexCall hout hmx
  | enable t enabled =>
    obtain ⟨-, ⟨⟩⟩ := Option.ite_none_right_eq_some.mp hs
    exact ⟨h.tally.same rfl rfl rfl, h.place⟩
  | cancel | flags | natives =>
    cases hs
    exact ⟨h.tally.same rfl rfl rfl, h.place⟩
  | die p =>
    cases hs
    refine ⟨h.tally.same rfl rfl rfl, fun u => ?_⟩
    refine (h.place u).frame ⟨?_, Iff.rfl, fun _ hheld => hheld⟩
    by_cases hp : w.pid u = p
    · exact Or.inr (if_pos hp)
    · exact Or.inl (if_neg hp)

/-- **A cancelled wait.** `cn_waiters` is always the number of the calls that are counted. When
the cleanup handlers of a thread that has exited in `pth_wait` start, it does not have the
mutex or is still counted, in every run: in the wait for the condition it is counted, in the
one for the mutex it does not have it. -/
theorem cancelled_await_never (w : Setup Mid T) (s : State Mid T)
    (hs : Reachable (State.step w) Always Initial s) (t : T) (m : Mid) (e : Exit)
    (hexit : s.pc t = .cleanup m e) (hwait : e = .inWait ∨ e = .inAcquire) :
    s.cond.waiters = s.inside.length % Unsigned.range ∧
      ¬ ((s.mutex m).Held t ∧ ¬ s.Counted t) := by
  have hI : Inv s := hs.invariant (fun _ h => h.inv) fun _ _ _ h _ hstep => h.step hstep
  refine ⟨hI.tally.waiters, ?_⟩
  have hplace := hI.place t
  unfold Place at hplace
  rw [hexit] at hplace
  rcases hwait with rfl | rfl
  · exact fun h => h.2 hplace
  · exact fun h => hplace h.1

/-- Two threads of one process, with a shared condition variable and a shared mutex. -/
def two : Setup Unit Bool where
  pid     := fun _ => 1
  ptr     := fun t => if t then 2 else 1
  pshared := true
  shared  := fun _ => true

/-- `false` takes the mutex and waits on the condition variable with descriptor 5; `true` takes
the mutex, cancels it and gives the mutex back; `false` exits. -/
def cancelThere : List (Action Unit Bool) :=
  [.mutex false () ⟨some false, 1⟩, .call false () false, .go false ⟨5, true, none⟩,
    .go false ⟨5, true, none⟩, .go false ⟨5, true, some ⟨none, 0⟩⟩,
    .mutex true () ⟨some true, 1⟩, .cancel false, .mutex true () ⟨none, 0⟩,
    .go false ⟨5, true, none⟩]

theorem cancelled_await_never_two :
    ∃ s : State Unit Bool, Reachable (State.step two) Always Initial s ∧
      s.pc false = .cleanup () .inWait ∧
      s.cond.waiters = s.inside.length % Unsigned.range ∧
      ¬ ((s.mutex ()).Held false ∧ ¬ s.Counted false) := by
  refine exists_and_of_any (o := run (State.step two) init cancelThere)
    (fun _ => reachable_of_run (.init init_initial)) (by decide +kernel) fun s hs hpc => ?_
  exact cancelled_await_never _ s hs _ _ _ hpc (Or.inl rfl)

/-- The thread exits without the mutex, and `cn_waiters` is still 1. -/
theorem cancelled_in_wait :
    ∃ s : State Unit Bool, Reachable (State.step two) Always Initial s ∧
      s.pc false = .cleanup () .inWait ∧ (s.mutex ()).owner = none ∧ s.cond.waiters = 1 := by
  exact exists_reachable init_initial cancelThere (by decide +kernel)

end Ngpt.Sync.SharedCond
