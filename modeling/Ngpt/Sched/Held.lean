import Ngpt.Sched.Create
import Ngpt.Sched.InHand
import Ngpt.Sched.Still

/-!
# ngpt — threads that are created suspended

A thread with `a_suspendstate` goes to `pth_SQ`, unless it is bound to a native thread of its
own: then the queue is chosen once more, and it is in the ready queue of that native thread
as any other.

Result: `held_not_runnable`.
-/

namespace Ngpt.Sched.Create

open Function Ngpt.Queue Ngpt.Sched.Multi Transition
open Ngpt.Natives (Scope)

variable {D T : Type} [DecidableEq D]

/-! ## Threads outside all queues -/

/-- The thread is in no queue and in nobody's hands. -/
def Out (m : Multi.State D T) (t : T) : Prop := Quiet m t ∧ m.place t = none

/-- The invariant of all runs: what nobody has created yet, and what a spawn has not appended yet,
is in no queue and in nobody's hands. -/
structure Sound (s : State D T) : Prop where
  heap    : s.multi.heap.Ok
  unknown : ∀ t, t ∉ s.threads → Out s.multi t
  pending : ∀ c p, s.pending c = some p → p.thread ∈ s.threads ∧ Out s.multi p.thread
  apart   : ∀ c c' p p', s.pending c = some p → s.pending c' = some p' →
    p.thread = p'.thread → c = c'

variable {first d : D} {main cur t u : T} {s s' : State D T} {m m' : Multi.State D T}
  {a : Multi.Action D T} {attr : Option Attr} {p : Pending D T}

theorem Out.still (h : Out m t) : Still m t := ⟨h.1, Or.inl h.2⟩

/-- The thread is in `pth_SQ`, or the call that creates it is going to append it there, and
nobody has it in hand. -/
structure Asleep (s : State D T) (t : T) : Prop extends Quiet s.multi t where
  queue : s.multi.place t = some .pthSQ ∨
    ∃ c p, s.pending c = some p ∧ p.thread = t ∧ p.queue = .pthSQ

theorem Asleep.still (h : Asleep s t) (hsound : Sound s) : Still s.multi t := by
  refine ⟨h.toQuiet, ?_⟩
  rcases h.queue with hplace | ⟨c, p, hc, rfl, -⟩
  · exact Or.inr hplace
  · exact Or.inl (hsound.pending c p hc).2.2

theorem cur_mem_holds {pc : Pc D T} (h : pc.cur = some t) : t ∈ pc.holds := by
  cases pc with
  | found cur u q =>
    cases h
    show t ∈ if q = .pthSQ then [t, u] else [t]
    split <;> exact List.mem_cons_self
  | handoff c u ds | handed c u ds | ready c u =>
    have hc : c = some t := h
    simp [Pc.holds, hc]
  | top | events | linked | woken => cases h
  | _ =>
    cases h
    exact List.mem_cons_self

variable [DecidableEq T]

theorem Out.step (h : Out m t) (hO : m.heap.Ok) (hs : m.step first a = some m') : Out m' t := by
  obtain ⟨hstill, hplace⟩ := h.still.step hO (fun _ _ => h.2) hs
  exact ⟨hstill.toQuiet, hplace.trans h.2⟩

theorem Spawned.holds (h : Spawned s cur u attr s') (e : D) :
    (s'.multi.pc e).holds = (s.multi.pc e).holds := by
  rcases h.pc e with he | ⟨hbefore, hafter⟩
  · rw [he]
  · rw [hbefore, hafter]
    rfl

theorem Spawned.quiet (h : Spawned s cur u attr s') (hq : Quiet s.multi t) : Quiet s'.multi t := by
  refine ⟨?_, fun e => ?_⟩
  · rw [h.waited t, hq.waited, ite_self]
  · rw [h.holds e]
    exact hq.pc e

theorem Spawned.place (h : Spawned s cur u attr s') (t : T) :
    s'.multi.place t = if t = u then none else s.multi.place t := by
  show s'.multi.heap.place t = _
  rw [h.heap]
  exact reset_place t

theorem Spawned.out (h : Spawned s cur u attr s') (ht : Out s.multi t) : Out s'.multi t := by
  refine ⟨h.quiet ht.1, ?_⟩
  rw [h.place t, ht.2, ite_self]

theorem Finished.quiet (h : Finished s cur p s') (hq : Quiet s.multi t) : Quiet s'.multi t := by
  refine ⟨(h.alike.waited t).trans hq.waited, fun e => ?_⟩
  rw [h.alike.pc]
  exact hq.pc e

theorem Finished.place (h : Finished s cur p s') (hO : s.multi.heap.Ok)
    (hp : s.multi.place p.thread = none) (t : T) :
    s'.multi.place t = if t = p.thread then some p.queue else s.multi.place t := by
  show s'.multi.heap.place t = _
  rw [h.heap]
  exact pqueueAppendNode_place hO hp p.queue t

theorem Sound.spawned (h : Sound s) (hu : u ∉ s.threads) (hs : Spawned s cur u attr s') :
    Sound s' := by
  have hout : Out s.multi u := h.unknown u hu
  obtain ⟨p, hpending, hthread, -⟩ := hs.pending
  have hcases : ∀ c p', s'.pending c = some p' →
      (c = cur ∧ p'.thread = u) ∨ (c ≠ cur ∧ s.pending c = some p') := by
    intro c p' hc
    rw [hpending] at hc
    by_cases he : c = cur
    · rw [he, update_self] at hc
      exact Or.inl ⟨he, Option.some.inj hc ▸ hthread⟩
    · rw [update_of_ne he] at hc
      exact Or.inr ⟨he, hc⟩
  have hne : ∀ c p', s.pending c = some p' → p'.thread ≠ u :=
    fun c p' hc he => hu (he ▸ (h.pending c p' hc).1)
  refine ⟨?_, fun t ht => ?_, fun c p' hc => ?_, fun c c' p₁ p₂ hc hc' he => ?_⟩
  · rw [hs.heap]
    exact h.heap.reset hout.2
  · rw [hs.threads, List.mem_cons, not_or] at ht
    exact hs.out (h.unknown t ht.2)
  · rw [hs.threads]
    rcases hcases c p' hc with ⟨-, hp'⟩ | ⟨-, hold⟩
    · rw [hp']
      exact ⟨List.mem_cons_self, hs.out hout⟩
    · obtain ⟨hmem, hp'⟩ := h.pending c p' hold
      exact ⟨List.mem_cons_of_mem u hmem, hs.out hp'⟩
  · rcases hcases c p₁ hc with ⟨h₁, hp₁⟩ | ⟨-, h₁⟩
    · rcases hcases c' p₂ hc' with ⟨h₂, -⟩ | ⟨-, h₂⟩
      · rw [h₁, h₂]
      · exact absurd (he.symm.trans hp₁) (hne c' p₂ h₂)
    · rcases hcases c' p₂ hc' with ⟨-, hp₂⟩ | ⟨-, h₂⟩
      · exact absurd (he.trans hp₂) (hne c p₁ h₁)
      · exact h.apart c c' p₁ p₂ h₁ h₂ he

theorem Finished.pending_of (h : Finished s cur p s') {c : T} {p' : Pending D T}
    (hc : s'.pending c = some p') : c ≠ cur ∧ s.pending c = some p' := by
  rw [h.pending] at hc
  by_cases he : c = cur
  · rw [he, update_self] at hc
    cases hc
  · rw [update_of_ne he] at hc
    exact ⟨he, hc⟩

theorem Sound.finished (h : Sound s) (hp : s.pending cur = some p) (hs : Finished s cur p s') :
    Sound s' := by
  obtain ⟨hmem, hout⟩ := h.pending cur p hp
  have hother : ∀ t, t ≠ p.thread → Out s.multi t → Out s'.multi t := by
    intro t ht hout'
    refine ⟨hs.quiet hout'.1, ?_⟩
    rw [hs.place h.heap hout.2, if_neg ht]
    exact hout'.2
  refine ⟨?_, fun t ht => ?_, fun c p' hc => ?_, fun c c' p₁ p₂ hc hc' => ?_⟩
  · rw [hs.heap]
    exact h.heap.exec p.thread (.append p.queue)
  · rw [hs.threads] at ht
    exact hother t (fun he => ht (he ▸ hmem)) (h.unknown t ht)
  · rw [hs.threads]
    obtain ⟨hne, hold⟩ := hs.pending_of hc
    obtain ⟨hmem', hout'⟩ := h.pending c p' hold
    exact ⟨hmem', hother _ (fun he => hne (h.apart c cur p' p hold hp he)) hout'⟩
  · exact h.apart c c' p₁ p₂ (hs.pending_of hc).2 (hs.pending_of hc').2

theorem Sound.step {a : Action D T} (h : Sound s) (hs : s.step first main a = some s') :
    Sound s' := by
  cases step_stepped hs with
  | multi _ hm =>
    exact ⟨step_ok h.heap hm, fun t ht => (h.unknown t ht).step h.heap hm,
      fun c p hc => ⟨(h.pending c p hc).1, (h.pending c p hc).2.step h.heap hm⟩, h.apart⟩
  | failed => exact h
  | spawned _ _ hu _ hspawned => exact h.spawned hu hspawned
  | finished hp hfinished => exact h.finished hp hfinished

theorem Initial.sound {policy prio : Int} (h : Initial first main policy prio s) : Sound s := by
  refine ⟨h.heap, fun t ht => ⟨⟨h.waited t, fun d => ?_⟩, ?_⟩, fun c p hc => ?_,
    fun c _ p _ hc => ?_⟩
  · rw [h.pc d]
    exact List.not_mem_nil
  · rw [h.threads, List.mem_singleton] at ht
    rw [h.place t, if_neg ht]
  · rw [h.pending c] at hc
    cases hc
  · rw [h.pending c] at hc
    cases hc

/-! ## Threads that are created suspended -/

theorem Asleep.multi (h : Asleep s t) (hsound : Sound s) (hne : ∀ d, a ≠ .resume d t)
    (hs : s.multi.step first a = some m) (held : List T) :
    Asleep { s with multi := m, held := held } t := by
  obtain ⟨hstill, hplace⟩ := (h.still hsound).step hsound.heap (fun d he => absurd he (hne d)) hs
  refine ⟨hstill.toQuiet, ?_⟩
  rcases h.queue with hsq | hpending
  · exact Or.inl (hplace.trans hsq)
  · exact Or.inr hpending

theorem Asleep.spawned (h : Asleep s t) (ht : t ∈ s.threads) (hu : u ∉ s.threads)
    (hcur : s.pending cur = none) (hs : Spawned s cur u attr s') : Asleep s' t := by
  have hne : t ≠ u := fun he => hu (he ▸ ht)
  obtain ⟨p, hpending, -⟩ := hs.pending
  refine ⟨hs.quiet h.toQuiet, ?_⟩
  rcases h.queue with hsq | ⟨c, p', hc, hp'⟩
  · left
    rw [hs.place t, if_neg hne]
    exact hsq
  · refine Or.inr ⟨c, p', ?_, hp'⟩
    have hce : c ≠ cur := by
      rintro rfl
      rw [hcur] at hc
      cases hc
    rw [hpending, update_of_ne hce]
    exact hc

theorem Spawned.asleep (hs : Spawned s cur u attr s') (h : Sound s) (hu : u ∉ s.threads)
    (hsuspends : suspends attr = true) (hprocess : (s.params cur attr).scope = .process) :
    Asleep s' u := by
  obtain ⟨p, hpending, hthread, hqueue⟩ := hs.pending
  refine ⟨hs.quiet (h.unknown u hu).1, Or.inr ⟨cur, p, ?_, hthread, hqueue hsuspends hprocess⟩⟩
  rw [hpending, update_self]

theorem Asleep.finished (h : Asleep s t) (hsound : Sound s) (hp : s.pending cur = some p)
    (hs : Finished s cur p s') : Asleep s' t := by
  have hnone := (hsound.pending cur p hp).2.2
  have hplace := hs.place hsound.heap hnone
  refine ⟨hs.quiet h.toQuiet, ?_⟩
  rcases h.queue with hsq | ⟨c, p', hc, rfl, hqueue⟩
  · left
    have hne : t ≠ p.thread := by
      rintro rfl
      rw [hnone] at hsq
      cases hsq
    rw [hplace t, if_neg hne]
    exact hsq
  · by_cases he : c = cur
    · left
      rw [he, hp] at hc
      cases hc
      rw [hplace, if_pos rfl, hqueue]
    · refine Or.inr ⟨c, p', ?_, rfl, hqueue⟩
      rw [hs.pending, update_of_ne he]
      exact hc

/-- Nobody creates a thread that is suspended and bound to a native thread of its own. -/
def unboundSuspended (s : State D T) : Action D T → Bool
  | .spawn d _ attr native =>
    match s.multi.pc d with
    | .running cur =>
      !suspends attr || decide (native = .failed) || decide ((s.params cur attr).scope = .process)
    | _ => true
  | _ => true

structure Held (s : State D T) : Prop extends Sound s where
  held : ∀ t ∈ s.held, t ∈ s.threads ∧ Asleep s t

theorem mem_heldAfter {D : Type} {s : State D T} {a : Multi.Action D T} (ht : t ∈ s.heldAfter a) :
    t ∈ s.held ∧ ∀ d, a ≠ .resume d t := by
  cases a with
  | resume e u =>
    obtain ⟨hmem, hne⟩ := List.mem_filter.mp ht
    refine ⟨hmem, fun d he => ?_⟩
    cases he
    exact absurd rfl (of_decide_eq_true hne)
  | _ => exact ⟨ht, fun _ => nofun⟩

theorem Spawned.mem_held (hs : Spawned s cur u attr s') (ht : t ∈ s'.held) :
    (t = u ∧ suspends attr = true) ∨ t ∈ s.held := by
  rw [hs.held] at ht
  split at ht
  case isTrue hsuspends => exact (List.mem_cons.mp ht).imp (⟨·, hsuspends⟩) id
  case isFalse => exact Or.inr ht

theorem Held.step {a : Action D T} (h : Held s) (hok : unboundSuspended s a = true)
    (hs : s.step first main a = some s') : Held s' := by
  refine ⟨h.toSound.step hs, fun t ht => ?_⟩
  cases step_stepped hs with
  | multi _ hm =>
    obtain ⟨hheld, hne⟩ := mem_heldAfter ht
    obtain ⟨hmem, hasleep⟩ := h.held t hheld
    exact ⟨hmem, hasleep.multi h.toSound hne hm _⟩
  | failed => exact h.held t ht
  | spawned hpc hcur hu hnative hspawned =>
    rw [hspawned.threads]
    rcases hspawned.mem_held ht with ⟨rfl, hsuspends⟩ | hold
    · refine ⟨List.mem_cons_self, hspawned.asleep h.toSound hu hsuspends ?_⟩
      simpa [unboundSuspended, hpc, hsuspends, hnative] using hok
    · obtain ⟨hmem, hasleep⟩ := h.held t hold
      exact ⟨List.mem_cons_of_mem _ hmem, hasleep.spawned hmem hu hcur hspawned⟩
  | finished hp hfinished =>
    rw [hfinished.held] at ht
    rw [hfinished.threads]
    obtain ⟨hmem, hasleep⟩ := h.held t ht
    exact ⟨hmem, hasleep.finished h.toSound hp hfinished⟩

theorem Initial.isHeld {policy prio : Int} (h : Initial first main policy prio s) : Held s := by
  refine ⟨h.sound, fun t ht => ?_⟩
  rw [h.held] at ht
  cases ht

/-- **Created suspended means not runnable**, if no thread is both suspended and bound. From
the end of the spawn to the first resume the thread is in `pth_SQ`, and no native selects or
runs it, whatever the others do. -/
theorem held_not_runnable (first : D) (main : T) (policy prio : Int) (s : State D T)
    (hs : Reachable (State.step first main) (fun s a => unboundSuspended s a = true)
      (Initial first main policy prio) s) (t : T) (ht : t ∈ s.held) :
    ((∀ c p, s.pending c = some p → p.thread ≠ t) → s.multi.place t = some .pthSQ) ∧
      ∀ d, (s.multi.pc d).cur ≠ some t := by
  have h : Held s := hs.invariant (fun _ h => h.isHeld) fun _ _ _ h hok hstep => h.step hok hstep
  have hasleep : Asleep s t := (h.held t ht).2
  refine ⟨fun hdone => ?_, fun d hcur => hasleep.pc d (cur_mem_holds hcur)⟩
  rcases hasleep.queue with hsq | ⟨c, p, hc, hp, -⟩
  · exact hsq
  · exact absurd hp (hdone c p hc)

/-- A suspended thread of the given scope, by attributes that are not inherited. -/
def suspendedAttr (scope : Scope) : Attr where
  inheritsched := false
  scope := scope
  schedpolicy := schedOther
  prio := 20
  suspendstate := true
  joinable := true
  stacksize := 65536

/-- The main thread spawns a second one, suspended; its native does not find it. -/
theorem held_not_runnable_process :
    ∃ s : State Bool Bool,
      Reachable (State.step false false) (fun s a => unboundSuspended s a = true)
        (Initial false false schedOther 0) s ∧ true ∈ s.held ∧
      s.multi.place true = some .pthSQ ∧ ∀ d, (s.multi.pc d).cur ≠ some true := by
  obtain ⟨s, hrun, hheld, hnone⟩ : ∃ s : State Bool Bool, runOk (State.step false false)
      (fun s a => unboundSuspended s a = true) (init false false schedOther 0 1)
      [.multi (.moveNew false), .multi (.pick false), .multi (.go false),
      .spawn false true (some (suspendedAttr .process)) .unneeded, .append false,
      .multi (.yield false), .multi (.go false), .multi (.go false), .multi (.go false),
      .multi (.pick false)] = some s ∧ s.held = [true] ∧ ∀ c, (s.pending c).isNone :=
    exists_of_any (by decide +kernel)
  have hdone : ∀ c p, s.pending c = some p → p.thread ≠ true := by
    intro c p hc
    have hc' := hnone c
    rw [hc] at hc'
    cases hc'
  have hreach := reachable_of_runOk (.init (init_initial false false schedOther 0 1)) hrun
  have ht : true ∈ s.held := by
    rw [hheld]
    exact List.mem_cons_self
  obtain ⟨hplace, hcur⟩ := held_not_runnable false false schedOther 0 s hreach true ht
  exact ⟨s, hreach, ht, hplace hdone, hcur⟩

/-- The second thread is suspended and has a native of its own: when `pth_spawn` has returned
it is in the ready queue of that native, and the native runs it. -/
theorem bound_suspended_runs :
    Initial false false schedOther 0 (init false false schedOther 0 1 : State Bool Bool) ∧
    (run (State.step false false) (init false false schedOther 0 1)
      [.multi (.moveNew false), .multi (.pick false), .multi (.go false),
        .spawn false true (some (suspendedAttr .system)) (.got true), .append false]).map
      (fun s : State Bool Bool => (s.held, s.multi.place true)) =
        some ([true], some (.readyQueue true)) ∧
    (run (State.step false false) (init false false schedOther 0 1)
      [.multi (.moveNew false), .multi (.pick false), .multi (.go false),
        .spawn false true (some (suspendedAttr .system)) (.got true), .append false,
        .multi (.pick true), .multi (.go true)]).map
      (fun s : State Bool Bool => (s.held, s.multi.pc true)) =
        some ([true], .running true) := by
  refine ⟨init_initial false false schedOther 0 1, ?_⟩
  decide +kernel

end Ngpt.Sched.Create
