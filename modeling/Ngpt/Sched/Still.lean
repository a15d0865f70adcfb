import Ngpt.Sched.Edits

/-!
# ngpt — threads that nobody moves

A thread outside all queues, or in `pth_SQ`, that no native thread has in hand and whose
`waited_native` is null stays where it is: the schedulers take threads from the new, ready
and wait queues, a hand-off starts from `waited_native`, and `pth_suspend` does not find it
in the queues that it searches. Only `pth_resume` looks into `pth_SQ` (`Still.step`).
-/

namespace Ngpt.Sched.Multi

open Function Ngpt.Queue

variable {D T : Type} [DecidableEq D]

/-- Nobody has the thread in hand, and nobody is told to look for it. -/
structure Quiet (s : State D T) (t : T) : Prop where
  waited : s.waited t = none
  pc     : ∀ d, t ∉ (s.pc d).holds

/-- **Nobody moves the thread.** -/
structure Still (s : State D T) (t : T) : Prop extends Quiet s t where
  place : s.place t = none ∨ s.place t = some .pthSQ

variable {first d : D} {s s' : State D T} {t u cur : T} {a : Action D T} {q : QName D}
  {p : Pc D T} {v : View D T}

theorem Still.ne_of_place (h : Still s t) (hu : s.place u = some q) (hq : q ≠ .pthSQ) : t ≠ u := by
  rintro rfl
  rcases h.place with hp | hp <;> cases hp.symm.trans hu
  exact hq rfl

theorem Quiet.ne_of_holds (h : Quiet s t) (hpc : s.pc d = p) (hu : u ∈ p.holds) : t ≠ u := by
  rintro rfl
  exact h.pc d (hpc ▸ hu)

theorem Quiet.update (h : Quiet s t) (hp : t ∉ p.holds) (e : D) :
    t ∉ (update s.pc d p e).holds := by
  by_cases he : e = d
  · rwa [he, update_self]
  · rw [update_of_ne he]
    exact h.pc e

theorem notMem_done {c : Option T} (h : t ∉ c.toList) : t ∉ (Pc.done c : Pc D T).holds := by
  cases c with
  | none => exact List.not_mem_nil
  | some cur => exact h

theorem Still.ne_of_first (h : Still s t) (hO : s.heap.Ok) (hf : pqueueFirstNode s.heap q = some u)
    (hq : feeds q = true) : t ≠ u :=
  h.ne_of_place (hO.place_of_first hf) (isWait_of_feeds hq).2

variable [DecidableEq T]

theorem Quiet.waited_update (h : Quiet s t) (ht : t ≠ u) (w : Option D) :
    Function.update s.waited u w t = none :=
  (update_of_ne ht _ _).trans h.waited

theorem Still.effect (h : Still s t) (hO : s.heap.Ok)
    (hresume : ∀ d, a = .resume d t → s.place t = none) (he : Effect s a v) :
    v.waited t = none ∧ (∀ d, t ∉ (v.pc d).holds) ∧ v.heap.place t = s.place t := by
  have hq : Quiet s t := h.toQuiet
  have hd : ∀ {d p}, s.pc d = p → t ∉ p.holds := fun hpc => hpc ▸ h.pc _
  cases he with
  | quiet => exact ⟨h.waited, h.pc, rfl⟩
  | turn hpc _ hholds =>
    refine ⟨h.waited, hq.update fun ht => ?_, rfl⟩
    rcases hholds t ht with hin | ⟨q, hin, hq⟩
    · exact hd hpc hin
    · have hplace := hO.contains_iff.mp hin
      rcases hq with hne | hresumed
      · exact h.ne_of_place hplace hne rfl
      · cases (hresume _ hresumed).symm.trans hplace
  | requeue hf hfeeds =>
    exact ⟨h.waited, h.pc, execs_place_of_ne _ (h.ne_of_first hO hf hfeeds)⟩
  | pick _ hf hfeeds =>
    have hu := h.ne_of_first hO hf hfeeds
    exact ⟨h.waited, hq.update (by simpa [Pc.holds] using hu), execs_place_of_ne _ hu⟩
  | enter | leave | drop => exact ⟨h.waited, hq.update List.not_mem_nil, rfl⟩
  | wake _ hin =>
    have hu := h.ne_of_place (hO.contains_iff.mp hin) (by simp)
    exact ⟨h.waited, hq.update (by simpa [Pc.holds] using hu), execs_place_of_ne _ hu⟩
  | switched hpc _ _ hholds =>
    refine ⟨h.waited, hq.update (by simp [hholds]), execs_place_of_ne _ ?_⟩
    rcases hpc with hpc | ⟨b, hpc⟩ <;> exact hq.ne_of_holds hpc (by simp [Pc.holds])
  | marked hpc | park _ hpc | wqLock _ hpc | remove _ hpc | resumeRemove _ hpc =>
    exact ⟨h.waited, hq.update (hd hpc :),
      execs_place_of_ne _ (hq.ne_of_holds hpc (by simp [Pc.holds]))⟩
  | linked hpc =>
    exact ⟨hq.waited_update (hq.ne_of_holds hpc (by simp [Pc.holds])) _,
      hq.update List.not_mem_nil, rfl⟩
  | woken _ hpc =>
    have hu := hq.ne_of_holds hpc List.mem_cons_self
    exact ⟨hq.waited_update hu _, hq.update List.not_mem_nil, execs_place_of_ne _ hu⟩
  | ready _ hpc =>
    refine ⟨h.waited, hq.update (notMem_done fun ht => hd hpc (List.mem_cons_of_mem _ ht)), ?_⟩
    exact execs_place_of_ne _ (hq.ne_of_holds hpc List.mem_cons_self)
  | @handoff _ _ _ u _ hpc _ hwaited =>
    have hu : t ≠ u := fun he => hwaited (he ▸ h.waited)
    refine ⟨h.waited, hq.update fun ht => ?_, execs_place_of_ne _ hu⟩
    exact (List.mem_cons.mp ht).elim hu (hd hpc)
  | cleared hpc _ _ hholds hmem =>
    exact ⟨hq.waited_update (hq.ne_of_holds hpc hmem) _, hq.update (hholds ▸ hd hpc), rfl⟩
  | toSQ hpc =>
    refine ⟨h.waited, hq.update fun ht => hd hpc ?_,
      execs_place_of_ne _ (hq.ne_of_holds hpc (by simp [Pc.holds]))⟩
    simp_all [Pc.holds]
  | refused hpc =>
    refine ⟨h.waited, hq.update fun ht => hd hpc ?_, rfl⟩
    simp_all [Pc.holds]
  | resumed _ hpc _ hp =>
    refine ⟨h.waited, hq.update fun ht => hd hpc ?_,
      execs_place_of_ne _ (hq.ne_of_holds hpc (by simp [Pc.holds]))⟩
    rcases hp with rfl | rfl <;> simp_all [Pc.holds]

theorem Still.step (h : Still s t) (hO : s.heap.Ok)
    (hresume : ∀ d, a = .resume d t → s.place t = none) (hs : s.step first a = some s') :
    Still s' t ∧ s'.place t = s.place t := by
  obtain ⟨hwaited, hpc, hplace⟩ := h.effect hO hresume (effect_of_step hs)
  refine ⟨⟨⟨hwaited, hpc⟩, ?_⟩, hplace⟩
  exact h.place.imp hplace.trans hplace.trans

end Ngpt.Sched.Multi
