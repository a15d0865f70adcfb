import Ngpt.Sched.Edits

/-!
# ngpt — threads in hand

A native thread that moves a thread has it in hand from the removal to the next append, and
while it edits a wait queue and `waited_native` one after the other. `Pc.expects` says in
which queue a thread in hand is linked and what its `waited_native` is. For every other
thread the two agree: `waited_native` is `ds` if and only if the node is linked in the wait
queue of `ds`.
-/

namespace Ngpt.Sched.Multi

open Function Ngpt.Queue

variable {D T : Type} {d e ds : D} {v v' : View D T} {t u x : T} {q : QName D} {p p₀ : Pc D T}
  {w : Option (QName D) × Option D} {o : List (Op (QName D))}

/-! ## The queues and the locks -/

/-- The queue that a thread is linked in and its `waited_native` agree. -/
def Agree (q : Option (QName D)) (w : Option D) : Prop :=
  ∀ ds, w = some ds ↔ q = some (.waitQueue ds)

theorem Agree.waited_none {w : Option D} (h : Agree (some q) w) (hq : isWait q = false) :
    w = none := by
  rcases hw : w with _ | ds
  · rfl
  · cases Option.some.inj ((h ds).mp hw)
    cases hq

theorem Agree.elsewhere {r : Option (QName D)} (hr : ∀ q, r = some q → isWait q = false) :
    Agree r none := by
  refine fun ds => iff_of_false (by simp) fun h => ?_
  cases hr _ h

/-- A native has the lock of a wait queue exactly where it says so. -/
def Locks (pc : D → Pc D T) (lock : D → Option D) : Prop :=
  ∀ d ds, (pc d).lockOf = some ds ↔ lock ds = some d

/-- A thread that is moved is not the one that the native runs. -/
def Two (p : Pc D T) : Prop := ∀ t w, p.moved = some (t, w) → p.own ≠ some t

section Natives

variable [DecidableEq D] {pc : D → Pc D T} {lock : D → Option D}

theorem Locks.goto (h : Locks pc lock) (hpc : pc d = p₀) (hp : p.lockOf = p₀.lockOf) :
    Locks (update pc d p) lock := by
  intro e ds
  rw [← h e ds]
  by_cases he : e = d
  · rw [he, update_self, hp, hpc]
  · rw [update_of_ne he]

theorem Locks.acquire (h : Locks pc lock) (hpc : pc d = p₀) (hbefore : p₀.lockOf = none)
    (hafter : p.lockOf = some ds) (hfree : lock ds = none) :
    Locks (update pc d p) (update lock ds (some d)) := by
  intro e es
  have hd := h d es
  rw [hpc, hbefore] at hd
  by_cases hes : es = ds <;> by_cases he : e = d
  · simp [hes, he, hafter]
  · simp [hes, he, h e ds, hfree, Ne.symm he]
  · simp [hes, he, hafter, Ne.symm hes, ← hd]
  · simp [hes, he, h e es]

theorem Locks.release (h : Locks pc lock) (hpc : pc d = p₀) (hbefore : p₀.lockOf = some ds)
    (hafter : p.lockOf = none) : Locks (update pc d p) (update lock ds none) := by
  intro e es
  have hd := h d
  rw [hpc, hbefore] at hd
  have hmine : lock ds = some d := (hd ds).mp rfl
  by_cases hes : es = ds <;> by_cases he : e = d
  · simp [hes, he, hafter]
  · simp [hes, he, h e ds, hmine, Ne.symm he]
  · simp [hes, he, hafter, Ne.symm hes, ← hd es]
  · simp [hes, he, h e es]

theorem two_update (h : ∀ e, Two (pc e)) (hp : Two p) (e : D) : Two (update pc d p e) := by
  by_cases he : e = d
  · rwa [he, update_self]
  · rw [update_of_ne he]
    exact h e

end Natives

/-! ## Threads in hand -/

variable [DecidableEq T]

/-- The queue and `waited_native` of a thread in hand. -/
def Pc.expects (pc : Pc D T) (t : T) : Option (Option (QName D) × Option D) :=
  match pc.moved with
  | some (u, w) => if t = u then some w else if pc.own = some t then some (none, none) else none
  | none => if pc.own = some t then some (none, none) else none

/-- One native has the thread in hand and finds it as it expects, or nobody has it. -/
def Placed (v : View D T) (t : T) : Prop :=
  (∃ d, (v.pc d).expects t = some (v.heap.place t, v.waited t) ∧
    ∀ e, e ≠ d → (v.pc e).expects t = none) ∨
  ((∀ d, (v.pc d).expects t = none) ∧ Agree (v.heap.place t) (v.waited t))

/-- Nobody else has a thread in hand, and the locks are where the code says. -/
structure Inv (v : View D T) : Prop where
  heap   : v.heap.Ok
  placed : ∀ t, Placed v t
  two    : ∀ d, Two (v.pc d)
  locks  : Locks v.pc v.lock

/-- A thread in hand is linked in `pth_SQ` after a deferred suspension, or in a wait queue that
the native has the lock of. -/
theorem Pc.lockOf_of_expects (hw : p.expects t = some w) :
    (∀ q, w.1 = some q → p = .parked t true ∧ q = .pthSQ ∨
        ∃ ds, q = .waitQueue ds ∧ p.lockOf = some ds) ∧
      ∀ ds, w.2 = some ds → p.lockOf = some ds := by
  cases p
  case parked u b =>
    cases b <;> simp only [Pc.expects, Pc.moved] at hw <;> split at hw
    case true.isFalse => simp [Pc.own] at hw
    all_goals
      cases hw
      try simp_all
  all_goals
    simp only [Pc.expects, Pc.moved] at hw
    repeat' split at hw
    all_goals
      cases hw
      try simp [Pc.lockOf]

theorem Placed.congr (h : Placed v t) (hplace : v'.heap.place t = v.heap.place t)
    (hwaited : v'.waited t = v.waited t)
    (hpc : ∀ e, (v'.pc e).expects t = (v.pc e).expects t) : Placed v' t := by
  unfold Placed at h ⊢
  simpa only [hplace, hwaited, hpc] using h

theorem Inv.loose_of_place (h : Inv v) (hp : v.heap.place t = some q)
    (hsq : q = .pthSQ → ∀ e, v.pc e ≠ .parked t true)
    (hq : ∀ ds e, q = .waitQueue ds → v.lock ds = some e → (v.pc e).expects t = none) :
    (∀ e, (v.pc e).expects t = none) ∧ Agree (some q) (v.waited t) := by
  rcases h.placed t with ⟨e, he, -⟩ | hloose
  · rcases (Pc.lockOf_of_expects he).1 q hp with ⟨hparked, hpq⟩ | ⟨ds, hds, hlock⟩
    · exact absurd hparked (hsq hpq e)
    · cases he.symm.trans (hq ds e hds ((h.locks e ds).mp hlock))
  · rwa [hp] at hloose

theorem Inv.loose_of_plain (h : Inv v) (hp : v.heap.place t = some q) (hq : isWait q = false)
    (hsq : q = .pthSQ → ∀ e, v.pc e ≠ .parked t true) :
    (∀ e, (v.pc e).expects t = none) ∧ v.waited t = none := by
  obtain ⟨hnone, hagree⟩ := h.loose_of_place hp hsq fun ds e hds => by
    rw [hds] at hq
    cases hq
  exact ⟨hnone, hagree.waited_none hq⟩

theorem Inv.loose_of_feeds (h : Inv v) (hp : v.heap.place t = some q) (hq : feeds q = true) :
    (∀ e, (v.pc e).expects t = none) ∧ v.waited t = none :=
  h.loose_of_plain hp (isWait_of_feeds hq).1 fun hsq => absurd hsq (isWait_of_feeds hq).2

theorem Inv.loose_of_wait (h : Inv v) (hp : v.heap.place t = some (.waitQueue ds))
    (hlock : ∀ e, v.lock ds = some e → (v.pc e).expects t = none) :
    (∀ e, (v.pc e).expects t = none) ∧ v.waited t = some ds := by
  obtain ⟨hnone, hagree⟩ := h.loose_of_place hp (fun hsq => by cases hsq) fun es e hes => by
    cases hes
    exact hlock e
  exact ⟨hnone, (hagree ds).mpr rfl⟩

theorem Inv.loose_of_waited (h : Inv v) (hw : v.waited t = some ds) (hlock : v.lock ds = none) :
    v.heap.place t = some (.waitQueue ds) := by
  rcases h.placed t with ⟨e, he, -⟩ | ⟨-, hagree⟩
  · have hheld := (h.locks e ds).mp ((Pc.lockOf_of_expects he).2 ds hw)
    cases hlock.symm.trans hheld
  · exact (hagree ds).mp hw

/-- The two agree for all threads while no lock is held. -/
theorem Inv.agree (h : Inv v) (hfree : ∀ ds, v.lock ds = none) (t : T) :
    Agree (v.heap.place t) (v.waited t) := by
  rcases h.placed t with ⟨e, he, -⟩ | ⟨-, hagree⟩
  · obtain ⟨hfst, hsnd⟩ := Pc.lockOf_of_expects he
    have hlockOf : ∀ ds, (v.pc e).lockOf ≠ some ds := by simp [h.locks e, hfree]
    refine fun ds => iff_of_false (fun hw => hlockOf ds (hsnd ds hw)) fun hp => ?_
    rcases hfst _ hp with ⟨-, hsq⟩ | ⟨es, -, hes⟩
    · cases hsq
    · exact hlockOf es hes
  · exact hagree

/-! ## The rules -/

variable [DecidableEq D] {pc : D → Pc D T} {lock : D → Option D}

theorem Inv.in_hand (h : Inv v) (hpc : v.pc d = p₀) (hx : p₀.expects x = some w) :
    v.heap.place x = w.1 ∧ v.waited x = w.2 ∧ ∀ e, e ≠ d → (v.pc e).expects x = none := by
  rw [← hpc] at hx
  rcases h.placed x with ⟨e, he, hother⟩ | ⟨hnone, -⟩
  · by_cases hde : d = e
    · subst hde
      cases hx.symm.trans he
      exact ⟨rfl, rfl, hother⟩
    · cases hx.symm.trans (hother d hde)
  · cases hx.symm.trans (hnone d)

theorem expects_update (hpc : pc d = p₀) (hp : p.expects u = p₀.expects u) (e : D) :
    (update pc d p e).expects u = (pc e).expects u := by
  by_cases he : e = d
  · rw [he, update_self, hpc, hp]
  · rw [update_of_ne he]

/-- The native has the same threads in hand. -/
theorem Inv.stay (h : Inv v) (hpc : v.pc d = p₀) (hp : p.own = p₀.own ∧ p.moved = p₀.moved)
    (hlocks : Locks (update v.pc d p) lock) :
    Inv { v with pc := update v.pc d p, lock := lock } := by
  have hexp : ∀ u, p.expects u = p₀.expects u := by
    intro u
    unfold Pc.expects
    rw [hp.1, hp.2]
  refine ⟨h.heap, fun t => (h.placed t).congr rfl rfl (expects_update hpc (hexp t)),
    two_update h.two ?_, hlocks⟩
  have htwo := h.two d
  rw [hpc] at htwo
  unfold Two
  rwa [hp.1, hp.2]

/-- The rule for a step that concerns one thread. -/
theorem Inv.move (h : Inv v) (hheap : v'.heap = execs v.heap x o)
    (hwaited : ∀ u, u ≠ x → v'.waited u = v.waited u)
    (hpc : ∀ u, u ≠ x → ∀ e, (v'.pc e).expects u = (v.pc e).expects u) (hx : Placed v' x)
    (htwo : ∀ e, Two (v'.pc e)) (hlocks : Locks v'.pc v'.lock) : Inv v' := by
  refine ⟨by rw [hheap]; exact h.heap.execs x o, fun t => ?_, htwo, hlocks⟩
  by_cases ht : t = x
  · rw [ht]
    exact hx
  · refine (h.placed t).congr ?_ (hwaited t ht) (hpc t ht)
    rw [hheap, execs_place_of_ne o ht]

/-- The native `d` has `x` in hand, takes it or gives it up. -/
theorem Inv.moveBy (h : Inv v) (hheap : v'.heap = execs v.heap x o)
    (hwaited : ∀ u, u ≠ x → v'.waited u = v.waited u) (hpc : v.pc d = p₀)
    (hpc' : v'.pc = update v.pc d p) (hfree : ∀ e, e ≠ d → (v.pc e).expects x = none)
    (hexp : ∀ u, u ≠ x → p.expects u = p₀.expects u)
    (hx : p.expects x = some (v'.heap.place x, v'.waited x) ∨
      (p.expects x = none ∧ Agree (v'.heap.place x) (v'.waited x)))
    (htwo : Two p) (hlocks : Locks v'.pc v'.lock) : Inv v' := by
  refine h.move hheap hwaited (fun u hu => ?_) ?_ ?_ hlocks
  · rw [hpc']
    exact expects_update hpc (hexp u hu)
  · rcases hx with hin | ⟨hnone, hagree⟩
    · refine Or.inl ⟨d, by rw [hpc', update_self, hin], fun e he => ?_⟩
      rw [hpc', update_of_ne he, hfree e he]
    · refine Or.inr ⟨fun e => ?_, hagree⟩
      rw [hpc']
      by_cases he : e = d
      · rw [he, update_self, hnone]
      · rw [update_of_ne he, hfree e he]
  · rw [hpc']
    exact two_update h.two htwo

end Ngpt.Sched.Multi
