import Ngpt.Event.Ring

/-!
# ngpt — waiting for events (`pth_event.c`, `pth_sched.c`)

`pth_wait` resets the events of a ring, puts the thread into the waiting state and yields. The
event manager looks at the ring of a waiting thread in two passes. The first one tests the
events that need no I/O, the second one those that do; either of them marks an event whose
condition holds and moves the thread to the ready queue. A cancellation request or a signal that
is not blocked moves it as well. Between the passes the manager sleeps in `select`, and marks the
timer that ended the sleep. Back in `pth_wait` the thread goes through the ring once more and
counts.

Each native has an event manager, and their passes over the queue of the thread come in any order.
What the conditions of the events are is not in the model: a pass carries what the manager reads.
Which types each pass tests, when a pass ends early and which events it marks are as in the code.

Events are larger than a word, so an `int` counts those of a ring without overflow.

Result: `wait_count_iff_all_found`.
-/

namespace Ngpt.Event

open Function LinkedRing

variable {E : Type}

/-! ## Loops over a ring -/

/-- A loop over a list; the body returns the state it leaves and whether it breaks out. -/
def foldEvents {σ : Type} (body : E → σ → σ × Bool) : List E → σ → σ
  | [], s => s
  | ev :: evs, s => if (body ev s).2 then (body ev s).1 else foldEvents body evs (body ev s).1

theorem foldEvents_count (evs : List E) (n : Int) :
    foldEvents (fun _ occurred => (occurred + 1, false)) evs n = n + evs.length := by
  induction evs generalizing n with
  | nil => simp [foldEvents]
  | cons ev evs ih =>
    simp only [foldEvents, Bool.false_eq_true, if_false, ih, List.length_cons]
    omega

variable [DecidableEq E]

/-- `ev = evh; do { … } while ((ev = ev->ev_next) != evh)` from an event `ev` on;
`none` if the loop has not ended within `fuel` rounds. -/
def doRing {σ : Type} (l : Links E) (evh : E) (body : E → σ → σ × Bool) :
    Nat → E → σ → Option σ
  | 0, _, _ => none
  | fuel + 1, ev, s =>
    if (body ev s).2 then some (body ev s).1
    else if l.next ev = evh then some (body ev s).1
    else doRing l evh body fuel (l.next ev) (body ev s).1

variable {σ : Type} {l : Links E} {evh ev : E} {es as bs : List E} {body : E → σ → σ × Bool}

theorem doRing_suffix (hr : IsRing l evh es) (hs : evh :: es = as ++ ev :: bs) {fuel : Nat}
    (hfuel : bs.length < fuel) (s : σ) :
    doRing l evh body fuel ev s = some (foldEvents body (ev :: bs) s) := by
  induction bs generalizing as ev fuel s with
  | nil =>
    obtain ⟨fuel, rfl⟩ := Nat.exists_eq_succ_of_ne_zero (Nat.ne_of_gt hfuel)
    have hnext : l.next ev = evh := hr.next_split hs
    rw [doRing, if_pos hnext, foldEvents, foldEvents]
    split <;> rfl
  | cons b bs ih =>
    obtain ⟨fuel, rfl⟩ := Nat.exists_eq_succ_of_ne_zero (Nat.ne_of_gt (Nat.zero_lt_of_lt hfuel))
    have hnext : l.next ev = b := hr.next_split hs
    have hb : b ≠ evh := by
      rintro rfl
      have hnd := hr.nodup
      rw [hs] at hnd
      cases as with
      | nil | cons => simp_all
    have hs' : evh :: es = (as ++ [ev]) ++ b :: bs := by simpa using hs
    have hcons : foldEvents body (ev :: b :: bs) s = if (body ev s).2 then (body ev s).1
        else foldEvents body (b :: bs) (body ev s).1 := rfl
    rw [doRing, hnext, if_neg hb, ih hs' (by simpa using hfuel), hcons]
    split <;> rfl

/-- The code's `do … while` loop over a ring. -/
theorem doRing_eq (hr : IsRing l evh es) {fuel : Nat} (hfuel : es.length < fuel) (s : σ) :
    doRing l evh body fuel evh s = some (foldEvents body (evh :: es) s) := by
  have hs : evh :: es = [] ++ evh :: es := rfl
  exact doRing_suffix hr hs hfuel s

/-! ## The event manager -/

inductive EvType where
  | fd | select | sigs | time | msg | mutex | cond | tid | func | timeSigs
  deriving DecidableEq, Repr

/-- The types that the first pass can find occurred. -/
def EvType.early : EvType → Bool
  | .sigs | .time | .msg | .mutex | .cond | .tid | .func => true
  | .fd | .select | .timeSigs => false

/-- What the second pass reads. -/
structure Late (E : Type) where
  /-- the calling native is bounded -/
  isBounded : Bool
  /-- the waiting thread is in the queue of the calling native -/
  own       : Bool
  holds     : E → Bool
  cancelreq : Bool

/-- The types that the second pass can find occurred. -/
def EvType.late (w : Late E) : EvType → Bool
  | .mutex | .cond | .tid => w.isBounded
  | .fd => !w.isBounded && w.own
  | .select | .sigs | .timeSigs => !w.isBounded
  | .time | .msg | .func => false

/-- What the first pass reads when it comes to an event of a waiting thread: whether cancellation
is requested, whether signals are pending and one of them not blocked, and whether the condition
tested for the type of the event holds. -/
structure First (E : Type) where
  cancelreq : E → Bool
  sigpend   : E → Bool
  unblocked : E → Bool
  holds     : E → Bool

/-- What the event managers do to a waiting thread: the two passes over its events, and `select`
that returns when the timer `nexttimer_ev` has elapsed. -/
inductive Pass (E : Type) where
  | first (v : First E)
  | timer (nexttimer : E)
  | late (w : Late E)

/-- The body of the first pass; the state is the flags `ev_occurred` and `any_occurred`. -/
def firstPass (type : E → EvType) (v : First E) (ev : E) (s : (E → Bool) × Bool) :
    ((E → Bool) × Bool) × Bool :=
  if v.cancelreq ev ∧ type ev ≠ .mutex then ((s.1, true), true)
  else
    let signal : Bool := v.sigpend ev ∧ type ev ≠ .sigs
    let any : Bool := s.2 || (signal && v.unblocked ev)
    if signal ∧ any then ((s.1, any), true)
    else if s.1 ev = false ∧ (type ev).early ∧ v.holds ev then
      ((update s.1 ev true, true), false)
    else ((s.1, any), false)

/-- The body of the second pass. -/
def latePass (type : E → EvType) (w : Late E) (ev : E) (s : (E → Bool) × Bool) :
    ((E → Bool) × Bool) × Bool :=
  let occ :=
    if s.1 ev = false ∧ (type ev).late w ∧ w.holds ev then update s.1 ev true else s.1
  ((occ, s.2 || occ ev), false)

/-- The flags after `select`. The next timer is one of a time event or of a function event, and
for the latter the manager only repeats its passes. -/
def elapse (type : E → EvType) (occ : E → Bool) : Pass E → E → Bool
  | .timer nexttimer => if type nexttimer = .time then update occ nexttimer true else occ
  | .first _ | .late _ => occ

/-- A pass over the events of a thread that waits on the ring of `evh`: the flags it leaves, and
whether it moves the thread to the ready queue. -/
def manage (fuel : Nat) (l : Links E) (type : E → EvType) (evh : E) (occ : E → Bool) :
    Pass E → Option ((E → Bool) × Bool)
  | .first v => doRing l evh (firstPass type v) fuel evh (occ, false)
  | .timer nexttimer => some (elapse type occ (.timer nexttimer), false)
  | .late w =>
    (doRing l evh (latePass type w) fuel evh (occ, false)).map fun s => (s.1, s.2 || w.cancelreq)

/-- A run of the event managers; the flags are `none` if the thread still waits after it. Once it
is in the ready queue no pass comes to it, but a native may still sleep until its timer. -/
def resume (fuel : Nat) (l : Links E) (type : E → EvType) (evh : E) :
    (E → Bool) → List (Pass E) → Option (Option (E → Bool))
  | _, [] => some none
  | occ, p :: ps =>
    (manage fuel l type evh occ p).bind fun r =>
      if r.2 then some (some (ps.foldl (elapse type) r.1)) else resume fuel l type evh r.1 ps

/-! ## `pth_wait` -/

inductive Outcome (E : Type) where
  | returned (n : Int) (occ : E → Bool)
  /-- the thread has left through `pth_cancel_point` -/
  | exited
  | waiting

/-- The first loop of `pth_wait`. -/
def resetEvents (fuel : Nat) (l : Links E) (evRing : E) (occ : E → Bool) : Option (E → Bool) :=
  doRing l evRing (fun ev occ => (update occ ev false, false)) fuel evRing occ

/-- `pth_wait`; `cancelled` says whether the cancellation point after the wait finds a request
and cancellation enabled. -/
def pthWait (fuel : Nat) (l : Links E) (type : E → EvType) (occ : E → Bool) (evRing : Option E)
    (ps : List (Pass E)) (cancelled : Bool) : Option (Outcome E) :=
  match evRing with
  | none => some (.returned (-1) occ)
  | some evRing =>
    (resetEvents fuel l evRing occ).bind fun occ =>
      (resume fuel l type evRing occ ps).bind fun
        | none => some .waiting
        | some occ =>
          if type evRing ≠ .mutex ∧ type evRing ≠ .func ∧ type evRing ≠ .cond ∧ cancelled then
            some .exited
          else
            (doRing l evRing (fun _ occurred => (occurred + 1, false)) fuel evRing (0 : Int)).map
              fun occurred => .returned occurred occ

/-! ## What a pass finds -/

/-- `select` has found the timer elapsed. -/
def Pass.elapses (type : E → EvType) (ev : E) : Pass E → Bool
  | .timer nexttimer => nexttimer = ev ∧ type ev = .time
  | .first _ | .late _ => false

def elapsed (type : E → EvType) (ps : List (Pass E)) (ev : E) : Bool :=
  ps.any (Pass.elapses type ev)

/-- A request for cancellation or a signal ends the first pass at `ev`; `any` says whether it has
found an event before. -/
def First.interrupted (type : E → EvType) (v : First E) (any : Bool) (ev : E) : Bool :=
  (v.cancelreq ev ∧ type ev ≠ .mutex) ∨ (v.sigpend ev ∧ type ev ≠ .sigs ∧ (any ∨ v.unblocked ev))

/-- The events that the first pass tests. -/
def First.tested (type : E → EvType) (v : First E) (marked : E → Bool) : Bool → List E → List E
  | _, [] => []
  | any, ev :: evs =>
    if v.interrupted type any ev then []
    else ev :: tested type v marked (any || (!marked ev && (type ev).early && v.holds ev)) evs

/-- A pass comes to the event `ev` of a ring and finds that it has occurred; `marked` are the
events marked before. -/
def Pass.finds (type : E → EvType) (marked : E → Bool) (evs : List E) (ev : E) : Pass E → Bool
  | .first v => ev ∈ v.tested type marked false evs ∧ (type ev).early ∧ v.holds ev
  | .timer _ => false
  | .late w => (type ev).late w ∧ w.holds ev

variable {type : E → EvType} {occ occ' : E → Bool} {fuel : Nat} {evs : List E} {any : Bool}
  {p : Pass E} {ps : List (Pass E)}

theorem firstPass_eq (type : E → EvType) (v : First E) (ev : E) (any : Bool) (occ : E → Bool) :
    firstPass type v ev (occ, any) =
      if v.interrupted type any ev then ((occ, true), true)
      else if occ ev = false ∧ (type ev).early ∧ v.holds ev then
        ((update occ ev true, true), false)
      else ((occ, any), false) := by
  unfold firstPass First.interrupted
  cases v.cancelreq ev <;> cases v.sigpend ev <;> cases v.unblocked ev <;> cases any <;>
    by_cases hm : type ev = .mutex <;> by_cases hs : type ev = .sigs <;> simp_all

theorem tested_congr {E : Type} {type : E → EvType} {v : First E} {marked marked' : E → Bool}
    {evs : List E} (h : ∀ x ∈ evs, marked x = marked' x) (any : Bool) :
    v.tested type marked any evs = v.tested type marked' any evs := by
  induction evs generalizing any with
  | nil => rfl
  | cons ev evs ih =>
    rw [List.forall_mem_cons] at h
    simp only [First.tested, h.1, ih h.2]

theorem elapsed_cons (type : E → EvType) (p : Pass E) (ps : List (Pass E)) (ev : E) :
    elapsed type (p :: ps) ev = (p.elapses type ev || elapsed type ps ev) := rfl

theorem elapse_eq (type : E → EvType) (occ : E → Bool) (p : Pass E) (ev : E) :
    elapse type occ p ev = (occ ev || p.elapses type ev) := by
  cases p with
  | first | late => simp [elapse, Pass.elapses]
  | timer nexttimer =>
    simp only [elapse, Pass.elapses]
    by_cases h : nexttimer = ev
    · subst h
      by_cases ht : type nexttimer = .time <;> simp [ht]
    · split <;> simp [h, Ne.symm h]

theorem foldl_elapse (type : E → EvType) (ps : List (Pass E)) (occ : E → Bool) (ev : E) :
    ps.foldl (elapse type) occ ev = (occ ev || elapsed type ps ev) := by
  induction ps generalizing occ with
  | nil => simp [elapsed]
  | cons p ps ih => rw [List.foldl_cons, ih, elapse_eq, elapsed_cons, Bool.or_assoc]

theorem firstPass_flags (type : E → EvType) (v : First E) (hnd : evs.Nodup) (occ : E → Bool)
    (any : Bool) (x : E) :
    (foldEvents (firstPass type v) evs (occ, any)).1 x =
      (occ x || decide (x ∈ v.tested type occ any evs ∧ (type x).early ∧ v.holds x)) := by
  induction evs generalizing occ any with
  | nil => simp [foldEvents, First.tested]
  | cons ev evs ih =>
    obtain ⟨hev, hnd⟩ := List.nodup_cons.mp hnd
    have hother : ∀ y ∈ evs, update occ ev true y = occ y := fun y hy =>
      update_of_ne (ne_of_mem_of_not_mem hy hev) _ _
    simp only [foldEvents, firstPass_eq, First.tested]
    by_cases hint : v.interrupted type any ev = true
    · simp [hint]
    · by_cases hfound : occ ev = false ∧ (type ev).early ∧ v.holds ev
      · simp only [hint, hfound, Bool.not_false, Bool.and_self, Bool.or_true, if_true, if_false,
          Bool.false_eq_true, and_self, ih hnd, tested_congr hother]
        by_cases hx : x = ev
        · subst hx
          simp [hfound]
        · simp [hx]
      · have hany : (any || (!occ ev && (type ev).early && v.holds ev)) = any := by grind
        simp only [hint, hfound, hany, if_false, Bool.false_eq_true, ih hnd]
        by_cases hx : x = ev
        · subst hx
          grind
        · simp [hx]

theorem firstPass_quiet (v : First E)
    (h : (foldEvents (firstPass type v) evs (occ, any)).2 = false) :
    any = false ∧ (foldEvents (firstPass type v) evs (occ, any)).1 = occ := by
  induction evs generalizing occ any with
  | nil => exact ⟨h, rfl⟩
  | cons ev evs ih =>
    simp only [foldEvents, firstPass_eq] at h ⊢
    by_cases hint : v.interrupted type any ev = true
    · simp [hint] at h
    · by_cases hfound : occ ev = false ∧ (type ev).early ∧ v.holds ev
      · simp only [hint, hfound, if_true, if_false, Bool.false_eq_true, and_self] at h
        exact absurd (ih h).1 (by decide)
      · simp only [hint, hfound, if_false, Bool.false_eq_true] at h ⊢
        exact ih h

theorem latePass_flags (w : Late E) (occ : E → Bool) (any : Bool) (x : E) :
    (foldEvents (latePass type w) evs (occ, any)).1 x =
      (occ x || decide (x ∈ evs ∧ (type x).late w ∧ w.holds x)) := by
  induction evs generalizing occ any with
  | nil => simp [foldEvents]
  | cons ev evs ih =>
    simp only [foldEvents, latePass, Bool.false_eq_true, if_false, ih]
    by_cases hx : x = ev
    · subst hx
      split <;> grind
    · split <;> simp [hx]

theorem latePass_quiet (w : Late E)
    (h : (foldEvents (latePass type w) evs (occ, any)).2 = false) :
    any = false ∧ (foldEvents (latePass type w) evs (occ, any)).1 = occ := by
  induction evs generalizing occ any with
  | nil => exact ⟨h, rfl⟩
  | cons ev evs ih =>
    simp only [foldEvents, latePass, Bool.false_eq_true, if_false] at h ⊢
    obtain ⟨hany, hocc⟩ := ih h
    rw [Bool.or_eq_false_iff] at hany
    refine ⟨hany.1, hocc.trans ?_⟩
    by_cases hfound : occ ev = false ∧ (type ev).late w ∧ w.holds ev
    · rw [if_pos hfound] at hany
      simp at hany
    · rw [if_neg hfound]

/-! ## Runs of the event manager -/

theorem manage_isSome (type : E → EvType) (hr : IsRing l evh es) (hfuel : es.length < fuel)
    (occ : E → Bool) (p : Pass E) : ∃ r, manage fuel l type evh occ p = some r := by
  cases p with
  | first v => exact ⟨_, doRing_eq hr hfuel _⟩
  | timer nexttimer => exact ⟨_, rfl⟩
  | late w =>
    rw [manage, doRing_eq hr hfuel]
    exact ⟨_, rfl⟩

/-- What a pass marks if the thread goes on waiting. -/
theorem manage_quiet (hr : IsRing l evh es) (hfuel : es.length < fuel)
    (h : manage fuel l type evh occ p = some (occ', false)) : occ' = elapse type occ p := by
  cases p with
  | first v =>
    rw [manage, doRing_eq hr hfuel, Option.some_inj] at h
    have hquiet := firstPass_quiet v (congrArg Prod.snd h)
    rw [h] at hquiet
    exact hquiet.2
  | timer nexttimer =>
    simp only [manage, Option.some_inj, Prod.mk.injEq] at h
    exact h.1.symm
  | late w =>
    rw [manage, doRing_eq hr hfuel, Option.map_some, Option.some_inj, Prod.mk.injEq,
      Bool.or_eq_false_iff] at h
    rw [← h.1]
    exact (latePass_quiet w h.2.1).2

/-- What a pass marks that ends the wait. -/
theorem manage_flags (hr : IsRing l evh es) (hfuel : es.length < fuel)
    (h : manage fuel l type evh occ p = some (occ', true)) {x : E} (hx : x ∈ evh :: es) :
    p.elapses type x = false ∧ occ' x = (occ x || p.finds type occ (evh :: es) x) := by
  cases p with
  | first v =>
    rw [manage, doRing_eq hr hfuel, Option.some_inj] at h
    have hflags := firstPass_flags type v hr.nodup occ false x
    rw [h] at hflags
    exact ⟨rfl, hflags⟩
  | timer nexttimer => simp [manage] at h
  | late w =>
    rw [manage, doRing_eq hr hfuel, Option.map_some, Option.some_inj, Prod.mk.injEq] at h
    rw [← h.1, latePass_flags]
    exact ⟨rfl, by simp [Pass.finds, hx]⟩

theorem finds_congr {marked marked' : E → Bool} (h : ∀ x ∈ evs, marked x = marked' x) (x : E) :
    p.finds type marked evs x = p.finds type marked' evs x := by
  cases p with
  | first v => simp only [Pass.finds, tested_congr h]
  | timer | late => rfl

theorem resume_isSome (type : E → EvType) (hr : IsRing l evh es) (hfuel : es.length < fuel)
    (ps : List (Pass E)) (occ : E → Bool) :
    ∃ r, resume fuel l type evh occ ps = some r := by
  induction ps generalizing occ with
  | nil => exact ⟨none, rfl⟩
  | cons p ps ih =>
    obtain ⟨r, hmanage⟩ := manage_isSome type hr hfuel occ p
    rw [resume, hmanage, Option.bind_some]
    split
    · exact ⟨_, rfl⟩
    · exact ih r.1

/-- The events marked in a run, by timers and by the pass that ends it. -/
theorem resume_flags (hr : IsRing l evh es) (hfuel : es.length < fuel)
    (h : resume fuel l type evh occ ps = some (some occ')) :
    ∃ before p after, ps = before ++ p :: after ∧
      resume fuel l type evh occ before = some none ∧
      resume fuel l type evh occ (before ++ [p]) ≠ some none ∧
      ∀ x ∈ evh :: es, occ' x = (occ x || elapsed type ps x ||
        p.finds type (fun y => occ y || elapsed type before y) (evh :: es) x) := by
  induction ps generalizing occ with
  | nil => simp [resume] at h
  | cons p ps ih =>
    obtain ⟨⟨occ₁, ready⟩, hmanage⟩ := manage_isSome type hr hfuel occ p
    rw [resume, hmanage, Option.bind_some] at h
    cases ready with
    | true =>
      simp only [if_true, Option.some_inj] at h
      refine ⟨[], p, ps, rfl, rfl, by simp [resume, hmanage], ?_⟩
      intro x hx
      obtain ⟨helapses, hflag⟩ := manage_flags hr hfuel hmanage hx
      have hmarked : (fun y => occ y || elapsed type [] y) = occ := by simp [elapsed]
      rw [← h, foldl_elapse, hflag, hmarked, elapsed_cons, helapses, Bool.false_or,
        Bool.or_right_comm]
    | false =>
      simp only [Bool.false_eq_true, if_false] at h
      have hocc₁ := manage_quiet hr hfuel hmanage
      obtain ⟨before, q, after, rfl, hbefore, hq, hflags⟩ := ih h
      refine ⟨p :: before, q, after, rfl, ?_, ?_, ?_⟩
      · simpa [resume, hmanage] using hbefore
      · simpa [resume, hmanage] using hq
      · intro x hx
        simp only [hflags x hx, hocc₁, elapse_eq, elapsed_cons, Bool.or_assoc]

/-! ## The value of `pth_wait` -/

theorem foldEvents_reset (evs : List E) (occ : E → Bool) (x : E) :
    foldEvents (fun ev occ => (update occ ev false, false)) evs occ x =
      (occ x && decide (x ∉ evs)) := by
  induction evs generalizing occ with
  | nil => simp [foldEvents]
  | cons ev evs ih =>
    simp only [foldEvents, Bool.false_eq_true, if_false, ih]
    by_cases hx : x = ev <;> simp [hx]

theorem resetEvents_eq (hr : IsRing l ev es) (hfuel : es.length < fuel) (occ : E → Bool) :
    ∃ occ₀, resetEvents fuel l ev occ = some occ₀ ∧ ∀ x ∈ ev :: es, occ₀ x = false := by
  refine ⟨_, doRing_eq hr hfuel occ, ?_⟩
  intro x hx
  rw [foldEvents_reset]
  simp [hx]

theorem pthWait_returned (type : E → EvType) (hr : IsRing l ev es) (hfuel : es.length < fuel)
    {occ₀ : E → Bool} (hreset : resetEvents fuel l ev occ = some occ₀) (ps : List (Pass E))
    (cancelled : Bool) :
    ∃ o, pthWait fuel l type occ (some ev) ps cancelled = some o ∧
      ∀ n occ', o = .returned n occ' →
        n = (ev :: es).length ∧ resume fuel l type ev occ₀ ps = some (some occ') := by
  simp only [pthWait, hreset, Option.bind_some]
  obtain ⟨r, hresume⟩ := resume_isSome type hr hfuel ps occ₀
  rw [hresume, Option.bind_some]
  cases r with
  | none => exact ⟨.waiting, rfl, nofun⟩
  | some occ₁ =>
    simp only
    split
    · exact ⟨.exited, rfl, nofun⟩
    · refine ⟨_, congrArg _ (doRing_eq hr hfuel 0), ?_⟩
      intro n occ' h
      cases h
      exact ⟨by rw [foldEvents_count, Int.zero_add], rfl⟩

/-- **The value of `pth_wait`** on a ring of any length, through any run of the event managers:
it is the number of events marked as occurred if and only if every event of the ring is a timer
that has elapsed or is found by the pass that woke the thread. -/
theorem wait_count_iff_all_found (l : Links E) (ev : E) (es : List E) (hr : IsRing l ev es)
    (type : E → EvType) (occ : E → Bool) (ps : List (Pass E)) (cancelled : Bool) (fuel : Nat)
    (hfuel : es.length < fuel) :
    ∃ occ₀ o, resetEvents fuel l ev occ = some occ₀ ∧
      pthWait fuel l type occ (some ev) ps cancelled = some o ∧
      ∀ n occ', o = .returned n occ' →
        ∃ before p after, ps = before ++ p :: after ∧
          resume fuel l type ev occ₀ before = some none ∧
          resume fuel l type ev occ₀ (before ++ [p]) ≠ some none ∧
          (n = (ev :: es).countP occ' ↔ ∀ x ∈ ev :: es,
            elapsed type ps x ∨ p.finds type (elapsed type before) (ev :: es) x) := by
  obtain ⟨occ₀, hreset, hzero⟩ := resetEvents_eq hr hfuel occ
  obtain ⟨o, hwait, hcount⟩ := pthWait_returned type hr hfuel hreset ps cancelled
  refine ⟨occ₀, o, hreset, hwait, ?_⟩
  intro n occ' ho
  obtain ⟨hn, hresume⟩ := hcount n occ' ho
  obtain ⟨before, p, after, hps, hbefore, hp, hflags⟩ := resume_flags hr hfuel hresume
  refine ⟨before, p, after, hps, hbefore, hp, ?_⟩
  have hmarked : ∀ x ∈ ev :: es, (occ₀ x || elapsed type before x) = elapsed type before x :=
    fun x hx => by rw [hzero x hx, Bool.false_or]
  have hall : (∀ x ∈ ev :: es, occ' x = true) ↔ ∀ x ∈ ev :: es,
      elapsed type ps x ∨ p.finds type (elapsed type before) (ev :: es) x := by
    refine forall₂_congr fun x hx => ?_
    rw [hflags x hx, hzero x hx, finds_congr hmarked, Bool.false_or, Bool.or_eq_true]
  rw [← hall, ← List.countP_eq_length, hn]
  omega

/-- A timer and a descriptor. -/
def timerAndFd : Fin 2 → EvType
  | 0 => .time
  | 1 => .fd

/-- The ring of both. -/
def twoLinks : Links (Fin 2) := ⟨fun x => 1 - x, fun x => 1 - x⟩

theorem twoLinks_ring : IsRing twoLinks 0 [1] :=
  ⟨by simp [twoLinks, Links.Linked], by decide⟩

/-- A first pass that finds no request and no signal. -/
def undisturbed (holds : Fin 2 → Bool) : Pass (Fin 2) :=
  .first ⟨fun _ => false, fun _ => false, fun _ => false, holds⟩

/-- A second pass of the native of the waiting thread. -/
def ownNative (holds : Fin 2 → Bool) : Pass (Fin 2) := .late ⟨false, true, holds, false⟩

/-- One native sleeps until the timer elapses; before it makes its second pass, that of the
thread's own native finds the descriptor readable. -/
def bothOccur : List (Pass (Fin 2)) :=
  [undisturbed fun _ => false, .timer 0, ownNative fun x => x = 1]

theorem wait_count_iff_all_found_two :
    ∃ occ₀ o, resetEvents 2 twoLinks 0 (fun _ => true) = some occ₀ ∧
      pthWait 2 twoLinks timerAndFd (fun _ => true) (some 0) bothOccur false = some o ∧
      (∃ occ', o = .returned 2 occ' ∧ ([0, 1] : List (Fin 2)).countP occ' = 2) ∧
      ∀ n occ', o = .returned n occ' →
        ∃ before p after, bothOccur = before ++ p :: after ∧
          resume 2 twoLinks timerAndFd 0 occ₀ before = some none ∧
          resume 2 twoLinks timerAndFd 0 occ₀ (before ++ [p]) ≠ some none ∧
          (n = ([0, 1] : List (Fin 2)).countP occ' ↔ ∀ x ∈ ([0, 1] : List (Fin 2)),
            elapsed timerAndFd bothOccur x ∨
              p.finds timerAndFd (elapsed timerAndFd before) [0, 1] x) := by
  obtain ⟨occ₀, o, hreset, hwait, hiff⟩ := wait_count_iff_all_found twoLinks 0 [1] twoLinks_ring
    timerAndFd (fun _ => true) bothOccur false 2 (by decide)
  refine ⟨occ₀, o, hreset, hwait, ?_, hiff⟩
  cases hwait
  exact ⟨_, rfl, by decide⟩

/-- The timer has elapsed and the descriptor is not readable: the wait returns 2, and one of the
two events has occurred. -/
theorem wait_counts_events_not_occurred :
    IsRing twoLinks 0 [1] ∧ ∃ occ', pthWait 2 twoLinks timerAndFd (fun _ => false) (some 0)
        [undisturbed fun x => x = 0] false = some (.returned 2 occ') ∧
      ([0, 1] : List (Fin 2)).countP occ' = 1 := by
  exact ⟨twoLinks_ring, _, rfl, by decide⟩

end Ngpt.Event
