import Ngpt.Event.Ring

/-!
# ngpt — calls with extra events (`pth_high.c`, `pth_sync.c`)

`pth_accept_ev` and `pth_cond_await` can wait more than once in a call: the first one as long as
`accept` has nothing to return, the second one if it wakes up and finds that the condition is no
longer signaled. Both join their own event with the extra events before the first wait and take
it out after every wait. `pth_accept_ev` makes the ring only together with its event, and
`pth_cond_await` jumps back to a place behind the call that makes it.

The modelled path of `pth_cond_await` is that of a native that is not bounded.

Result: `extra_events_armed_iff_first_wait`.
-/

namespace Ngpt.Event

open LinkedRing

variable {E : Type} {l : Links E} {own e : E} {es : List E} {rv : Int} {pshared : Bool}

/-- A wait on the own event and the events `xs`, in some order. -/
def Armed (own : E) (xs : List E) (l : Links E) : Prop :=
  ∃ ys, IsRing l own ys ∧ ∀ x, x ∈ ys ↔ x ∈ xs

theorem not_armed_single (hown : IsRing l own []) : ¬ Armed own (e :: es) l := by
  rintro ⟨ys, hys, hmem⟩
  have hnil : ys = [] := hys.unique hown
  have he : e ∈ ys := (hmem e).mpr List.mem_cons_self
  rw [hnil] at he
  exact List.not_mem_nil he

variable [DecidableEq E]

/-- `pth_event` with `PTH_MODE_STATIC`: the event of the call, linked to itself. -/
def pthEventStatic (l : Links E) (ev : E) : Links E := (l.setPrev ev ev).setNext ev ev

/-- `if (ev_extra != NULL) pth_event_concat(ev, ev_extra, NULL);` -/
def concatExtra (l : Links E) (ev : E) : Option E → Links E
  | none => l
  | some evExtra => (pthEventConcat l (some ev) [evExtra]).2

/-- `if (ev_extra != NULL) pth_event_isolate(ev);` -/
def isolateExtra (l : Links E) (ev : E) : Option E → Links E
  | none => l
  | some _ => (pthEventIsolate l (some ev)).2

inductive AcceptReturn where
  | ebadf
  | eintr
  | returned (rv : Int)
  deriving DecidableEq, Repr

/-- The loop of `pth_accept_ev`. The list has an entry for each time that `accept` fails with
EAGAIN, with the flag of the call's own event after the wait; then `accept` returns `rv`. The
result has the links at each `pth_wait`. -/
def acceptLoop (evExtra : Option E) (own : E) (rv : Int) :
    Links E → Option E → List Bool → List (Links E) × AcceptReturn
  | _, _, [] => ([], .returned rv)
  | l, ev, occurred :: rest =>
    let l := if ev = none then concatExtra (pthEventStatic l own) own evExtra else l
    let l' := isolateExtra l own evExtra
    if evExtra ≠ none ∧ occurred = false then ([l], .eintr)
    else
      let r := acceptLoop evExtra own rv l' (some own) rest
      (l :: r.1, r.2)

/-- `pth_accept_ev`; `fdmode` says whether the descriptor could be made non-blocking. -/
def pthAcceptEv (fdmode : Bool) (evExtra : Option E) (own : E) (rv : Int) (l : Links E)
    (again : List Bool) : List (Links E) × AcceptReturn :=
  if fdmode then acceptLoop evExtra own rv l none again else ([], .ebadf)

/-- What `pth_cond_await` finds after a wait: `PTH_COND_SIGNALED` in the state of the condition
and the flag of its own event. -/
structure Wake where
  signaled : Bool
  occurred : Bool
  deriving DecidableEq, Repr

/-- `pth_cond_await` from the label `wait` on: the links at each `pth_wait`, as far as there are
wake-ups. -/
def awaitLoop (evExtra : Option E) (own : E) (pshared : Bool) :
    Links E → List Wake → List (Links E)
  | l, [] => [l]
  | l, w :: ws =>
    let l' := isolateExtra l own evExtra
    if w.signaled = false ∧ w.occurred ∧ pshared = false then
      l :: awaitLoop evExtra own pshared l' ws
    else [l]

def pthCondAwait (evExtra : Option E) (own : E) (pshared : Bool) (l : Links E) (ws : List Wake) :
    List (Links E) :=
  awaitLoop evExtra own pshared (concatExtra (pthEventStatic l own) own evExtra) ws

/-! ## The rings of the waits -/

theorem pthEventStatic_ring (l : Links E) (own : E) : IsRing (pthEventStatic l own) own [] :=
  IsRing.empty_iff.mpr ⟨by simp [pthEventStatic], by simp [pthEventStatic]⟩

theorem pthEventStatic_keep (he : IsRing l e es) (hown : own ∉ e :: es) :
    IsRing (pthEventStatic l own) e es := by
  refine he.congr (fun a ha => ?_) (fun a ha => ?_)
  · simp [pthEventStatic, ne_of_mem_of_not_mem ha hown]
  · simp [pthEventStatic, ne_of_mem_of_not_mem ha hown]

theorem concatExtra_armed (he : IsRing l e es) (hown : own ∉ e :: es) :
    Armed own (e :: es) (concatExtra (pthEventStatic l own) own (some e)) := by
  refine ⟨e :: es, ?_, fun x => Iff.rfl⟩
  have hconcat := (pthEventConcat_ring [(e, es)] (pthEventStatic_ring l own)
    (by simpa using pthEventStatic_keep he hown) (by simpa [events] using hown)).2
  simpa [events, concatExtra] using hconcat

theorem isolateExtra_concatExtra (he : IsRing l e es) (hown : own ∉ e :: es) :
    isolateExtra (concatExtra (pthEventStatic l own) own (some e)) own (some e) =
      pthEventStatic l own :=
  isolate_concat (pthEventStatic_ring l own) (pthEventStatic_keep he hown) hown

theorem acceptLoop_single (hown : IsRing l own []) (again : List Bool) :
    ∀ lw ∈ (acceptLoop (some e) own rv l (some own) again).1, lw = l := by
  induction again with
  | nil => simp [acceptLoop]
  | cons occurred rest ih =>
    have hiso : isolateExtra l own (some e) = l := isolate_single hown
    intro lw hlw
    simp only [acceptLoop, reduceCtorEq, if_false, hiso] at hlw
    split at hlw
    · simpa using hlw
    · rcases List.mem_cons.mp hlw with hlw | hlw
      · exact hlw
      · exact ih lw hlw

theorem awaitLoop_single (hown : IsRing l own []) (ws : List Wake) :
    ∀ lw ∈ awaitLoop (some e) own pshared l ws, lw = l := by
  induction ws with
  | nil => simp [awaitLoop]
  | cons w ws ih =>
    have hiso : isolateExtra l own (some e) = l := isolate_single hown
    intro lw hlw
    simp only [awaitLoop, hiso] at hlw
    split at hlw
    · rcases List.mem_cons.mp hlw with hlw | hlw
      · exact hlw
      · exact ih lw hlw
    · simpa using hlw

theorem acceptLoop_waits_eq_nil {ev : Option E} (again : List Bool) :
    (acceptLoop (some e) own rv l ev again).1 = [] ↔ again = [] := by
  cases again with
  | nil => simp [acceptLoop]
  | cons occurred again =>
    simp only [acceptLoop]
    split <;> simp

theorem awaitLoop_ne_nil (ws : List Wake) : awaitLoop (some e) own pshared l ws ≠ [] := by
  cases ws with
  | nil => simp [awaitLoop]
  | cons w ws =>
    simp only [awaitLoop]
    split <;> simp

/-- From the second wait of `pth_accept_ev` on the own event is alone. -/
theorem acceptEv_waits (rv : Int) (he : IsRing l e es) (hown : own ∉ e :: es) (occurred : Bool)
    (again : List Bool) :
    ∃ rest, (acceptLoop (some e) own rv l none (occurred :: again)).1 =
        concatExtra (pthEventStatic l own) own (some e) :: rest ∧
      (∀ lw ∈ rest, lw = pthEventStatic l own) ∧ (rest = [] ↔ occurred = true → again = []) := by
  simp only [acceptLoop, if_true, isolateExtra_concatExtra he hown]
  cases occurred with
  | false => exact ⟨[], by simp⟩
  | true =>
    refine ⟨_, rfl, acceptLoop_single (pthEventStatic_ring l own) again, ?_⟩
    simpa using acceptLoop_waits_eq_nil again

/-- The wake-up leads back to the label `wait`. -/
def Wake.again (pshared : Bool) (w : Wake) : Prop :=
  w.signaled = false ∧ w.occurred = true ∧ pshared = false

/-- From the second wait of `pth_cond_await` on the own event is alone. -/
theorem condAwait_waits (pshared : Bool) (he : IsRing l e es) (hown : own ∉ e :: es)
    (ws : List Wake) :
    ∃ rest, pthCondAwait (some e) own pshared l ws =
        concatExtra (pthEventStatic l own) own (some e) :: rest ∧
      (∀ lw ∈ rest, lw = pthEventStatic l own) ∧
      (rest = [] ↔ ∀ w ∈ ws.head?, ¬ w.again pshared) := by
  unfold pthCondAwait
  cases ws with
  | nil => exact ⟨[], rfl, by simp⟩
  | cons w ws =>
    simp only [awaitLoop, isolateExtra_concatExtra he hown]
    split
    next hagain =>
      refine ⟨_, rfl, awaitLoop_single (pthEventStatic_ring l own) ws, ?_⟩
      exact iff_of_false (awaitLoop_ne_nil ws) fun h => h w rfl hagain
    next hagain =>
      refine ⟨[], rfl, by simp, iff_of_true rfl ?_⟩
      intro w' hw'
      obtain rfl := Option.some.inj hw'
      exact hagain

theorem armed_iff_nil (he : IsRing l e es) (hown : own ∉ e :: es) {rest : List (Links E)}
    (hrest : ∀ lw ∈ rest, lw = pthEventStatic l own) :
    (∀ lw ∈ concatExtra (pthEventStatic l own) own (some e) :: rest, Armed own (e :: es) lw) ↔
      rest = [] := by
  rw [List.forall_mem_cons, and_iff_right (concatExtra_armed he hown)]
  cases rest with
  | nil => simp
  | cons lw rest =>
    have hlw : lw = pthEventStatic l own := hrest lw List.mem_cons_self
    refine iff_of_false (fun h => ?_) (List.cons_ne_nil lw rest)
    exact not_armed_single (hlw ▸ pthEventStatic_ring l own) (h lw List.mem_cons_self)

/-- **Extra events are armed once.** For any ring of extra events and any wake-ups, each wait
of `pth_accept_ev` or `pth_cond_await` is on its own event and all the extra events if and only
if the call does not come to a second wait. -/
theorem extra_events_armed_iff_first_wait (l : Links E) (own e : E) (es : List E)
    (he : IsRing l e es) (hown : own ∉ e :: es) :
    (∀ (fdmode : Bool) (rv : Int) (again : List Bool),
      (∀ lw ∈ (pthAcceptEv fdmode (some e) own rv l again).1, Armed own (e :: es) lw) ↔
        ¬ (fdmode = true ∧ ∃ occurred rest, again = true :: occurred :: rest)) ∧
    ∀ (pshared : Bool) (ws : List Wake),
      (∀ lw ∈ pthCondAwait (some e) own pshared l ws, Armed own (e :: es) lw) ↔
        ∀ w ∈ ws.head?, ¬ w.again pshared := by
  refine ⟨fun fdmode rv again => ?_, fun pshared ws => ?_⟩
  · cases fdmode with
    | false => simp [pthAcceptEv]
    | true =>
      simp only [pthAcceptEv, if_true]
      cases again with
      | nil => simp [acceptLoop]
      | cons occurred again =>
        obtain ⟨rest, hwaits, hrest, hnil⟩ := acceptEv_waits rv he hown occurred again
        rw [hwaits, armed_iff_nil he hown hrest, hnil]
        cases again with
        | nil | cons => simp
  · obtain ⟨rest, hwaits, hrest, hnil⟩ := condAwait_waits pshared he hown ws
    rw [hwaits, armed_iff_nil he hown hrest, hnil]

/-- An own event and two extra events. -/
def extraLinks : Links Nat where
  next x := if x = 1 then 2 else if x = 2 then 1 else x
  prev x := if x = 1 then 2 else if x = 2 then 1 else x

theorem extraLinks_ring : IsRing extraLinks 1 [2] :=
  ⟨by simp [extraLinks, Links.Linked], by decide⟩

theorem extra_events_armed_iff_first_wait_once :
    (∀ lw ∈ (pthAcceptEv true (some 1) 0 7 extraLinks [true]).1, Armed 0 [1, 2] lw) ∧
    ∀ lw ∈ pthCondAwait (some 1) 0 false extraLinks [⟨true, true⟩], Armed 0 [1, 2] lw := by
  obtain ⟨haccept, hawait⟩ := extra_events_armed_iff_first_wait extraLinks 0 1 [2] extraLinks_ring
    (by decide)
  exact ⟨(haccept true 7 [true]).mpr (by simp),
    (hawait false [⟨true, true⟩]).mpr (by simp [Wake.again])⟩

/-- `accept` fails twice with EAGAIN: the second wait is not on the extra events. -/
theorem second_accept_wait_not_armed :
    IsRing extraLinks 1 [2] ∧
    ∃ lw ∈ (pthAcceptEv true (some 1) 0 7 extraLinks [true, true]).1, ¬ Armed 0 [1, 2] lw := by
  have hown : 0 ∉ [1, 2] := by decide
  have hlength : (pthAcceptEv true (some 1) 0 7 extraLinks [true, true]).1.length = 2 := by decide
  obtain ⟨rest, hwaits, hrest, -⟩ := acceptEv_waits 7 extraLinks_ring hown true [true]
  refine ⟨extraLinks_ring, pthEventStatic extraLinks 0, ?_,
    not_armed_single (pthEventStatic_ring extraLinks 0)⟩
  simp only [pthAcceptEv, if_true, hwaits] at hlength ⊢
  cases rest with
  | nil => simp at hlength
  | cons lw rest =>
    rw [← hrest lw List.mem_cons_self]
    simp

end Ngpt.Event
