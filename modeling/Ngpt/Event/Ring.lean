import Ngpt.Lib.Ring

/-!
# ngpt — event rings (`pth_event.c`)

Events are linked in circles through their own `ev_next` and `ev_prev`; a single event is
linked to itself. A pointer to an event is an `Option`, with `none` for `NULL`. Functions that
are called with extra events make one ring of them and of their own event, wait on it and take
their own event out again.

Result: `event_rings_splice`.
-/

namespace Ngpt.Event

open LinkedRing

variable {E : Type} [DecidableEq E]

/-- The loop of `pth_event_concat` over its arguments up to the NULL that ends them. -/
def attach (l : Links E) (evc : E) : List E → Links E × E
  | [] => (l, evc)
  | evn :: evs => attach ((l.setNext evc evn).setPrev evn evc) (l.prev evn) evs

/-- `evc->ev_next = evl; evl->ev_prev = evc;` -/
def closeRing (l : Links E) (evc evl : E) : Links E := (l.setNext evc evl).setPrev evl evc

def pthEventConcat (l : Links E) (evf : Option E) (evs : List E) : Option E × Links E :=
  match evf with
  | none => (none, l)
  | some evf =>
    let evl := l.next evf
    let r := attach l evf evs
    (some evf, closeRing r.1 r.2 evl)

def pthEventIsolate (l : Links E) (ev : Option E) : Option E × Links E :=
  match ev with
  | none => (none, l)
  | some ev =>
    if ¬ (l.next ev = ev ∧ l.prev ev = ev) then
      let ring := l.next ev
      let l := l.setNext (l.prev ev) (l.next ev)
      let l := l.setPrev (l.next ev) (l.prev ev)
      let l := l.setPrev ev ev
      let l := l.setNext ev ev
      (some ring, l)
    else (none, l)

/-! ## Concatenation -/

variable {l : Links E} {evf evc evl evn ev tmo e : E} {es done rest : List E}

/-- The events of a ring, given by its first event and the others. -/
def events (R : E × List E) : List E := R.1 :: R.2

theorem closeRing_attach (hne : evn ≠ evl) :
    closeRing ((l.setNext evc evn).setPrev evn evc) (l.prev evn) evl =
      (closeRing l evc evl).spliceAfter evn evc := by
  have hprev : (closeRing l evc evl).prev evn = l.prev evn := by simp [closeRing, hne]
  have hnext : (closeRing l evc evl).next evc = evl := by simp [closeRing]
  ext x
  · rw [Links.spliceAfter_next, hprev, hnext]
    by_cases hx : x = evc
    · simp [closeRing, hx]
    · simp [closeRing, hx]
  · rw [Links.spliceAfter_prev, hprev, hnext]
    by_cases hx : x = evl
    · simp [closeRing, hx]
    · simp [closeRing, hx]

theorem closeRing_self (hring : IsRing l evf es) : closeRing l evf (l.next evf) = l := by
  ext x
  · by_cases hx : x = evf <;> simp [closeRing, hx]
  · by_cases hx : x = l.next evf <;> simp [closeRing, hx, hring.prev_next_head]

theorem isRing_of_stores {p n q m : E} (hr : IsRing l ev es) (hp : p ∉ ev :: es)
    (hn : n ∉ ev :: es) : IsRing ((l.setNext p q).setPrev n m) ev es := by
  refine hr.congr (fun a ha => ?_) (fun a ha => ?_)
  · simp [ne_of_mem_of_not_mem ha hp]
  · simp [ne_of_mem_of_not_mem ha hn]

theorem attach_ring (rings : List (E × List E)) {pre : List E}
    (hring : IsRing (closeRing l evc evl) evf (done ++ rest)) (hlast : evf :: done = pre ++ [evc])
    (hrings : ∀ R ∈ rings, IsRing l R.1 R.2)
    (hdis : (((evf, done ++ rest) :: rings).map events).Pairwise List.Disjoint) :
    IsRing (closeRing (attach l evc (rings.map Prod.fst)).1
      (attach l evc (rings.map Prod.fst)).2 evl)
      evf (done ++ (rings.flatMap events ++ rest)) := by
  induction rings generalizing l evc done pre with
  | nil => simpa [attach] using hring
  | cons R rings ih =>
    simp only [List.map_cons, List.pairwise_cons, List.forall_mem_cons] at hdis
    obtain ⟨⟨hR, hjoined⟩, hnext, hpw⟩ := hdis
    obtain ⟨hRing, hrings⟩ := List.forall_mem_cons.mp hrings
    have hevc : evc ∈ evf :: (done ++ rest) := by
      have hm : evc ∈ evf :: done := by
        rw [hlast]
        simp
      simp only [List.mem_cons, List.mem_append] at hm ⊢
      tauto
    have hevl : evl ∈ evf :: (done ++ rest) := by
      have hm := (hring.next_prev_mem hevc).1
      simpa [closeRing] using hm
    have hspliced : IsRing (closeRing ((l.setNext evc R.1).setPrev R.1 evc) (l.prev R.1) evl) evf
        (done ++ (events R ++ rest)) := by
      have hne : R.1 ≠ evl := fun h => hR hevl (by simp [events, ← h])
      rw [closeRing_attach hne]
      exact hring.spliceAfter_seam hlast (isRing_of_stores hRing (hR hevc) (hR hevl))
        fun a ha ha' => hR ha' ha
    obtain ⟨ps, hps⟩ := hRing.exists_concat_prev
    have hlast' : evf :: (done ++ events R) = (evf :: done ++ ps) ++ [l.prev R.1] := by
      rw [events, ← List.cons_append, hps]
      simp
    have hrings' : ∀ R' ∈ rings, IsRing ((l.setNext evc R.1).setPrev R.1 evc) R'.1 R'.2 := by
      intro R' hR'
      exact isRing_of_stores (hrings R' hR') (hjoined _ (List.mem_map_of_mem hR') hevc)
        (hnext _ (List.mem_map_of_mem hR') List.mem_cons_self)
    have hdis' : (((evf, (done ++ events R) ++ rest) :: rings).map events).Pairwise
        List.Disjoint := by
      simp only [List.map_cons, List.pairwise_cons]
      refine ⟨fun xs hxs a ha => ?_, hpw⟩
      simp only [events, List.append_assoc, List.mem_cons, List.mem_append] at ha
      rcases ha with ha | ha | ha | ha
      · exact hjoined xs hxs (by simp [events, ha])
      · exact hjoined xs hxs (by simp [events, ha])
      · exact hnext xs hxs (by simp [events, ha])
      · exact hjoined xs hxs (by simp [events, ha])
    rw [← List.append_assoc] at hspliced
    have hih := ih hspliced hlast' hrings' hdis'
    simpa [attach] using hih

/-- The ring that `pth_event_concat` makes of any number of rings. -/
theorem pthEventConcat_ring (rings : List (E × List E)) (hring : IsRing l evf es)
    (hrings : ∀ R ∈ rings, IsRing l R.1 R.2)
    (hdis : (((evf, es) :: rings).map events).Pairwise List.Disjoint) :
    (pthEventConcat l (some evf) (rings.map Prod.fst)).1 = some evf ∧
    IsRing (pthEventConcat l (some evf) (rings.map Prod.fst)).2 evf
      (rings.flatMap events ++ es) := by
  have hclosed : IsRing (closeRing l evf (l.next evf)) evf ([] ++ es) := by
    rw [closeRing_self hring]
    exact hring
  have hlast : evf :: [] = [] ++ [evf] := rfl
  exact ⟨rfl, attach_ring rings hclosed hlast hrings hdis⟩

theorem pthEventConcat_single (hring : IsRing l evf es) (hne : e ∉ evf :: es) :
    (pthEventConcat l (some evf) [e]).2 = l.spliceAfter e evf := by
  have hnext : e ≠ l.next evf :=
    Ne.symm (ne_of_mem_of_not_mem (hring.next_prev_mem List.mem_cons_self).1 hne)
  have hattach : closeRing ((l.setNext evf e).setPrev e evf) (l.prev e) (l.next evf) =
      (closeRing l evf (l.next evf)).spliceAfter e evf := closeRing_attach hnext
  rw [closeRing_self hring] at hattach
  exact hattach

/-! ## Isolation -/

theorem pthEventIsolate_eq (hn : l.next ev ≠ ev) (hp : l.prev ev ≠ ev) :
    pthEventIsolate l (some ev) =
      (some (l.next ev), ((l.unlink (l.prev ev) (l.next ev)).setPrev ev ev).setNext ev ev) := by
  have hnext : (l.setNext (l.prev ev) (l.next ev)).next ev = l.next ev := by simp [Ne.symm hp]
  simp only [pthEventIsolate, hn, false_and, not_false_eq_true, if_true, hnext,
    Links.setNext_prev]
  rfl

section

variable {n p : E}

theorem isolate_next (hnext : l.next ev = n) (hprev : l.prev ev = p) (hn : n ≠ ev) (hp : p ≠ ev)
    (x : E) : (pthEventIsolate l (some ev)).2.next x =
      if x = ev then ev else if x = p then n else l.next x := by
  subst hnext hprev
  rw [pthEventIsolate_eq hn hp]
  simp [Links.unlink_next]

theorem isolate_prev (hnext : l.next ev = n) (hprev : l.prev ev = p) (hn : n ≠ ev) (hp : p ≠ ev)
    (x : E) : (pthEventIsolate l (some ev)).2.prev x =
      if x = ev then ev else if x = n then p else l.prev x := by
  subst hnext hprev
  rw [pthEventIsolate_eq hn hp]
  simp [Links.unlink_prev]

end

/-- Taking the event out again restores every link. -/
theorem isolate_concat (hev : IsRing l ev []) (he : IsRing l e es) (hne : ev ∉ e :: es) :
    (pthEventIsolate (pthEventConcat l (some ev) [e]).2 (some ev)).2 = l := by
  obtain ⟨hnext, hprev⟩ := IsRing.empty_iff.mp hev
  have hlast : l.prev e ≠ ev := ne_of_mem_of_not_mem (he.next_prev_mem List.mem_cons_self).2 hne
  have hfirst : e ≠ ev := ne_of_mem_of_not_mem List.mem_cons_self hne
  rw [pthEventConcat_single hev (by simpa using hfirst)]
  have hn : (l.spliceAfter e ev).next ev = e := by
    simp [Links.spliceAfter_next, Ne.symm hlast]
  have hp : (l.spliceAfter e ev).prev ev = l.prev e := by
    simp [Links.spliceAfter_prev, hnext]
  ext x
  · rw [isolate_next hn hp hfirst hlast, Links.spliceAfter_next]
    by_cases hx : x = ev
    · simp [hx, hnext]
    · by_cases hxl : x = l.prev e
      · simp [hxl, hlast, he.next_prev_head]
      · simp [hx, hxl]
  · rw [isolate_prev hn hp hfirst hlast, Links.spliceAfter_prev]
    by_cases hx : x = ev
    · simp [hx, hprev]
    · by_cases hxe : x = e
      · simp [hxe, hfirst]
      · simp [hx, hxe, hnext]

/-- With a timeout in between, the ring of the other events keeps the timer. -/
theorem isolate_concat_timeout (hev : IsRing l ev []) (htmo : IsRing l tmo []) (hne : ev ≠ tmo)
    (he : IsRing l e es) (hev' : ev ∉ e :: es) (htmo' : tmo ∉ e :: es) :
    (pthEventIsolate (pthEventConcat (pthEventConcat l (some ev) [tmo]).2 (some ev) [e]).2
      (some ev)).2 = (pthEventConcat l (some tmo) [e]).2 := by
  obtain ⟨hnext, hprev⟩ := IsRing.empty_iff.mp hev
  obtain ⟨htnext, htprev⟩ := IsRing.empty_iff.mp htmo
  have hmem := (he.next_prev_mem List.mem_cons_self).2
  have hlast : l.prev e ≠ ev := ne_of_mem_of_not_mem hmem hev'
  have htlast : l.prev e ≠ tmo := ne_of_mem_of_not_mem hmem htmo'
  have hfirst : e ≠ ev := ne_of_mem_of_not_mem List.mem_cons_self hev'
  have htfirst : e ≠ tmo := ne_of_mem_of_not_mem List.mem_cons_self htmo'
  have hpair : IsRing (l.spliceAfter tmo ev) ev [tmo] := by
    have h := hev.spliceAfter htmo (by simpa using hne)
    simpa using h
  rw [pthEventConcat_single hev (by simpa using Ne.symm hne),
    pthEventConcat_single hpair (by simp [hfirst, htfirst]),
    pthEventConcat_single htmo (by simpa using htfirst)]
  have hprev₁ : (l.spliceAfter tmo ev).prev e = l.prev e := by
    simp [Links.spliceAfter_prev, hnext, hfirst, htfirst]
  have hnext₁ : (l.spliceAfter tmo ev).next ev = tmo := hpair.next_head_cons
  have hn : ((l.spliceAfter tmo ev).spliceAfter e ev).next ev = e := by
    simp [Links.spliceAfter_next _ e ev, hprev₁, Ne.symm hlast]
  have hp : ((l.spliceAfter tmo ev).spliceAfter e ev).prev ev = tmo := by
    rw [Links.spliceAfter_prev, hnext₁, if_neg hne, if_neg (Ne.symm hfirst)]
    have hpair' : IsRing (l.spliceAfter tmo ev) ev ([] ++ [tmo]) := hpair
    exact hpair'.prev_head_concat
  ext x
  · rw [isolate_next hn hp hfirst (Ne.symm hne), Links.spliceAfter_next _ e ev, hprev₁, hnext₁,
      Links.spliceAfter_next l tmo, Links.spliceAfter_next l e, htprev, htnext]
    by_cases hx : x = ev
    · simp [hx, Ne.symm hlast, hne, hnext]
    · by_cases hxt : x = tmo
      · simp [hxt, Ne.symm hne, Ne.symm htlast]
      · simp [hx, hxt]
  · rw [isolate_prev hn hp hfirst (Ne.symm hne), Links.spliceAfter_prev _ e ev, hprev₁, hnext₁,
      Links.spliceAfter_prev l tmo, Links.spliceAfter_prev l e, htprev, htnext, hnext]
    by_cases hx : x = ev
    · simp [hx, Ne.symm hfirst, hne, hprev]
    · by_cases hxe : x = e
      · simp [hxe, hfirst, htfirst]
      · by_cases hxt : x = tmo
        · simp [hxt, Ne.symm hne, Ne.symm htfirst]
        · simp [hx, hxe, hxt]

/-! ## The ring of a call with extra events -/

/-- How `pth_select_ev` makes its ring: `ev_select`, then `ev_timeout` if there is a timeout and
`ev_extra` if there are extra events. -/
def selectConcat (l : Links E) (evSelect : E) (evTimeout evExtra : Option E) : Links E :=
  let l := match evTimeout with
    | none => l
    | some evTimeout => (pthEventConcat l (some evSelect) [evTimeout]).2
  match evExtra with
  | none => l
  | some evExtra => (pthEventConcat l (some evSelect) [evExtra]).2

/-- How it takes its own events out again after the wait. -/
def selectIsolate (l : Links E) (evSelect : E) (evTimeout : Option E) : Links E :=
  let l := (pthEventIsolate l (some evSelect)).2
  match evTimeout with
  | none => l
  | some evTimeout => (pthEventIsolate l (some evTimeout)).2

theorem isolate_single (hev : IsRing l ev []) : (pthEventIsolate l (some ev)).2 = l := by
  obtain ⟨hnext, hprev⟩ := IsRing.empty_iff.mp hev
  simp [pthEventIsolate, hnext, hprev]

theorem selectIsolate_selectConcat (evTimeout evExtra : Option E) (hev : IsRing l ev [])
    (htmo : ∀ tmo ∈ evTimeout, IsRing l tmo [] ∧ ev ≠ tmo)
    (hextra : ∀ e ∈ evExtra, IsRing l e es ∧ ev ∉ e :: es ∧ ∀ tmo ∈ evTimeout, tmo ∉ e :: es) :
    selectIsolate (selectConcat l ev evTimeout evExtra) ev evTimeout = l := by
  cases evTimeout with
  | none =>
    cases evExtra with
    | none => exact isolate_single hev
    | some e =>
      obtain ⟨he, hne, -⟩ := hextra e rfl
      exact isolate_concat hev he hne
  | some tmo =>
    obtain ⟨htmo, hne⟩ := htmo tmo rfl
    cases evExtra with
    | none =>
      have h := isolate_concat hev htmo (by simpa using hne)
      simp only [selectIsolate, selectConcat, h]
      exact isolate_single htmo
    | some e =>
      obtain ⟨he, hne', htne⟩ := hextra e rfl
      have h := isolate_concat_timeout hev htmo hne he hne' (htne tmo rfl)
      simp only [selectIsolate, selectConcat, h]
      exact isolate_concat htmo he (htne tmo rfl)

/-- **Event rings are spliced and taken apart.** Concatenating disjoint rings gives one ring,
the others after the first event. When single events have been joined with a ring of extra
events as `pth_select_ev` does, isolating them restores every link. -/
theorem event_rings_splice :
    (∀ (l : Links E) (evf : E) (es : List E) (rings : List (E × List E)),
      IsRing l evf es → (∀ R ∈ rings, IsRing l R.1 R.2) →
      (((evf, es) :: rings).map events).Pairwise List.Disjoint →
      (pthEventConcat l (some evf) (rings.map Prod.fst)).1 = some evf ∧
      IsRing (pthEventConcat l (some evf) (rings.map Prod.fst)).2 evf
        (rings.flatMap events ++ es)) ∧
    (∀ (l : Links E) (evSelect : E) (evTimeout evExtra : Option E) (es : List E),
      IsRing l evSelect [] → (∀ tmo ∈ evTimeout, IsRing l tmo [] ∧ evSelect ≠ tmo) →
      (∀ e ∈ evExtra, IsRing l e es ∧ evSelect ∉ e :: es ∧ ∀ tmo ∈ evTimeout, tmo ∉ e :: es) →
      ∃ l', l' = selectIsolate (selectConcat l evSelect evTimeout evExtra) evSelect evTimeout ∧
        IsRing l' evSelect [] ∧ (∀ tmo ∈ evTimeout, IsRing l' tmo []) ∧
        (∀ e ∈ evExtra, IsRing l' e es) ∧ l' = l) := by
  refine ⟨fun l evf es rings => pthEventConcat_ring rings, ?_⟩
  intro l evSelect evTimeout evExtra es hev htmo hextra
  have hl := selectIsolate_selectConcat evTimeout evExtra hev htmo hextra
  exact ⟨l, hl.symm, hev, fun tmo ht => (htmo tmo ht).1, fun e he => (hextra e he).1, rfl⟩

/-- Two single events, 0 and 1, and the ring of 2, 3 and 4. -/
def fiveEvents : Links (Fin 5) where
  next x := if x = 2 then 3 else if x = 3 then 4 else if x = 4 then 2 else x
  prev x := if x = 3 then 2 else if x = 4 then 3 else if x = 2 then 4 else x

theorem fiveEvents_rings :
    IsRing fiveEvents 0 [] ∧ IsRing fiveEvents 1 [] ∧ IsRing fiveEvents 2 [3, 4] := by
  refine ⟨⟨?_, by decide⟩, ⟨?_, by decide⟩, ⟨?_, by decide⟩⟩ <;> simp [fiveEvents, Links.Linked]

theorem event_rings_splice_five :
    IsRing (pthEventConcat fiveEvents (some 0) [2, 1]).2 0 [2, 3, 4, 1] ∧
    ∃ l', l' = selectIsolate (selectConcat fiveEvents 0 (some 1) (some 2)) 0 (some 1) ∧
      IsRing l' 0 [] ∧ (∀ tmo ∈ some 1, IsRing l' tmo []) ∧ (∀ e ∈ some 2, IsRing l' e [3, 4]) ∧
      l' = fiveEvents := by
  obtain ⟨hzero, hone, htwo⟩ := fiveEvents_rings
  obtain ⟨hconcat, hselect⟩ := event_rings_splice (E := Fin 5)
  refine ⟨(hconcat fiveEvents 0 [] [(2, [3, 4]), (1, [])] hzero ?_ ?_).2,
    hselect fiveEvents 0 (some 1) (some 2) [3, 4] hzero ?_ ?_⟩
  · simp [htwo, hone]
  · simp [events]
  · simp [hone]
  · simp [htwo]

end Ngpt.Event
