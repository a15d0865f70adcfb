import Ngpt.Lib.Ring

/-!
# Several circular lists in one heap

Each of the lists has an anchor, and each client has one element, which is in one of the
lists or in none. `Rings L l place` says that the lists contain exactly the elements that
`place` puts into them. An edit of one list keeps the others, because no element is in two.
-/

namespace LinkedRing

open Function

/-- The addresses of the anchors `ι` and of the elements of the clients `τ`. -/
structure Layout (ι τ α : Type*) where
  anchor     : ι → α
  element    : τ → α
  anchorInj  : Function.Injective anchor
  elementInj : Function.Injective element
  apart      : ∀ i t, anchor i ≠ element t

variable {ι τ α : Type*} {L : Layout ι τ α} {l l' : Links α} {place : τ → Option ι} {i j : ι}
  {t : τ}

/-- Each list contains the elements that are placed in it, each once. -/
def Rings (L : Layout ι τ α) (l : Links α) (place : τ → Option ι) : Prop :=
  ∀ i, ∃ ts : List τ, IsRing l (L.anchor i) (ts.map L.element) ∧ ∀ t, t ∈ ts ↔ place t = some i

/-- The addresses that belong to the list `i`. -/
def Layout.Belongs (L : Layout ι τ α) (place : τ → Option ι) (i : ι) (a : α) : Prop :=
  a = L.anchor i ∨ ∃ t, a = L.element t ∧ place t = some i

theorem Layout.belongs_of_mem {ts : List τ} (hts : ∀ t, t ∈ ts ↔ place t = some i) {a : α}
    (ha : a ∈ L.anchor i :: ts.map L.element) : L.Belongs place i a := by
  rcases List.mem_cons.mp ha with rfl | ha
  · exact Or.inl rfl
  · obtain ⟨t, ht, rfl⟩ := List.mem_map.mp ha
    exact Or.inr ⟨t, rfl, (hts t).mp ht⟩

theorem Layout.Belongs.unique {a : α} (hi : L.Belongs place i a) (hj : L.Belongs place j a) :
    i = j := by
  rcases hi with hi | ⟨t, ht, hti⟩
  · rcases hj with hj | ⟨u, hu, -⟩
    · exact L.anchorInj (hi.symm.trans hj)
    · exact absurd (hi.symm.trans hu) (L.apart i u)
  · rcases hj with hj | ⟨u, hu, huj⟩
    · exact absurd (hj.symm.trans ht) (L.apart j t)
    · rw [L.elementInj (ht.symm.trans hu), huj] at hti
      exact (Option.some.inj hti).symm

theorem Rings.belongs_neighbours (h : Rings L l place) {a : α} (ha : L.Belongs place i a) :
    L.Belongs place i (l.next a) ∧ L.Belongs place i (l.prev a) := by
  obtain ⟨ts, hring, hts⟩ := h i
  have hmem : a ∈ L.anchor i :: ts.map L.element := by
    rcases ha with rfl | ⟨t, rfl, ht⟩
    · exact List.mem_cons_self
    · exact List.mem_cons_of_mem _ (List.mem_map_of_mem ((hts t).mpr ht))
  obtain ⟨hnext, hprev⟩ := hring.next_prev_mem hmem
  exact ⟨L.belongs_of_mem hts hnext, L.belongs_of_mem hts hprev⟩

theorem Rings.keep {place' : τ → Option ι} (h : Rings L l place)
    (hplace : ∀ t, place' t = some i ↔ place t = some i)
    (hlinks : ∀ a, L.Belongs place i a → l'.next a = l.next a ∧ l'.prev a = l.prev a) :
    ∃ ts : List τ, IsRing l' (L.anchor i) (ts.map L.element) ∧
      ∀ t, t ∈ ts ↔ place' t = some i := by
  obtain ⟨ts, hring, hts⟩ := h i
  refine ⟨ts, hring.congr (fun a ha => ?_) (fun a ha => ?_), fun t => ?_⟩
  · exact (hlinks a (L.belongs_of_mem hts ha)).1
  · exact (hlinks a (L.belongs_of_mem hts ha)).2
  · rw [hts t, hplace t]

section Edit

variable [DecidableEq α] [DecidableEq τ]

theorem place_update_iff {x : Option ι} (hx : x ≠ some j) (ht : place t ≠ some j) (u : τ) :
    update place t x u = some j ↔ place u = some j := by
  by_cases hu : u = t
  · rw [hu, update_self]
    exact iff_of_false hx ht
  · rw [update_of_ne hu]

/-- An element that is in no list is linked in after an anchor. -/
theorem Rings.insert (h : Rings L l place) (ht : place t = none) (i : ι) :
    Rings L (l.insertBetween (L.element t) (L.anchor i) (l.next (L.anchor i)))
      (update place t (some i)) := by
  have hnot : ∀ j, ¬ L.Belongs place j (L.element t) := by
    rintro j (hj | ⟨u, hu, huj⟩)
    · exact L.apart j t hj.symm
    · rw [← L.elementInj hu, ht] at huj
      cases huj
  intro j
  by_cases hji : j = i
  · subst hji
    obtain ⟨ts, hring, hts⟩ := h j
    refine ⟨t :: ts, ?_, fun u => ?_⟩
    · exact hring.insertHead fun hmem => hnot j (L.belongs_of_mem hts hmem)
    · by_cases hu : u = t
      · rw [hu, update_self]
        exact iff_of_true List.mem_cons_self rfl
      · rw [update_of_ne hu, ← hts u, List.mem_cons, or_iff_right hu]
  · refine h.keep (place_update_iff (fun hx => hji (Option.some.inj hx).symm)
      (by rw [ht]; exact Option.some_ne_none j |>.symm)) fun a ha => ?_
    have hnode : a ≠ L.element t := fun hx => hnot j (hx ▸ ha)
    have hanchor : a ≠ L.anchor i := fun hx => hji (ha.unique (Or.inl hx))
    have hnext : a ≠ l.next (L.anchor i) :=
      fun hx => hji (ha.unique (hx ▸ (h.belongs_neighbours (Or.inl rfl)).1))
    rw [Links.insertBetween_next, Links.insertBetween_prev, if_neg hanchor, if_neg hnode,
      if_neg hnext, if_neg hnode]
    exact ⟨rfl, rfl⟩

/-- An element is bypassed, whatever its own forward link becomes. -/
theorem Rings.delete (h : Rings L l place) (ht : place t = some i) (x : α) :
    Rings L ((l.unlink (l.prev (L.element t)) (l.next (L.element t))).setNext (L.element t) x)
      (update place t none) := by
  have hself : L.Belongs place i (L.element t) := Or.inr ⟨t, rfl, ht⟩
  obtain ⟨hnext, hprev⟩ := h.belongs_neighbours hself
  intro j
  by_cases hji : j = i
  · subst hji
    obtain ⟨ts, hring, hts⟩ := h j
    obtain ⟨us, vs, rfl⟩ := List.append_of_mem ((hts t).mpr ht)
    rw [List.map_append, List.map_cons] at hring
    have hnodup := hring.nodup_nodes
    have hnotin : L.element t ∉ us.map L.element ++ vs.map L.element := by
      rw [List.nodup_middle] at hnodup
      exact (List.nodup_cons.mp hnodup).1
    have hunlinked := hring.unlink
    have hfresh : ∀ a ∈ L.anchor j :: (us.map L.element ++ vs.map L.element),
        a ≠ L.element t := by
      rintro a ha rfl
      rcases List.mem_cons.mp ha with hx | hx
      · exact L.apart j t hx.symm
      · exact hnotin hx
    refine ⟨us ++ vs, ?_, fun u => ?_⟩
    · rw [List.map_append]
      refine hunlinked.congr (fun a ha => ?_) fun a _ => ?_
      · rw [Links.setNext_next, if_neg (hfresh a ha)]
      · rw [Links.setNext_prev]
    · by_cases hu : u = t
      · rw [hu, update_self]
        refine iff_of_false (fun hmem => hnotin ?_) nofun
        rw [← List.map_append]
        exact List.mem_map_of_mem hmem
      · rw [update_of_ne hu, ← hts u]
        simp [hu]
  · refine h.keep (place_update_iff nofun fun hx => ?_) fun a ha => ?_
    · rw [ht] at hx
      exact hji (Option.some.inj hx).symm
    · have hne : ∀ b, L.Belongs place i b → a ≠ b := fun b hb hx => hji (ha.unique (hx ▸ hb))
      rw [Links.setNext_next, Links.setNext_prev, Links.unlink_next, Links.unlink_prev,
        if_neg (hne _ hself), if_neg (hne _ hprev), if_neg (hne _ hnext)]
      exact ⟨rfl, rfl⟩

end Edit

theorem Rings.empty (hanchor : ∀ i, l.next (L.anchor i) = L.anchor i ∧
    l.prev (L.anchor i) = L.anchor i) (hplace : ∀ t, place t = none) : Rings L l place := by
  intro i
  refine ⟨[], IsRing.empty_iff.mpr (hanchor i), fun t => ?_⟩
  rw [hplace t]
  exact iff_of_false List.not_mem_nil nofun

end LinkedRing
