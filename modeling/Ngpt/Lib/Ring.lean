import Mathlib.Data.List.Chain
import Mathlib.Data.List.Nodup
import Mathlib.Logic.Function.Basic

/-!
# Circular doubly linked lists

A heap of list nodes is a pair of pointer fields, `next` and `prev`, over an
arbitrary type of addresses. `IsRing l h xs` says that the nodes `xs`, in this
order, form the circular list anchored at `h`: consecutive nodes of
`h :: xs ++ [h]` point at each other and no node occurs twice.

The edits are the two every intrusive list library is made of:

* `insertBetween e p n` — link `e` between the consecutive nodes `p` and `n`
  (`IsRing.insertBetween` and its three uses: at the front, at the back and
  right after the first node);
* `unlink p n` — bypass the node between `p` and `n` (`IsRing.unlink`);
* `spliceAfter` — link a whole ring of nodes after a node
  (`IsRing.spliceAfter`).

`IsRing.congr` is the frame rule: a ring depends only on the links of its own
nodes, so an edit elsewhere keeps it.
-/

namespace LinkedRing

/-- The pointer fields of a heap of list nodes. -/
structure Links (α : Type*) where
  next : α → α
  prev : α → α

variable {α : Type*}

namespace Links

/-- `b` follows `a`, and both pointers say so. -/
def Linked (l : Links α) (a b : α) : Prop := l.next a = b ∧ l.prev b = a

@[ext] theorem ext {l l' : Links α} (next : l.next = l'.next) (prev : l.prev = l'.prev) :
    l = l' := by
  cases l
  cases l'
  cases next
  cases prev
  rfl

variable [DecidableEq α]

/-- Store `b` into the `next` field of `a`. -/
def setNext (l : Links α) (a b : α) : Links α :=
  { l with next := Function.update l.next a b }

/-- Store `b` into the `prev` field of `a`. -/
def setPrev (l : Links α) (a b : α) : Links α :=
  { l with prev := Function.update l.prev a b }

/-- Link `e` between `p` and `n`. -/
def insertBetween (l : Links α) (e p n : α) : Links α :=
  (((l.setNext e n).setPrev e p).setNext p e).setPrev n e

/-- Link `p` with `n`, leaving out what was between them. -/
def unlink (l : Links α) (p n : α) : Links α :=
  (l.setPrev n p).setNext p n

/-- Link the circular list that starts at `f` between `w` and its successor. -/
def spliceAfter (l : Links α) (f w : α) : Links α :=
  let last := l.prev f
  let wn := l.next w
  (((l.setNext w f).setPrev f w).setNext last wn).setPrev wn last

@[simp] theorem setNext_next (l : Links α) (a b x : α) :
    (l.setNext a b).next x = if x = a then b else l.next x := by
  simp [setNext, Function.update_apply]

@[simp] theorem setNext_prev (l : Links α) (a b : α) : (l.setNext a b).prev = l.prev := rfl

@[simp] theorem setPrev_next (l : Links α) (a b : α) : (l.setPrev a b).next = l.next := rfl

@[simp] theorem setPrev_prev (l : Links α) (a b x : α) :
    (l.setPrev a b).prev x = if x = a then b else l.prev x := by
  simp [setPrev, Function.update_apply]

theorem insertBetween_next (l : Links α) (e p n x : α) :
    (l.insertBetween e p n).next x = if x = p then e else if x = e then n else l.next x := by
  simp [insertBetween]

theorem insertBetween_prev (l : Links α) (e p n x : α) :
    (l.insertBetween e p n).prev x = if x = n then e else if x = e then p else l.prev x := by
  simp [insertBetween]

theorem unlink_next (l : Links α) (p n x : α) :
    (l.unlink p n).next x = if x = p then n else l.next x := by
  simp [unlink]

theorem unlink_prev (l : Links α) (p n x : α) :
    (l.unlink p n).prev x = if x = n then p else l.prev x := by
  simp [unlink]

theorem spliceAfter_next (l : Links α) (f w x : α) :
    (l.spliceAfter f w).next x =
      if x = l.prev f then l.next w else if x = w then f else l.next x := by
  simp [spliceAfter]

theorem spliceAfter_prev (l : Links α) (f w x : α) :
    (l.spliceAfter f w).prev x =
      if x = l.next w then l.prev f else if x = f then w else l.prev x := by
  simp [spliceAfter]

end Links

/-- The nodes `xs` form, in this order, the circular list anchored at `h`. -/
structure IsRing (l : Links α) (h : α) (xs : List α) : Prop where
  chain : List.IsChain l.Linked (h :: xs ++ [h])
  nodup : (h :: xs).Nodup

/-! ## Chains -/

theorem isChain_congr {l l' : Links α} {xs : List α}
    (hNext : ∀ a ∈ xs.dropLast, l'.next a = l.next a)
    (hPrev : ∀ a ∈ xs.tail, l'.prev a = l.prev a)
    (h : List.IsChain l.Linked xs) : List.IsChain l'.Linked xs := by
  rw [List.isChain_iff_forall₂] at h ⊢
  refine (List.forall₂_iff_get.mpr ?_)
  obtain ⟨hLen, hGet⟩ := List.forall₂_iff_get.mp h
  refine ⟨hLen, fun i h₁ h₂ => ?_⟩
  obtain ⟨hn, hp⟩ := hGet i h₁ h₂
  exact ⟨(hNext _ (List.get_mem _ _)).trans hn, (hPrev _ (List.get_mem _ _)).trans hp⟩

theorem isChain_unique {l : Links α} {a h : α} {xs ys : List α}
    (hx : List.IsChain l.Linked (a :: xs ++ [h])) (hy : List.IsChain l.Linked (a :: ys ++ [h]))
    (hxs : h ∉ xs) (hys : h ∉ ys) : xs = ys := by
  induction xs generalizing a ys with
  | nil =>
    cases ys with
    | nil => rfl
    | cons y ys =>
      simp only [List.cons_append, List.nil_append, List.isChain_cons_cons] at hx hy
      exact absurd (hx.1.1.symm.trans hy.1.1) (by simp_all)
  | cons x xs ih =>
    cases ys with
    | nil =>
      simp only [List.cons_append, List.nil_append, List.isChain_cons_cons] at hx hy
      exact absurd (hy.1.1.symm.trans hx.1.1) (by simp_all)
    | cons y ys =>
      simp only [List.cons_append, List.isChain_cons_cons] at hx hy
      have hxy : x = y := hx.1.1.symm.trans hy.1.1
      subst hxy
      have hrest := ih (by simpa using hx.2) (by simpa using hy.2)
        (fun hm => hxs (List.mem_cons_of_mem _ hm)) (fun hm => hys (List.mem_cons_of_mem _ hm))
      rw [hrest]

namespace IsRing

variable {l l' : Links α} {h e p n : α} {xs ys : List α}

/-! ## Reading a ring -/

theorem head_notMem (hr : IsRing l h xs) : h ∉ xs := (List.nodup_cons.mp hr.nodup).1

theorem nodup_nodes (hr : IsRing l h xs) : xs.Nodup := (List.nodup_cons.mp hr.nodup).2

theorem congr (hNext : ∀ a ∈ h :: xs, l'.next a = l.next a)
    (hPrev : ∀ a ∈ h :: xs, l'.prev a = l.prev a) (hr : IsRing l h xs) : IsRing l' h xs := by
  refine ⟨isChain_congr (fun a ha => hNext a ?_) (fun a ha => hPrev a ?_) hr.chain, hr.nodup⟩
  · rwa [List.dropLast_concat] at ha
  · simp only [List.cons_append, List.tail_cons, List.mem_append, List.mem_singleton] at ha
    simpa using ha.symm

theorem unique (hx : IsRing l h xs) (hy : IsRing l h ys) : xs = ys :=
  isChain_unique hx.chain hy.chain hx.head_notMem hy.head_notMem

theorem linked_of_split (as bs : List α) (hr : IsRing l h xs)
    (hs : h :: xs ++ [h] = as ++ p :: n :: bs) : l.next p = n ∧ l.prev n = p := by
  have hc := hr.chain
  rw [hs, List.isChain_append_cons_cons] at hc
  exact hc.2.1

theorem empty_iff : IsRing l h [] ↔ l.next h = h ∧ l.prev h = h := by
  constructor
  · intro hr
    exact hr.linked_of_split [] [] rfl
  · rintro ⟨hn, hp⟩
    exact ⟨by simp [Links.Linked, hn, hp], by simp⟩

theorem next_head_cons {x : α} (hr : IsRing l h (x :: xs)) : l.next h = x :=
  (hr.linked_of_split [] (xs ++ [h]) rfl).1

theorem prev_head_concat {x : α} (hr : IsRing l h (xs ++ [x])) : l.prev h = x :=
  (hr.linked_of_split (h :: xs) [] (by simp)).2

theorem exists_concat_prev (hr : IsRing l h xs) : ∃ ps, h :: xs = ps ++ [l.prev h] := by
  rcases List.eq_nil_or_concat xs with rfl | ⟨ys, x, rfl⟩
  · exact ⟨[], by rw [(empty_iff.mp hr).2]; rfl⟩
  · rw [List.concat_eq_append] at hr ⊢
    exact ⟨h :: ys, by rw [hr.prev_head_concat]; rfl⟩

theorem prev_next_head (hr : IsRing l h xs) : l.prev (l.next h) = h := by
  cases xs with
  | nil =>
    obtain ⟨hn, hp⟩ := empty_iff.mp hr
    rw [hn, hp]
  | cons x xs =>
    obtain ⟨hn, hp⟩ := hr.linked_of_split [] (xs ++ [h]) rfl
    rw [hn, hp]

theorem next_prev_head (hr : IsRing l h xs) : l.next (l.prev h) = h := by
  obtain ⟨ps, hps⟩ := hr.exists_concat_prev
  exact (hr.linked_of_split ps [] (by rw [hps]; simp)).1

theorem next_split (hr : IsRing l h xs) {as bs : List α} (hs : h :: xs = as ++ e :: bs) :
    l.next e = bs.head?.getD h := by
  cases bs with
  | nil => exact (hr.linked_of_split as [] (by rw [hs]; simp)).1
  | cons b bs => exact (hr.linked_of_split as (bs ++ [h]) (by rw [hs]; simp)).1

theorem next_mid (hr : IsRing l h (xs ++ e :: ys)) : l.next e = ys.head?.getD h := by
  have hs : h :: (xs ++ e :: ys) = (h :: xs) ++ e :: ys := rfl
  exact hr.next_split hs

theorem next_head_eq_iff (hr : IsRing l h xs) : l.next h = h ↔ xs = [] := by
  cases xs with
  | nil => simp [(empty_iff.mp hr).1]
  | cons x xs =>
    rw [hr.next_head_cons]
    have hne := hr.head_notMem
    simp only [List.mem_cons, not_or] at hne
    simp [Ne.symm hne.1]

theorem rotate {x : α} (hr : IsRing l h (x :: xs)) : IsRing l x (xs ++ [h]) := by
  have hc := hr.chain
  simp only [List.cons_append, List.isChain_cons_cons] at hc
  refine ⟨?_, ?_⟩
  · rw [show x :: (xs ++ [h]) ++ [x] = (x :: xs) ++ h :: x :: [] by simp,
      List.isChain_append_cons_cons]
    exact ⟨by simpa using hc.2, hc.1, List.isChain_singleton _⟩
  · have hnd : (h :: (x :: xs)).Nodup := hr.nodup
    rw [show x :: (xs ++ [h]) = (x :: xs) ++ [h] by simp, List.nodup_append_comm]
    simpa using hnd

theorem rotateTo {x : α} (hr : IsRing l h (xs ++ x :: ys)) : IsRing l x (ys ++ h :: xs) := by
  induction xs generalizing h ys with
  | nil => exact hr.rotate
  | cons a as ih =>
    have hrot : IsRing l a (as ++ x :: (ys ++ [h])) := by simpa using hr.rotate
    simpa using ih hrot

/-- A ring is closed under both pointers. -/
theorem next_prev_mem {a : α} (hr : IsRing l h xs) (ha : a ∈ h :: xs) :
    l.next a ∈ h :: xs ∧ l.prev a ∈ h :: xs := by
  have hhead : ∀ {k zs}, IsRing l k zs → l.next k ∈ k :: zs ∧ l.prev k ∈ k :: zs := by
    intro k zs hk
    obtain ⟨ps, hps⟩ := hk.exists_concat_prev
    refine ⟨?_, by rw [hps]; simp⟩
    cases zs with
    | nil => simp [(empty_iff.mp hk).1]
    | cons z zs => simp [hk.next_head_cons]
  rcases List.mem_cons.mp ha with rfl | ha
  · exact hhead hr
  · -- read from `a`, the ring has the same nodes
    obtain ⟨as, bs, rfl⟩ := List.append_of_mem ha
    have hmem : ∀ x, x ∈ a :: (bs ++ h :: as) ↔ x ∈ h :: (as ++ a :: bs) := by
      intro x
      simp only [List.mem_cons, List.mem_append]
      tauto
    rw [← hmem, ← hmem]
    exact hhead hr.rotateTo

/-! ## Seams -/

/-- A ring cut at a seam: `p` is the last node of the first part (or the
anchor), `n` the first node of the second part (or the anchor again). -/
structure Seam (h : α) (xs ys as : List α) (p n : α) (bs : List α) : Prop where
  left  : h :: xs = as ++ [p]
  right : ys ++ [h] = n :: bs

namespace Seam

variable {as bs : List α}

theorem split (hs : Seam h xs ys as p n bs) (zs : List α) :
    h :: (xs ++ zs ++ ys) ++ [h] = as ++ p :: (zs ++ n :: bs) := by
  calc h :: (xs ++ zs ++ ys) ++ [h] = (h :: xs) ++ zs ++ (ys ++ [h]) := by simp
    _ = as ++ p :: (zs ++ n :: bs) := by rw [hs.left, hs.right]; simp

theorem split_nil (hs : Seam h xs ys as p n bs) :
    h :: (xs ++ ys) ++ [h] = as ++ p :: n :: bs := by
  simpa using hs.split []

theorem mem (hs : Seam h xs ys as p n bs) : p ∈ h :: (xs ++ ys) ∧ n ∈ h :: (xs ++ ys) := by
  have hp : p ∈ h :: xs := by rw [hs.left]; simp
  have hn : n ∈ ys ++ [h] := by rw [hs.right]; simp
  simp only [List.mem_cons, List.mem_append, List.not_mem_nil, or_false] at hp hn ⊢
  tauto

theorem ne (hs : Seam h xs ys as p n bs) (hnd : (h :: (xs ++ ys)).Nodup) :
    (∀ a ∈ as, a ≠ p) ∧ (∀ a ∈ xs, a ≠ n) ∧ (∀ a ∈ ys, a ≠ p) ∧ (∀ a ∈ bs, a ≠ n) := by
  have hl : ((as ++ [p]) ++ ys).Nodup := by rw [← hs.left]; exact hnd
  have hr : (xs ++ (n :: bs)).Nodup := by
    rw [← hs.right, ← List.append_assoc, List.nodup_append_comm]
    exact hnd
  simp only [List.nodup_append, List.nodup_cons, List.mem_append, List.mem_cons] at hl hr
  exact ⟨fun a ha => hl.1.2.2 a ha p (by simp),
    fun a ha => hr.2.2 a ha n (by simp),
    fun a ha => Ne.symm (hl.2.2 p (by simp) a ha),
    fun a ha hne => hr.2.1.1 (hne ▸ ha)⟩

theorem chains_congr (l' : Links α) (hs : Seam h xs ys as p n bs) (hnd : (h :: (xs ++ ys)).Nodup)
    (hNext : ∀ a ∈ h :: (xs ++ ys), a ≠ p → l'.next a = l.next a)
    (hPrev : ∀ a ∈ h :: (xs ++ ys), a ≠ n → l'.prev a = l.prev a)
    (hl : List.IsChain l.Linked (as ++ [p])) (hr : List.IsChain l.Linked (n :: bs)) :
    List.IsChain l'.Linked (as ++ [p]) ∧ List.IsChain l'.Linked (n :: bs) := by
  obtain ⟨hap, hxn, hyp, hbn⟩ := hs.ne hnd
  refine ⟨isChain_congr (fun a ha => ?_) (fun a ha => ?_) hl,
    isChain_congr (fun a ha => ?_) (fun a ha => ?_) hr⟩
  · rw [List.dropLast_concat] at ha
    have hmem : a ∈ h :: xs := by rw [hs.left]; exact List.mem_append_left _ ha
    exact hNext a (by simp at hmem ⊢; tauto) (hap a ha)
  · rw [← hs.left, List.tail_cons] at ha
    exact hPrev a (by simp [ha]) (hxn a ha)
  · rw [← hs.right, List.dropLast_concat] at ha
    exact hNext a (by simp [ha]) (hyp a ha)
  · have hmem : a ∈ ys ++ [h] := by rw [hs.right]; exact List.mem_cons_of_mem _ ha
    exact hPrev a (by simp at hmem ⊢; tauto) (hbn a ha)

/-- A ring can be cut between any two parts. -/
theorem cut (h : α) (xs ys : List α) : ∃ as bs p n, Seam h xs ys as p n bs := by
  obtain ⟨as, p, hp⟩ := List.eq_nil_or_concat (h :: xs) |>.resolve_left (by simp)
  obtain ⟨n, bs, hn⟩ := List.exists_cons_of_ne_nil (show ys ++ [h] ≠ [] by simp)
  exact ⟨as, bs, p, n, by simpa using hp, hn⟩

end Seam

theorem exists_seam (xs ys : List α) (hr : IsRing l h (xs ++ ys)) :
    ∃ as bs p n, Seam h xs ys as p n bs ∧ l.next p = n ∧ l.prev n = p := by
  obtain ⟨as, bs, p, n, hs⟩ := Seam.cut h xs ys
  exact ⟨as, bs, p, n, hs, hr.linked_of_split as bs hs.split_nil⟩

/-! ## Edits -/

variable [DecidableEq α]

theorem insertBetween (xs ys : List α) {as bs : List α} (hr : IsRing l h (xs ++ ys))
    (he : e ∉ h :: (xs ++ ys)) (hs : Seam h xs ys as p n bs) :
    IsRing (l.insertBetween e p n) h (xs ++ e :: ys) := by
  have hep : e ≠ p := fun hh => he (hh ▸ hs.mem.1)
  have hen : e ≠ n := fun hh => he (hh ▸ hs.mem.2)
  have hc := hr.chain
  rw [hs.split_nil, List.isChain_append_cons_cons] at hc
  obtain ⟨hl, hr'⟩ := hs.chains_congr (l.insertBetween e p n) hr.nodup
    (fun a ha hap => by simp [Links.insertBetween_next, hap, ne_of_mem_of_not_mem ha he])
    (fun a ha han => by simp [Links.insertBetween_prev, han, ne_of_mem_of_not_mem ha he])
    hc.1 hc.2.2
  refine ⟨?_, ?_⟩
  · have hsplit := hs.split [e]
    simp only [List.append_assoc, List.cons_append, List.nil_append] at hsplit ⊢
    rw [hsplit, List.isChain_append_cons_cons, List.isChain_cons_cons]
    refine ⟨hl, ⟨?_, ?_⟩, ⟨?_, ?_⟩, hr'⟩
    · simp [Links.insertBetween_next]
    · simp [Links.insertBetween_prev, hen]
    · simp [Links.insertBetween_next, hep]
    · simp [Links.insertBetween_prev]
  · have hperm : ((h :: xs) ++ e :: ys).Perm (e :: ((h :: xs) ++ ys)) := List.perm_middle
    exact hperm.nodup_iff.mpr (List.nodup_cons.mpr ⟨he, hr.nodup⟩)

theorem insertHead (hr : IsRing l h xs) (he : e ∉ h :: xs) :
    IsRing (l.insertBetween e h (l.next h)) h (e :: xs) := by
  obtain ⟨as, bs, p, n, hs, hn, -⟩ := exists_seam [] xs hr
  have hp : h = p := by simpa using congrArg List.getLast? hs.left
  subst hp hn
  exact insertBetween [] xs hr he hs

theorem insertTail (hr : IsRing l h xs) (he : e ∉ h :: xs) :
    IsRing (l.insertBetween e (l.prev h) h) h (xs ++ [e]) := by
  obtain ⟨as, bs, p, n, hs, -, hp⟩ := exists_seam xs [] (by simpa using hr)
  have hn : h = n := by simpa using congrArg List.head? hs.right
  subst hn hp
  exact insertBetween xs [] (by simpa using hr) (by simpa using he) hs

theorem insertSecond {x : α} (hr : IsRing l h (x :: xs)) (he : e ∉ h :: x :: xs) :
    IsRing (l.insertBetween e x (l.next x)) h (x :: e :: xs) := by
  obtain ⟨as, bs, p, n, hs, hn, -⟩ := exists_seam [x] xs hr
  have hp : x = p := by simpa using congrArg List.getLast? hs.left
  subst hp hn
  exact insertBetween [x] xs hr he hs

theorem unlink (hr : IsRing l h (xs ++ e :: ys)) :
    IsRing (l.unlink (l.prev e) (l.next e)) h (xs ++ ys) := by
  obtain ⟨as, bs, p, n, hs⟩ := Seam.cut h xs ys
  have hOld : h :: (xs ++ e :: ys) ++ [h] = as ++ p :: e :: n :: bs := by
    simpa using hs.split [e]
  have hnd : (h :: (xs ++ ys)).Nodup :=
    hr.nodup.sublist (((List.sublist_cons_self e ys).append_left xs).cons_cons h)
  have hc := hr.chain
  rw [hOld, List.isChain_append_cons_cons, List.isChain_cons_cons] at hc
  obtain ⟨hl, ⟨-, hpe⟩, ⟨hen, -⟩, hr'⟩ := hc
  rw [hpe, hen]
  obtain ⟨hl, hr'⟩ := hs.chains_congr (l.unlink p n) hnd
    (fun a _ hap => by simp [Links.unlink_next, hap])
    (fun a _ han => by simp [Links.unlink_prev, han]) hl hr'
  refine ⟨?_, hnd⟩
  rw [hs.split_nil, List.isChain_append_cons_cons]
  exact ⟨hl, ⟨by simp [Links.unlink_next], by simp [Links.unlink_prev]⟩, hr'⟩

theorem spliceAfter {f : α} {fs : List α} (hr : IsRing l h xs) (hf : IsRing l f fs)
    (hdis : List.Disjoint (f :: fs) (h :: xs)) :
    IsRing (l.spliceAfter f h) h (f :: fs ++ xs) := by
  obtain ⟨as, bs, p, n, hs, hn, -⟩ := exists_seam [] xs hr
  obtain ⟨rfl, rfl⟩ : [] = as ∧ h = p := by
    have := hs.left
    simp_all [List.singleton_eq_append_iff]
  obtain ⟨ps, q, hq⟩ := List.eq_nil_or_concat (f :: fs) |>.resolve_left (by simp)
  rw [List.concat_eq_append] at hq
  have hcf := hf.chain
  rw [show f :: fs ++ [f] = ps ++ q :: f :: [] by rw [hq]; simp,
    List.isChain_append_cons_cons] at hcf
  obtain ⟨hcq, ⟨-, hlast⟩, -⟩ := hcf
  have hqm : q ∈ f :: fs := by rw [hq]; simp
  have hmem := hs.mem
  simp only [List.nil_append] at hmem
  have hc := hr.chain
  have hsplit := hs.split_nil
  simp only [List.nil_append] at hsplit
  rw [hsplit, List.isChain_cons_cons] at hc
  have hne : ∀ {a b}, a ∈ f :: fs → b ∈ h :: xs → a ≠ b := fun ha hb hab => hdis ha (hab ▸ hb)
  have hnd : ((f :: fs) ++ (h :: xs)).Nodup := List.nodup_append.mpr
    ⟨hf.nodup, hr.nodup, fun a ha b hb => hne ha hb⟩
  obtain ⟨-, hr'⟩ := hs.chains_congr (l.spliceAfter f h) hr.nodup
    (fun a ha hah => by
      simp [Links.spliceAfter_next, hlast, hah, Ne.symm (hne hqm ha)])
    (fun a ha han => by
      simp [Links.spliceAfter_prev, hn, han, Ne.symm (hne List.mem_cons_self ha)])
    (List.isChain_singleton _) hc.2
  have hcq' : List.IsChain (l.spliceAfter f h).Linked (ps ++ [q]) := by
    refine isChain_congr (fun a ha => ?_) (fun a ha => ?_) hcq
    · rw [List.dropLast_concat] at ha
      have haf : a ∈ f :: fs := by rw [hq]; exact List.mem_append_left _ ha
      have haq : a ≠ q := by
        rintro rfl
        have hndf := hf.nodup
        rw [hq] at hndf
        exact (List.nodup_append.mp hndf).2.2 a ha a (by simp) rfl
      simp [Links.spliceAfter_next, hlast, haq, hne haf List.mem_cons_self]
    · rw [← hq, List.tail_cons] at ha
      have haf : a ≠ f := fun hh => (List.nodup_cons.mp hf.nodup).1 (hh ▸ ha)
      simp [Links.spliceAfter_prev, hn, haf, hne (List.mem_cons_of_mem _ ha) hmem.2]
  refine ⟨?_, ?_⟩
  · rw [show h :: (f :: fs ++ xs) ++ [h] = h :: f :: (fs ++ n :: bs) by
      rw [← hs.right]; simp, List.isChain_cons_cons,
      show f :: (fs ++ n :: bs) = ps ++ q :: n :: bs by
        rw [← List.cons_append, hq]; simp, List.isChain_append_cons_cons]
    refine ⟨⟨?_, ?_⟩, hcq', ⟨?_, ?_⟩, hr'⟩
    · simp [Links.spliceAfter_next, hlast, Ne.symm (hne hqm List.mem_cons_self)]
    · simp [Links.spliceAfter_prev, hn, hne List.mem_cons_self hmem.2]
    · simp [Links.spliceAfter_next, hlast, hn]
    · simp [Links.spliceAfter_prev, hlast, hn]
  · have hperm : ((f :: fs) ++ h :: xs).Perm (h :: ((f :: fs) ++ xs)) := List.perm_middle
    exact hperm.nodup_iff.mp hnd

theorem spliceAfter_seam {f w : α} {fs as : List α} (hr : IsRing l h (xs ++ ys))
    (hw : h :: xs = as ++ [w]) (hf : IsRing l f fs)
    (hdis : List.Disjoint (f :: fs) (h :: (xs ++ ys))) :
    IsRing (l.spliceAfter f w) h (xs ++ (f :: fs ++ ys)) := by
  rcases List.eq_nil_or_concat xs with rfl | ⟨xs', w', rfl⟩
  · have hhw : h = w := by simpa using congrArg List.getLast? hw
    subst hhw
    exact hr.spliceAfter hf hdis
  · have hww : w' = w := by
      rw [List.concat_eq_append, ← List.cons_append] at hw
      simpa using List.append_inj_right' hw rfl
    subst hww
    simp only [List.concat_eq_append, List.append_assoc, List.cons_append, List.nil_append]
      at hr hdis ⊢
    have hdis' : List.Disjoint (f :: fs) (w' :: (ys ++ h :: xs')) := by
      intro a ha ha'
      refine hdis ha ?_
      simp only [List.mem_cons, List.mem_append] at ha' ⊢
      tauto
    have hs := hr.rotateTo.spliceAfter hf hdis'
    rw [← List.append_assoc] at hs
    exact hs.rotateTo

end IsRing

end LinkedRing
