import Ngpt.Lib.Ring
import Mathlib.Data.Set.Basic

/-!
# List nodes in flat memory

A memory maps byte addresses to 32-bit words. A list node at `n` is two words of
it, `next` at `n` and `prev` at `n + 4`, so the same memory that holds other data
is a heap of list nodes (`links`). A store to one node is an edit of the links as long
as the nodes one looks at do not overlap (`Spaced`); under that condition the edits
below act on the rings in memory as `IsRing.insertHead`, `IsRing.insertTail`,
`IsRing.unlink` and `IsRing.spliceAfter` say.

* `Span` — a block of addresses, and when two blocks are `Apart`;
* `SameOn` — two heaps of links agree on a set of nodes;
* `ring_insertHead`, `ring_insertTail`, `ring_unlinkFirst`, `ring_spliceAfter`.
-/

namespace WordMemory

open LinkedRing

/-! ## Spans -/

/-- The addresses from `base` on, `len` of them. -/
structure Span where
  base : Nat
  len  : Nat
  deriving DecidableEq, Repr

namespace Span

/-- Two spans have no address in common. -/
def Apart (s t : Span) : Prop := s.base + s.len ≤ t.base ∨ t.base + t.len ≤ s.base

/-- The first span lies inside the second. -/
def Within (s t : Span) : Prop := t.base ≤ s.base ∧ s.base + s.len ≤ t.base + t.len

instance (s t : Span) : Decidable (s.Apart t) :=
  inferInstanceAs (Decidable (_ ∨ _))

theorem Apart.symm {s t : Span} (h : s.Apart t) : t.Apart s := Or.symm h

theorem Apart.of_within {s t s' t' : Span} (h : s.Apart t) (hs : s'.Within s)
    (ht : t'.Within t) : s'.Apart t' := by
  obtain ⟨hs₁, hs₂⟩ := hs
  obtain ⟨ht₁, ht₂⟩ := ht
  rcases h with h | h
  · left
    omega
  · right
    omega

end Span

/-! ## Memory -/

/-- Words by their byte address. -/
abbrev Mem := Nat → Nat

def store (m : Mem) (a v : Nat) : Mem := fun x => if x = a then v else m x

/-- Every word of a span becomes `v`. -/
def fill (m : Mem) (s : Span) (v : Nat) : Mem :=
  fun x => if s.base ≤ x ∧ x < s.base + s.len then v else m x

@[simp] theorem store_self (m : Mem) (a v : Nat) : store m a v a = v := by simp [store]

theorem store_ne (m : Mem) {a x : Nat} (v : Nat) (h : x ≠ a) : store m a v x = m x := by
  simp [store, h]

theorem fill_mem (m : Mem) {s : Span} {x : Nat} (v : Nat) (h₁ : s.base ≤ x)
    (h₂ : x < s.base + s.len) : fill m s v x = v := by
  simp [fill, h₁, h₂]

theorem fill_off (m : Mem) {s : Span} {x : Nat} (v : Nat)
    (h : x < s.base ∨ s.base + s.len ≤ x) : fill m s v x = m x := by
  have hn : ¬ (s.base ≤ x ∧ x < s.base + s.len) := by omega
  simp [fill, hn]

/-- The list nodes of a memory. -/
def links (m : Mem) : Links Nat := ⟨fun n => m n, fun n => m (n + 4)⟩

def insertBetween (m : Mem) (e p n : Nat) : Mem :=
  store (store (store (store m e n) (e + 4) p) p e) (n + 4) e

def unlink (m : Mem) (p n : Nat) : Mem := store (store m (n + 4) p) p n

def spliceAfter (m : Mem) (f w : Nat) : Mem :=
  let last := m (f + 4)
  let wn := m w
  store (store (store (store m w f) (f + 4) w) last wn) (wn + 4) last

/-! ## Edits of memory are edits of the links -/

/-- Different nodes do not overlap. -/
def Spaced (S : Set Nat) : Prop := ∀ a ∈ S, ∀ b ∈ S, a ≠ b → a + 8 ≤ b ∨ b + 8 ≤ a

/-- The same links at all nodes of a set. -/
structure SameOn (S : Set Nat) (l l' : Links Nat) : Prop where
  next : ∀ n ∈ S, l.next n = l'.next n
  prev : ∀ n ∈ S, l.prev n = l'.prev n

variable {S : Set Nat} {l l' : Links Nat} {m : Mem} {a e p n h f v : Nat} {xs ys : List Nat}

theorem SameOn.setNext (hl : SameOn S (links m) l) (hS : Spaced S) (ha : a ∈ S) :
    SameOn S (links (store m a v)) (l.setNext a v) := by
  refine ⟨?_, ?_⟩
  · intro x hx
    have h := hl.next x hx
    simp only [links, store, Links.setNext_next] at h ⊢
    rw [h]
  · intro x hx
    have h := hl.prev x hx
    have hne : x + 4 ≠ a := by
      intro hxa
      have := hS x hx a ha (by omega)
      omega
    simp only [links, store, Links.setNext_prev, hne, if_false] at h ⊢
    exact h

theorem SameOn.setPrev (hl : SameOn S (links m) l) (hS : Spaced S) (ha : a ∈ S) :
    SameOn S (links (store m (a + 4) v)) (l.setPrev a v) := by
  refine ⟨?_, ?_⟩
  · intro x hx
    have h := hl.next x hx
    have hne : x ≠ a + 4 := by
      intro hxa
      have := hS x hx a ha (by omega)
      omega
    simp only [links, store, Links.setPrev_next, hne, if_false] at h ⊢
    exact h
  · intro x hx
    have h := hl.prev x hx
    simp only [links, store, Links.setPrev_prev, Nat.add_right_cancel_iff] at h ⊢
    rw [h]

theorem sameOn_refl (S : Set Nat) (l : Links Nat) : SameOn S l l :=
  ⟨fun _ _ => rfl, fun _ _ => rfl⟩

theorem sameOn_insertBetween (hS : Spaced S) (he : e ∈ S) (hp : p ∈ S) (hn : n ∈ S) :
    SameOn S (links (insertBetween m e p n)) ((links m).insertBetween e p n) :=
  ((((sameOn_refl S (links m)).setNext hS he).setPrev hS he).setNext hS hp).setPrev hS hn

theorem sameOn_unlink (hS : Spaced S) (hp : p ∈ S) (hn : n ∈ S) :
    SameOn S (links (unlink m p n)) ((links m).unlink p n) :=
  ((sameOn_refl S (links m)).setPrev hS hn).setNext hS hp

theorem sameOn_spliceAfter (hS : Spaced S) (hf : f ∈ S) (hh : h ∈ S) (hlast : m (f + 4) ∈ S)
    (hnext : m h ∈ S) :
    SameOn S (links (spliceAfter m f h)) ((links m).spliceAfter f h) :=
  ((((sameOn_refl S (links m)).setNext hS hh).setPrev hS hf).setNext hS hlast).setPrev hS hnext

theorem SameOn.ring (hl : SameOn S l l') (hin : ∀ x ∈ h :: xs, x ∈ S) (hr : IsRing l' h xs) :
    IsRing l h xs :=
  hr.congr (fun x hx => hl.next x (hin x hx)) fun x hx => hl.prev x (hin x hx)

/-! ## Rings in memory -/

theorem ring_congr {m' : Mem} (heq : ∀ x ∈ h :: xs, m' x = m x ∧ m' (x + 4) = m (x + 4))
    (hr : IsRing (links m) h xs) : IsRing (links m') h xs := by
  refine hr.congr ?_ ?_
  · intro x hx
    exact (heq x hx).1
  · intro x hx
    exact (heq x hx).2

theorem ring_insertHead (hS : Spaced S) (hin : ∀ x ∈ h :: xs, x ∈ S) (he : e ∈ S)
    (hnew : e ∉ h :: xs) (hr : IsRing (links m) h xs) :
    IsRing (links (insertBetween m e h (m h))) h (e :: xs) := by
  have hnext : m h ∈ S := hin _ (hr.next_prev_mem List.mem_cons_self).1
  refine (sameOn_insertBetween hS he (hin h List.mem_cons_self) hnext).ring ?_
    (hr.insertHead hnew)
  intro x hx
  simp only [List.mem_cons] at hx
  rcases hx with rfl | rfl | hx
  · exact hin x List.mem_cons_self
  · exact he
  · exact hin x (List.mem_cons_of_mem _ hx)

theorem ring_insertTail (hS : Spaced S) (hin : ∀ x ∈ h :: xs, x ∈ S) (he : e ∈ S)
    (hnew : e ∉ h :: xs) (hr : IsRing (links m) h xs) :
    IsRing (links (insertBetween m e (m (h + 4)) h)) h (xs ++ [e]) := by
  have hprev : m (h + 4) ∈ S := hin _ (hr.next_prev_mem List.mem_cons_self).2
  refine (sameOn_insertBetween hS he hprev (hin h List.mem_cons_self)).ring ?_
    (hr.insertTail hnew)
  intro x hx
  simp only [List.mem_cons, List.mem_append, List.not_mem_nil, or_false] at hx
  rcases hx with rfl | hx | rfl
  · exact hin x List.mem_cons_self
  · exact hin x (List.mem_cons_of_mem _ hx)
  · exact he

theorem ring_unlinkFirst (hS : Spaced S) (hin : ∀ x ∈ h :: e :: xs, x ∈ S)
    (hr : IsRing (links m) h (e :: xs)) :
    IsRing (links (unlink m (m (e + 4)) (m e))) h xs := by
  obtain ⟨hnext, hprev⟩ := hr.next_prev_mem (List.mem_cons_of_mem h List.mem_cons_self)
  have hcut : IsRing (links m) h ([] ++ e :: xs) := hr
  refine (sameOn_unlink hS (hin _ hprev) (hin _ hnext)).ring ?_ hcut.unlink
  intro x hx
  rcases List.mem_cons.mp hx with rfl | hx
  · exact hin x List.mem_cons_self
  · exact hin x (List.mem_cons_of_mem _ (List.mem_cons_of_mem _ hx))

theorem ring_spliceAfter {fs : List Nat} (hS : Spaced S) (hin : ∀ x ∈ h :: xs, x ∈ S)
    (hfs : ∀ x ∈ f :: fs, x ∈ S) (hdis : List.Disjoint (f :: fs) (h :: xs))
    (hr : IsRing (links m) h xs) (hf : IsRing (links m) f fs) :
    IsRing (links (spliceAfter m f h)) h (f :: fs ++ xs) := by
  have hnext : m h ∈ S := hin _ (hr.next_prev_mem List.mem_cons_self).1
  have hlast : m (f + 4) ∈ S := hfs _ (hf.next_prev_mem List.mem_cons_self).2
  refine (sameOn_spliceAfter hS (hfs f List.mem_cons_self) (hin h List.mem_cons_self) hlast
    hnext).ring ?_ (hr.spliceAfter hf hdis)
  intro x hx
  simp only [List.mem_cons, List.mem_append] at hx
  rcases hx with rfl | (rfl | hx) | hx
  · exact hin x List.mem_cons_self
  · exact hfs x List.mem_cons_self
  · exact hfs x (List.mem_cons_of_mem _ hx)
  · exact hin x (List.mem_cons_of_mem _ hx)

end WordMemory
