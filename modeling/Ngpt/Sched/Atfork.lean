import Mathlib.Data.List.Basic
import Mathlib.Logic.Function.Basic

/-!
# ngpt — fork handlers (`pth_atfork_push`, `pth_fork`, `pth_fork.c`)

A process has a table of handlers and the index of the first free entry. The child of a
fork gets a copy of both, runs its child handlers and then initialises itself:
`pth_fork_init` zeroes the table and leaves the index.

A `History` is what one process has done since the library was initialised, and what its
ancestors had done before they forked it. Handlers leave the table as it is.

Result: `fork_runs_handlers_iff`.
-/

namespace Ngpt.Atfork

open Function

/-- `PTH_ATFORK_MAX`. -/
def pthAtforkMax : Nat := 128

/-- `struct pth_atfork_st`; a null pointer is `none`. -/
structure Entry (F A : Type) where
  prepare : Option F := none
  parent  : Option F := none
  child   : Option F := none
  arg     : Option A := none
  deriving DecidableEq, Repr

variable {F A : Type}

/-- `pth_atfork_list`, of which the entries below `PTH_ATFORK_MAX` exist, and
`pth_atfork_idx`. -/
structure Process (F A : Type) where
  list : Nat → Entry F A
  idx  : Nat

def pthAtforkPush (p : Process F A) (e : Entry F A) : Bool × Process F A :=
  if p.idx > pthAtforkMax - 1 then (false, p)
  else (true, { list := update p.list p.idx e, idx := p.idx + 1 })

def pthAtforkPop (p : Process F A) : Bool × Process F A :=
  if p.idx ≤ 0 then (false, p) else (true, { p with idx := p.idx - 1 })

/-- `pth_fork_init`, as far as it concerns the handlers. -/
def pthForkInit (p : Process F A) : Process F A := { p with list := fun _ => {} }

/-- The call of a handler, if there is one. -/
def call (f : Entry F A → Option F) (e : Entry F A) : Option (F × Option A) :=
  (f e).map (·, e.arg)

/-- The calls that a successful `pth_fork` makes, and the child that it leaves. -/
structure Fork (F A : Type) where
  prepare : List (F × Option A)
  parent  : List (F × Option A)
  child   : List (F × Option A)
  process : Process F A

def pthFork (p : Process F A) : Fork F A where
  prepare := (List.range p.idx).reverse.filterMap fun i => call Entry.prepare (p.list i)
  parent  := (List.range p.idx).filterMap fun i => call Entry.parent (p.list i)
  child   := (List.range p.idx).filterMap fun i => call Entry.child (p.list i)
  process := pthForkInit p

/-- What happens to a process; `fork` leaves it as it is, and after `forked` it is its own
child. -/
inductive Op (F A : Type) where
  | push (e : Entry F A)
  | pop
  | fork
  | forked

abbrev History (F A : Type) := List (Op F A)

def Process.step (p : Process F A) : Op F A → Process F A
  | .push e => (pthAtforkPush p e).2
  | .pop => (pthAtforkPop p).2
  | .fork => p
  | .forked => (pthFork p).process

/-- The process after a history. -/
def after (ops : History F A) : Process F A := ops.foldl Process.step ⟨fun _ => {}, 0⟩

/-- The handlers of a process after one more operation, the mark being that of an ancestor. -/
def register (hs : List (Entry F A × Bool)) : Op F A → List (Entry F A × Bool)
  | .push e => if hs.length < pthAtforkMax then hs ++ [(e, false)] else hs
  | .pop => hs.dropLast
  | .fork => hs
  | .forked => hs.map fun x => (x.1, true)

/-- The handlers that a process has by its history, each with a mark if it is from an ancestor. -/
def registered (ops : History F A) : List (Entry F A × Bool) := ops.foldl register []

/-- What the handlers of a process are due in a fork: all of them, in the two orders. -/
structure Fork.Runs (fork : Fork F A) (es : List (Entry F A)) : Prop where
  prepare : fork.prepare = es.reverse.filterMap (call Entry.prepare)
  parent  : fork.parent = es.filterMap (call Entry.parent)
  child   : fork.child = es.filterMap (call Entry.child)

/-! ## The table -/

/-- What the table has of a handler. -/
def kept (x : Entry F A × Bool) : Entry F A := if x.2 then {} else x.1

/-- The table shows the handlers, those from ancestors as zeros. -/
def Shows (p : Process F A) (hs : List (Entry F A × Bool)) : Prop :=
  (List.range p.idx).map p.list = hs.map kept

variable {p : Process F A} {hs : List (Entry F A × Bool)}

theorem Shows.idx_eq (h : Shows p hs) : p.idx = hs.length := by
  simpa using congrArg List.length h

theorem Shows.push (h : Shows p hs) (e : Entry F A) :
    Shows (pthAtforkPush p e).2 (register hs (.push e)) := by
  have hidx := h.idx_eq
  simp only [pthAtforkPush, register]
  by_cases hfull : hs.length < pthAtforkMax
  · rw [if_neg (by unfold pthAtforkMax at *; omega), if_pos hfull]
    -- the new entry is above those that the table shows
    have hold : (List.range p.idx).map (update p.list p.idx e) = (List.range p.idx).map p.list :=
      List.map_congr_left fun i hi => update_of_ne (Nat.ne_of_lt (List.mem_range.mp hi)) ..
    simp only [Shows, List.range_succ, List.map_append, hold, List.map_singleton, update_self]
    rw [show (List.range p.idx).map p.list = hs.map kept from h]
    rfl
  · rw [if_pos (by unfold pthAtforkMax at *; omega), if_neg hfull]
    exact h

theorem Shows.pop (h : Shows p hs) : Shows (pthAtforkPop p).2 (register hs .pop) := by
  unfold pthAtforkPop
  split
  · have hnil : hs = [] := List.length_eq_zero_iff.mp (by rw [← h.idx_eq]; omega)
    rw [hnil] at h ⊢
    exact h
  · obtain ⟨n, hn⟩ : ∃ n, p.idx = n + 1 := ⟨p.idx - 1, by omega⟩
    have hlast := congrArg List.dropLast h
    rw [hn, List.range_succ, List.map_append, List.map_singleton, List.dropLast_concat] at hlast
    simpa [Shows, hn, register] using hlast

theorem Shows.forked (h : Shows p hs) : Shows (pthForkInit p) (register hs .forked) := by
  simp only [Shows, pthForkInit, register, List.map_map, h.idx_eq]
  exact (List.map_const' ..).trans (by simp [Function.comp_def, kept])

theorem Shows.step (h : Shows p hs) (op : Op F A) : Shows (p.step op) (register hs op) := by
  cases op with
  | push e => exact h.push e
  | pop => exact h.pop
  | fork => exact h
  | forked => exact h.forked

theorem Shows.run (h : Shows p hs) (ops : History F A) :
    Shows (ops.foldl Process.step p) (ops.foldl register hs) := by
  induction ops generalizing p hs with
  | nil => exact h
  | cons op ops ih => exact ih (h.step op)

theorem shows_after (ops : History F A) : Shows (after ops) (registered ops) :=
  Shows.run (show Shows ⟨fun _ => {}, 0⟩ [] from rfl) ops

/-! ## The calls -/

theorem filterMap_eq_iff {α β : Type} {f g : α → Option β} {l : List α}
    (h : ∀ x ∈ l, g x = f x ∨ g x = none) :
    l.filterMap g = l.filterMap f ↔ ∀ x ∈ l, g x = f x := by
  refine ⟨?_, List.filterMap_congr⟩
  have hlen : ∀ xs : List α, (∀ x ∈ xs, g x = f x ∨ g x = none) →
      (xs.filterMap g).length ≤ (xs.filterMap f).length := by
    intro xs hxs
    simp only [List.length_filterMap_eq_countP]
    refine List.countP_mono_left fun x hx hg => ?_
    rcases hxs x hx with hfg | hnone
    · rwa [← hfg]
    · simp [hnone] at hg
  induction l with
  | nil => simp
  | cons x l ih =>
    obtain ⟨hx, hl⟩ := List.forall_mem_cons.mp h
    intro heq
    rcases hx with hfg | hnone
    · refine List.forall_mem_cons.mpr ⟨hfg, ih hl ?_⟩
      cases hf : f x <;> simpa [hfg, hf] using heq
    · cases hf : f x with
      | none => exact List.forall_mem_cons.mpr ⟨hnone.trans hf.symm,
        ih hl (by simpa [hnone, hf] using heq)⟩
      | some b =>
        have hshort := congrArg List.length heq
        have := hlen l hl
        simp only [List.filterMap_cons, hnone, hf, List.length_cons] at hshort
        omega

theorem calls_eq_iff (f : Entry F A → Option F) (hf : f {} = none) (hs : List (Entry F A × Bool)) :
    (hs.map kept).filterMap (call f) = (hs.map Prod.fst).filterMap (call f) ↔
      ∀ x ∈ hs, x.2 = true → f x.1 = none := by
  have hkept : ∀ x : Entry F A × Bool, x.2 = true → call f (kept x) = none := by
    intro x hx
    simp [call, kept, hx, hf]
  rw [List.filterMap_map, List.filterMap_map, filterMap_eq_iff]
  · refine forall₂_congr fun x _ => ?_
    cases hx : x.2 with
    | false => simp [kept, hx]
    | true =>
      rw [comp_apply, hkept x hx, eq_comm]
      simp [call]
  · intro x _
    cases hx : x.2 with
    | false => exact Or.inl (by simp [kept, hx])
    | true => exact Or.inr (hkept x hx)

/-- **The handlers that a fork runs.** -/
theorem fork_runs_handlers_iff (ops : History F A) :
    (pthFork (after ops)).Runs ((registered ops).map Prod.fst) ↔
      ∀ x ∈ registered ops, x.2 = true →
        x.1.prepare = none ∧ x.1.parent = none ∧ x.1.child = none := by
  have hshown := shows_after ops
  have hcalls : ∀ f : Entry F A → Option F, (List.range (after ops).idx).filterMap
      (fun i => call f ((after ops).list i)) = ((registered ops).map kept).filterMap (call f) := by
    intro f
    rw [← show _ = (registered ops).map kept from hshown, List.filterMap_map]
    rfl
  have hiff : (pthFork (after ops)).Runs ((registered ops).map Prod.fst) ↔
      (∀ x ∈ registered ops, x.2 = true → x.1.prepare = none) ∧
      (∀ x ∈ registered ops, x.2 = true → x.1.parent = none) ∧
      ∀ x ∈ registered ops, x.2 = true → x.1.child = none := by
    rw [← calls_eq_iff Entry.prepare rfl, ← calls_eq_iff Entry.parent rfl,
      ← calls_eq_iff Entry.child rfl,
      ← hcalls, ← hcalls, ← hcalls]
    refine ⟨fun h => ⟨?_, h.parent, h.child⟩, fun h => ⟨?_, h.2.1, h.2.2⟩⟩
    · exact List.reverse_injective (by simpa only [pthFork, List.filterMap_reverse] using h.prepare)
    · simpa only [pthFork, List.filterMap_reverse] using congrArg List.reverse h.1
  rw [hiff]
  exact ⟨fun h x hx hold => ⟨h.1 x hx hold, h.2.1 x hx hold, h.2.2 x hx hold⟩,
    fun h => ⟨fun x hx hold => (h x hx hold).1, fun x hx hold => (h x hx hold).2.1,
      fun x hx hold => (h x hx hold).2.2⟩⟩

/-- A handler is registered, the process forks, and its child forks: nothing is called. -/
theorem child_forgets_handlers :
    let ops : History Nat Nat := [.push ⟨some 1, some 2, some 3, some 4⟩, .forked]
    (registered ops).map Prod.fst = [⟨some 1, some 2, some 3, some 4⟩] ∧ (after ops).idx = 1 ∧
      (pthFork (after ops)).prepare = [] ∧ (pthFork (after ops)).parent = [] ∧
      ¬ (pthFork (after ops)).Runs ((registered ops).map Prod.fst) := by
  refine ⟨rfl, rfl, rfl, rfl, fun h => ?_⟩
  cases h.parent

end Ngpt.Atfork
