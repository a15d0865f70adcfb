import Mathlib.Data.List.Perm.Basic
import Mathlib.Data.List.Nodup
import Mathlib.Logic.Function.Basic

/-!
# ngpt — cleanup handlers (`pth_clean.c`, `pthread.c`)

A thread's cleanup records form a linked list. The first `PTH_CLEANUP_COUNT` of them are in a
buffer of the thread, the others are allocated. Neither the list nor a record says where a record
is: `pth_cleanup_push` chooses by `cleanup_count`, and `pth_cleanup_pop` tells by the count
whether there is something to free. It unlinks a record, calls the handler and only then frees
the record and counts down, so that while a handler runs the count is larger than the list is
long. A handler may push and pop records itself.

Leaving the stack as it found it means for a handler that the same records are linked in the same
order. A record that a handler pops and pushes again is another one, unless it is allocated at the
same address.

Result: `cleanup_stack`.
-/

namespace Ngpt.Cleanup

open Function

/-- `PTH_CLEANUP_COUNT`. -/
def cleanupCount : Int := 5

/-- Where a record is: an element of a thread's `cleanup_buf`, or an allocated block. -/
inductive Slot (T A : Type) where
  | buf (t : T) (i : Int)
  | heap (a : A)
  deriving DecidableEq, Repr

/-- `struct pth_cleanup_st`. -/
structure PthCleanup (T A F G : Type) where
  func       : F
  arg        : G
  canceltype : Int
  next       : Option (Slot T A)

structure Thread (T A : Type) where
  cleanups    : Option (Slot T A)
  count       : Int
  cancelstate : BitVec 32

/-- The threads, the records and the allocated blocks. `badFree` and `ran` are not in the code:
whether something else than an allocated block has been freed, and the handlers called so far. -/
structure State (T A F G : Type) where
  thread    : T → Thread T A
  record    : Slot T A → PthCleanup T A F G
  allocated : List A
  badFree   : Bool
  ran       : List (F × G)

variable {T A F G : Type}

/-! ## The functions -/

section Functions

variable [DecidableEq T] [DecidableEq A]

def State.setThread (s : State T A F G) (c : T) (th : Thread T A) : State T A F G :=
  { s with thread := update s.thread c th }

def pthFreeMem (s : State T A F G) : Slot T A → State T A F G
  | .heap a =>
    if a ∈ s.allocated then { s with allocated := s.allocated.erase a }
    else { s with badFree := true }
  | .buf _ _ => { s with badFree := true }

/-- The record `p` becomes the first one of the thread `c`. -/
def State.link (s : State T A F G) (c : T) (p : Slot T A) (func : F) (arg : G) : State T A F G :=
  { s with
    thread := update s.thread c
      { s.thread c with count := (s.thread c).count + 1, cleanups := some p }
    record := update s.record p
      { s.record p with func := func, arg := arg, next := (s.thread c).cleanups } }

/-- `pth_cleanup_push`; `block` is what `pth_malloc` returns if it is called. -/
def pthCleanupPush (s : State T A F G) (c : T) (func : Option F) (arg : G) (block : Option A) :
    Bool × State T A F G :=
  match func with
  | none => (false, s)
  | some func =>
    if (s.thread c).count < cleanupCount then
      (true, s.link c (.buf c (s.thread c).count) func arg)
    else
      match block with
      | none => (false, s)
      | some a => (true, { s with allocated := a :: s.allocated }.link c (.heap a) func arg)

/-- `current->cleanups = cleanup->next;` -/
def State.unlink (s : State T A F G) (c : T) (p : Slot T A) : State T A F G :=
  s.setThread c { s.thread c with cleanups := (s.record p).next }

/-- The call of `cleanup->func(cleanup->arg)` as such. -/
def State.call (s : State T A F G) (p : Slot T A) : State T A F G :=
  { s with ran := s.ran ++ [((s.record p).func, (s.record p).arg)] }

/-- What `pth_cleanup_pop` does after the handler has returned. -/
def State.release (s : State T A F G) (c : T) (p : Slot T A) : State T A F G :=
  let s := if (s.thread c).count > cleanupCount then pthFreeMem s p else s
  s.setThread c { s.thread c with count := (s.thread c).count - 1 }

/-- `pth_cleanup_pop`; `handler` is what the handler does. -/
def pthCleanupPop (s : State T A F G) (c : T) (execute : Bool)
    (handler : State T A F G → State T A F G) : Bool × State T A F G :=
  match (s.thread c).cleanups with
  | none => (false, s)
  | some p =>
    let s := s.unlink c p
    let s := if execute then handler (s.call p) else s
    (true, s.release c p)

def pthCancelAsynchronous : BitVec 32 := 4
def pthCancelDeferred : BitVec 32 := 8

def pthreadCancelDeferred : Int := 0
def pthreadCancelAsynchronous : Int := 1

/-- What `pthread_setcanceltype` stores through `oldtype`. -/
def Thread.canceltype (th : Thread T A) : Int :=
  if th.cancelstate &&& pthCancelDeferred ≠ 0 then pthreadCancelDeferred
  else pthreadCancelAsynchronous

/-- `pthread_setcanceltype`, while no cancellation request is pending. -/
def pthreadSetcanceltype (s : State T A F G) (c : T) (type : Int) : State T A F G :=
  if type < pthreadCancelDeferred ∨ type > pthreadCancelAsynchronous then s
  else
    let t := (s.thread c).cancelstate
    let t :=
      if type = pthreadCancelDeferred then (t ||| pthCancelDeferred) &&& ~~~pthCancelAsynchronous
      else (t ||| pthCancelAsynchronous) &&& ~~~pthCancelDeferred
    s.setThread c { s.thread c with cancelstate := t }

/-- The store through `oldtype` into the record `p`. -/
def State.saveCanceltype (s : State T A F G) (c : T) (p : Slot T A) : State T A F G :=
  { s with
    record := update s.record p
      { s.record p with canceltype := (s.thread c).canceltype } }

/-- `_pthread_cleanup_push_defer`. -/
def pthreadCleanupPushDefer (s : State T A F G) (c : T) (func : Option F) (arg : G)
    (block : Option A) : State T A F G :=
  let s := (pthCleanupPush s c func arg block).2
  match (s.thread c).cleanups with
  | none => s
  | some p => pthreadSetcanceltype (s.saveCanceltype c p) c pthreadCancelDeferred

/-- `_pthread_cleanup_pop_restore`. -/
def pthreadCleanupPopRestore (s : State T A F G) (c : T) (execute : Bool)
    (handler : State T A F G → State T A F G) : State T A F G :=
  match (s.thread c).cleanups with
  | none => s
  | some p =>
    let restoreCanceltype := (s.record p).canceltype
    pthreadSetcanceltype (pthCleanupPop s c execute handler).2 c restoreCanceltype

/-- What a thread, or one of its handlers, does: the next call and what follows. A pop has the
program of the handler it calls, a push the block that the allocator has for it. -/
inductive Prog (A F G : Type) where
  | done
  | push (func : Option F) (arg : G) (block : Option A) (k : Prog A F G)
  | pop (execute : Bool) (handler k : Prog A F G)
  | pushDefer (func : Option F) (arg : G) (block : Option A) (k : Prog A F G)
  | popRestore (execute : Bool) (handler k : Prog A F G)
  | setcanceltype (type : Int) (k : Prog A F G)

/-- The program, run by the thread `c`. -/
def exec (c : T) : Prog A F G → State T A F G → State T A F G
  | .done => fun s => s
  | .push func arg block k => fun s => exec c k (pthCleanupPush s c func arg block).2
  | .pop execute handler k => fun s => exec c k (pthCleanupPop s c execute (exec c handler)).2
  | .pushDefer func arg block k => fun s => exec c k (pthreadCleanupPushDefer s c func arg block)
  | .popRestore execute handler k => fun s =>
    exec c k (pthreadCleanupPopRestore s c execute (exec c handler))
  | .setcanceltype type k => fun s => exec c k (pthreadSetcanceltype s c type)

/-! ## The stack -/

/-- The records `ps` are linked from the pointer on, first one first. -/
def Chain (record : Slot T A → PthCleanup T A F G) : Option (Slot T A) → List (Slot T A) → Prop
  | p, [] => p = none
  | p, q :: qs => p = some q ∧ Chain record (record q).next qs

/-- The stack of a thread. -/
def Stack (s : State T A F G) (c : T) (ps : List (Slot T A)) : Prop :=
  Chain s.record (s.thread c).cleanups ps

/-- The stack of `s'` has the records that the stack of `s` has. -/
def Restored (c : T) (s s' : State T A F G) : Prop := ∀ ps, Stack s c ps → Stack s' c ps

/-- The allocator gives a block that is not in use. -/
def Fresh (s : State T A F G) (block : Option A) : Prop := ∀ a, block = some a → a ∉ s.allocated

/-- A pop whose handler runs the program `handler`: the handler leaves the stack as it found it. -/
def PopOk (c : T) (execute : Bool) (legal : State T A F G → Prop)
    (handler : State T A F G → State T A F G) (s : State T A F G) : Prop :=
  ∀ p, (s.thread c).cleanups = some p → execute = true →
    legal ((s.unlink c p).call p) ∧
      Restored c ((s.unlink c p).call p) (handler ((s.unlink c p).call p))

/-- The blocks are fresh and each handler that is executed leaves the stack as it found it. -/
def Legal (c : T) : Prog A F G → State T A F G → Prop
  | .done => fun _ => True
  | .push func arg block k => fun s =>
    Fresh s block ∧ Legal c k (pthCleanupPush s c func arg block).2
  | .pop execute handler k => fun s =>
    PopOk c execute (Legal c handler) (exec c handler) s ∧
      Legal c k (pthCleanupPop s c execute (exec c handler)).2
  | .pushDefer func arg block k => fun s =>
    Fresh s block ∧ Legal c k (pthreadCleanupPushDefer s c func arg block)
  | .popRestore execute handler k => fun s =>
    PopOk c execute (Legal c handler) (exec c handler) s ∧
      Legal c k (pthreadCleanupPopRestore s c execute (exec c handler))
  | .setcanceltype type k => fun s => Legal c k (pthreadSetcanceltype s c type)

/-- The handler and the argument in a record. -/
def content (s : State T A F G) (p : Slot T A) : F × G := ((s.record p).func, (s.record p).arg)

/-- A push on a stack of handlers, below `K` handlers that are running. It fails if there is no
handler, or no room in the buffer and no block. -/
def specPush (K : Nat) (func : Option F) (arg : G) (block : Option A) (st : List (F × G)) :
    List (F × G) :=
  match func with
  | none => st
  | some func =>
    if (st.length + K : Int) < cleanupCount ∨ block ≠ none then (func, arg) :: st else st

/-- A pop from a stack of handlers, with the calls it leads to in their order. -/
def specPop (execute : Bool) (handler : List (F × G) → List (F × G) × List (F × G)) :
    List (F × G) → List (F × G) × List (F × G)
  | [] => ([], [])
  | x :: st => if execute then ((handler st).1, x :: (handler st).2) else (st, [])

/-- The program on a stack of handlers: the stack it leaves and the calls of handlers in their
order. -/
def spec (K : Nat) : Prog A F G → List (F × G) → List (F × G) × List (F × G)
  | .done => fun st => (st, [])
  | .push func arg block k | .pushDefer func arg block k => fun st =>
    spec K k (specPush K func arg block st)
  | .pop execute handler k | .popRestore execute handler k => fun st =>
    let r := specPop execute (spec (K + 1) handler) st
    ((spec K k r.1).1, r.2 ++ (spec K k r.1).2)
  | .setcanceltype _ k => spec K k

end Functions

/-! ## Where records are -/

/-- The place of a record that is pushed at the count `n`. -/
def PlacedAt (c : T) (n : Nat) (p : Slot T A) : Prop :=
  if (n : Int) < cleanupCount then p = .buf c n else ∃ a, p = .heap a

/-- The records `ps` that a handler has pushed on top of `old`, while `K` handlers run. -/
def Pushed (c : T) (K : Nat) (old : List (Slot T A)) : List (Slot T A) → Prop
  | [] => True
  | p :: ps => PlacedAt c ((ps ++ old).length + K) p ∧ Pushed c K old ps

/-- The place of a record that was pushed at a count below `n`, or that is allocated. -/
def PlacedBelow (c : T) (n : Nat) : Slot T A → Prop
  | .buf t i => t = c ∧ i < n
  | .heap _ => cleanupCount ≤ n

/-- Records that a handler has found: they were pushed when fewer handlers ran. -/
def Found (c : T) (K : Nat) : List (Slot T A) → Prop
  | [] => True
  | p :: ps => PlacedBelow c (ps.length + K) p ∧ Found c K ps

def Slot.isHeap : Slot T A → Bool
  | .heap _ => true
  | .buf _ _ => false

/-- The block of an allocated record. -/
def Slot.block? : Slot T A → Option A
  | .heap a => some a
  | .buf _ _ => none

/-- The blocks of the allocated ones among the records. -/
def blocks (ps : List (Slot T A)) : List A := ps.filterMap Slot.block?

variable {c : T} {K : Nat} {s s' : State T A F G} {p q : Slot T A} {ps qs new old : List (Slot T A)}
variable {a : A} {func : F} {arg : G} {n : Nat} {others : List A} {block : Option A}
  {legal legal' : State T A F G → Prop} {f g : State T A F G → State T A F G}
  {sp sp' : List (F × G) → List (F × G) × List (F × G)} {execute : Bool}

theorem PlacedAt.below (h : PlacedAt c n p) : PlacedBelow c (n + 1) p := by
  unfold PlacedAt at h
  split at h
  · subst h
    exact ⟨rfl, by omega⟩
  · obtain ⟨a, rfl⟩ := h
    show cleanupCount ≤ ((n + 1 : Nat) : Int)
    omega

theorem PlacedBelow.mono {m : Nat} (h : PlacedBelow c n p) (hm : n ≤ m) : PlacedBelow c m p := by
  cases p with
  | buf t i => exact ⟨h.1, Int.lt_of_lt_of_le h.2 (by exact_mod_cast hm)⟩
  | heap a => exact Int.le_trans h (by exact_mod_cast hm)

theorem PlacedAt.isHeap (h : PlacedAt c n p) (hb : PlacedBelow c n p) : p.isHeap = true := by
  unfold PlacedAt at h
  split at h
  · subst h
    exact absurd hb.2 (Int.lt_irrefl _)
  · obtain ⟨a, rfl⟩ := h
    rfl

theorem Found.of_pushed (hn : Pushed c K old new) (ho : Found c K old) :
    Found c (K + 1) (new ++ old) := by
  induction new with
  | nil =>
    clear hn
    induction old with
    | nil => exact trivial
    | cons p ps ih => exact ⟨ho.1.mono (by omega), ih ho.2⟩
  | cons p ps ih => exact ⟨hn.1.below, ih hn.2⟩

theorem Pushed.isHeap (hn : Pushed c K old new) (ho : Found c K (new ++ old)) :
    ∀ p ∈ new, p.isHeap = true := by
  induction new with
  | nil => exact fun _ h => absurd h List.not_mem_nil
  | cons q qs ih =>
    intro p hp
    rcases List.mem_cons.mp hp with rfl | hp
    · exact hn.1.isHeap ho.1
    · exact ih hn.2 ho.2 p hp

theorem Found.buf_lt (h : Found c K ps) {t : T} {i : Int} (hm : Slot.buf t i ∈ ps) :
    i + 1 < ps.length + K := by
  induction ps with
  | nil => exact absurd hm List.not_mem_nil
  | cons q qs ih =>
    have hlen : ((q :: qs).length : Int) = qs.length + 1 := by simp
    rcases List.mem_cons.mp hm with rfl | hm
    · have hlt : i < ((qs.length + K : Nat) : Int) := h.1.2
      omega
    · have hlt := ih h.2 hm
      omega

theorem mem_blocks : a ∈ blocks ps ↔ Slot.heap a ∈ ps := by
  unfold blocks
  rw [List.mem_filterMap]
  constructor
  · rintro ⟨q, hq, hqa⟩
    cases q with
    | buf t i => cases hqa
    | heap b =>
      cases hqa
      exact hq
  · intro h
    exact ⟨.heap a, h, rfl⟩

/-! ## Chains -/

theorem Chain.unique {record : Slot T A → PthCleanup T A F G} {o : Option (Slot T A)}
    (hp : Chain record o ps) (hq : Chain record o qs) : ps = qs := by
  induction ps generalizing o qs with
  | nil =>
    cases qs with
    | nil => rfl
    | cons q qs =>
      rw [show o = none from hp] at hq
      cases hq.1
  | cons p ps ih =>
    cases qs with
    | nil =>
      rw [show o = none from hq] at hp
      cases hp.1
    | cons q qs =>
      have hpq : p = q := Option.some.inj (hp.1.symm.trans hq.1)
      subst hpq
      rw [ih hp.2 hq.2]

theorem Chain.congr {record record' : Slot T A → PthCleanup T A F G} {o : Option (Slot T A)}
    (h : Chain record o ps) (hnext : ∀ q ∈ ps, (record' q).next = (record q).next) :
    Chain record' o ps := by
  induction ps generalizing o with
  | nil => exact h
  | cons p ps ih =>
    refine ⟨h.1, ?_⟩
    rw [hnext p List.mem_cons_self]
    exact ih h.2 fun q hq => hnext q (List.mem_cons_of_mem p hq)

/-! ## The invariant -/

/-- Thread `c` runs below `K` handlers. Of its records it has pushed `new` itself and found `old`;
`others` are the blocks of the records whose handlers run, and of other threads. -/
structure Inv (c : T) (K : Nat) (s : State T A F G) (new old : List (Slot T A)) (others : List A) :
    Prop where
  chain  : Stack s c (new ++ old)
  nodup  : (new ++ old).Nodup
  count  : (s.thread c).count = (new ++ old).length + K
  pushed : Pushed c K old new
  found  : Found c K old
  blocks : s.allocated.Perm (blocks (new ++ old) ++ others)
  apart  : s.allocated.Nodup

/-- What the records of a stack hold. -/
def contents (s : State T A F G) (ps : List (Slot T A)) : List (F × G) := ps.map (content s)

@[simp] theorem blocks_cons : blocks (p :: ps) = p.block?.toList ++ blocks ps := by
  cases p <;> rfl

/-- A thread without records, as `pth_tcb_alloc` makes it. -/
structure Initial (s : State T A F G) (c : T) : Prop where
  cleanups : (s.thread c).cleanups = none
  count    : (s.thread c).count = 0
  apart    : s.allocated.Nodup

theorem Initial.inv (h : Initial s c) : Inv c 0 s [] [] s.allocated :=
  ⟨h.cleanups, List.nodup_nil, by simpa using h.count, trivial, trivial, List.Perm.refl _, h.apart⟩

theorem fresh_some (ha : a ∉ s.allocated) : Fresh s (some a) := by
  rintro b hb
  cases hb
  exact ha

theorem Pushed.placedAt (h : Pushed c 0 [] ps) {above below : List (Slot T A)}
    (hps : ps = above ++ p :: below) : PlacedAt c below.length p := by
  induction above generalizing ps with
  | nil =>
    subst hps
    have hp := h.1
    simpa using hp
  | cons q above ih =>
    subst hps
    exact ih h.2 rfl

section

variable (h : Inv c K s new old others)
include h

theorem Inv.buf_notMem : Slot.buf c (s.thread c).count ∉ new ++ old := by
  intro hm
  have hlt := (Found.of_pushed h.pushed h.found).buf_lt hm
  have hcount := h.count
  push_cast at hlt
  omega

theorem Inv.heap_notMem (ha : a ∉ s.allocated) : Slot.heap a ∉ new ++ old := by
  intro hm
  exact ha (h.blocks.mem_iff.mpr (List.mem_append_left _ (mem_blocks.mpr hm)))

end

/-! ## What a program keeps -/

/-- What every part of a program does, below `K` handlers: it keeps the invariant, possibly with
some of the records it found dropped, and does to the contents what `sp` does. It frees something
that is not allocated only if it drops a record of the buffer. -/
def Keeps (c : T) (K : Nat) (legal : State T A F G → Prop) (f : State T A F G → State T A F G)
    (sp : List (F × G) → List (F × G) × List (F × G)) : Prop :=
  ∀ s new old others, Inv c K s new old others → legal s →
    ∃ new' dropped old', old = dropped ++ old' ∧ Inv c K (f s) new' old' others ∧
      contents (f s) (new' ++ old') = (sp (contents s (new ++ old))).1 ∧
      (f s).ran = s.ran ++ (sp (contents s (new ++ old))).2 ∧
      ((∀ d ∈ dropped, d.isHeap = true) → (f s).badFree = s.badFree)

theorem Keeps.id : Keeps c K (fun _ => True) (fun s : State T A F G => s) fun st => (st, []) :=
  fun _ new old _ h _ => ⟨new, [], old, rfl, h, rfl, (List.append_nil _).symm, fun _ => rfl⟩

theorem Keeps.comp (hf : Keeps c K legal f sp) (hg : Keeps c K legal' g sp') :
    Keeps c K (fun s => legal s ∧ legal' (f s)) (fun s => g (f s))
      (fun st => ((sp' (sp st).1).1, (sp st).2 ++ (sp' (sp st).1).2)) := by
  intro s new old others h hok
  obtain ⟨new₁, dropped₁, old₁, hold₁, h₁, hcontents₁, hran₁, hbad₁⟩ := hf s new old others h hok.1
  obtain ⟨new₂, dropped₂, old₂, hold₂, h₂, hcontents₂, hran₂, hbad₂⟩ :=
    hg (f s) new₁ old₁ others h₁ hok.2
  rw [hcontents₁] at hcontents₂ hran₂
  refine ⟨new₂, dropped₁ ++ dropped₂, old₂, ?_, h₂, hcontents₂, ?_, ?_⟩
  · rw [hold₁, hold₂, List.append_assoc]
  · rw [hran₂, hran₁, List.append_assoc]
  · intro hheap
    rw [hbad₂ fun d hd => hheap d (List.mem_append_right _ hd),
      hbad₁ fun d hd => hheap d (List.mem_append_left _ hd)]

/-- `s'` differs from `s` in cancel states and saved cancel types only. -/
structure Retyped (c : T) (s s' : State T A F G) : Prop where
  cleanups  : (s'.thread c).cleanups = (s.thread c).cleanups
  count     : (s'.thread c).count = (s.thread c).count
  next      : ∀ q, (s'.record q).next = (s.record q).next
  content   : ∀ q, content s' q = content s q
  allocated : s'.allocated = s.allocated
  badFree   : s'.badFree = s.badFree
  ran       : s'.ran = s.ran

theorem Retyped.refl (c : T) (s : State T A F G) : Retyped c s s :=
  ⟨rfl, rfl, fun _ => rfl, fun _ => rfl, rfl, rfl, rfl⟩

theorem Retyped.trans {s'' : State T A F G} (h : Retyped c s s') (h' : Retyped c s' s'') :
    Retyped c s s'' where
  cleanups := h'.cleanups.trans h.cleanups
  count := h'.count.trans h.count
  next q := (h'.next q).trans (h.next q)
  content q := (h'.content q).trans (h.content q)
  allocated := h'.allocated.trans h.allocated
  badFree := h'.badFree.trans h.badFree
  ran := h'.ran.trans h.ran

theorem Inv.retyped (h : Inv c K s new old others) (hr : Retyped c s s') :
    Inv c K s' new old others := by
  refine ⟨?_, h.nodup, hr.count.trans h.count, h.pushed, h.found, ?_, ?_⟩
  · have hchain := Chain.congr h.chain fun q _ => hr.next q
    rw [← hr.cleanups] at hchain
    exact hchain
  · rw [hr.allocated]
    exact h.blocks
  · rw [hr.allocated]
    exact h.apart

theorem Keeps.retyped (hf : Keeps c K legal f sp) (hr : ∀ s, Retyped c (f s) (g s)) :
    Keeps c K legal g sp := by
  intro s new old others h hok
  obtain ⟨new', dropped, old', hold, h', hcontents, hran, hbad⟩ := hf s new old others h hok
  refine ⟨new', dropped, old', hold, h'.retyped (hr s), ?_, (hr s).ran.trans hran, ?_⟩
  · rw [← hcontents]
    exact List.map_congr_left fun q _ => (hr s).content q
  · intro hheap
    rw [(hr s).badFree, hbad hheap]

theorem pthFreeMem_frame [DecidableEq A] (s : State T A F G) (p : Slot T A) :
    (pthFreeMem s p).thread = s.thread ∧ (pthFreeMem s p).record = s.record ∧
      (pthFreeMem s p).ran = s.ran := by
  cases p with
  | buf t i => exact ⟨rfl, rfl, rfl⟩
  | heap a =>
    unfold pthFreeMem
    by_cases ha : a ∈ s.allocated <;> simp [ha]

variable [DecidableEq T]

theorem retyped_setcanceltype (s : State T A F G) (c : T) (type : Int) :
    Retyped c s (pthreadSetcanceltype s c type) := by
  unfold pthreadSetcanceltype
  split
  · exact Retyped.refl c s
  · exact ⟨by simp [State.setThread], by simp [State.setThread], fun _ => rfl, fun _ => rfl, rfl,
      rfl, rfl⟩

theorem keeps_setcanceltype (type : Int) :
    Keeps c K (fun _ => True) (fun s : State T A F G => pthreadSetcanceltype s c type)
      (fun st => (st, [])) :=
  Keeps.id.retyped fun s => retyped_setcanceltype s c type

theorem Inv.unlink (h : Inv c K s new old others) (hps : new ++ old = p :: ps) :
    Inv c (K + 1) (s.unlink c p) [] ps (p.block?.toList ++ others) := by
  have hchain := h.chain
  have hnodup := h.nodup
  have hcount := h.count
  have hblocks := h.blocks
  have hfound := Found.of_pushed h.pushed h.found
  rw [hps] at hchain hnodup hcount hblocks hfound
  refine ⟨?_, (List.nodup_cons.mp hnodup).2, ?_, trivial, hfound.2, ?_, h.apart⟩
  · have hnext := hchain.2
    simpa [Stack, State.unlink, State.setThread] using hnext
  · simp only [State.unlink, State.setThread, update_self, hcount, List.length_cons,
      List.nil_append]
    push_cast
    omega
  · refine hblocks.trans ?_
    rw [blocks_cons, List.nil_append, ← List.append_assoc]
    exact List.perm_append_comm.append_right others

theorem handled (hh : Keeps c (K + 1) legal f sp)
    (h : Inv c (K + 1) (s.unlink c p) [] ps others)
    (hok : execute = true → legal ((s.unlink c p).call p) ∧
      Restored c ((s.unlink c p).call p) (f ((s.unlink c p).call p))) :
    ∃ s₂, s₂ = (if execute then f ((s.unlink c p).call p) else s.unlink c p) ∧
      Inv c (K + 1) s₂ [] ps others ∧
      contents s₂ ps = (specPop execute sp (content s p :: contents s ps)).1 ∧
      s₂.ran = s.ran ++ (specPop execute sp (content s p :: contents s ps)).2 ∧
      s₂.badFree = s.badFree := by
  cases execute with
  | false => exact ⟨_, rfl, h, rfl, (List.append_nil _).symm, rfl⟩
  | true =>
    obtain ⟨hlegal, hrestored⟩ := hok rfl
    have hcall : Inv c (K + 1) ((s.unlink c p).call p) [] ps others :=
      ⟨h.chain, h.nodup, h.count, h.pushed, h.found, h.blocks, h.apart⟩
    obtain ⟨new₂, dropped, old₂, hps, h₂, hcontents, hran, hbad⟩ := hh _ [] ps others hcall hlegal
    -- the handler leaves the records it found, so those it has pushed are the ones it dropped
    have hsame : new₂ ++ old₂ = ps := h₂.chain.unique (hrestored ps hcall.chain)
    have hnew : new₂ = dropped := List.append_cancel_right (hsame.trans hps)
    have hheap : ∀ d ∈ dropped, d.isHeap = true := by
      rw [← hnew]
      exact h₂.pushed.isHeap (hsame ▸ hcall.found)
    refine ⟨_, rfl, ?_, ?_, ?_, hbad hheap⟩
    · exact ⟨hsame ▸ h₂.chain, hsame ▸ h₂.nodup, hsame ▸ h₂.count, trivial, hcall.found,
        hsame ▸ h₂.blocks, h₂.apart⟩
    · rw [hsame] at hcontents
      exact hcontents
    · rw [if_pos rfl, hran]
      simp only [State.call, List.append_assoc]
      rfl

theorem popOk_of_stack (ps : List (Slot T A)) (hp : (s.thread c).cleanups = some p)
    (hlegal : legal ((s.unlink c p).call p))
    (h : Stack ((s.unlink c p).call p) c ps) (h' : Stack (f ((s.unlink c p).call p)) c ps) :
    PopOk c execute legal f s := by
  intro q hq _
  have hqp : q = p := Option.some.inj (hq.symm.trans hp)
  subst hqp
  refine ⟨hlegal, fun qs hqs => ?_⟩
  rw [hqs.unique h]
  exact h'

/-! ## The calls -/

variable [DecidableEq A]

@[simp] theorem link_thread_self :
    (s.link c p func arg).thread c =
      { s.thread c with count := (s.thread c).count + 1, cleanups := some p } := by
  simp [State.link]

theorem link_record (q : Slot T A) :
    (s.link c p func arg).record q =
      if q = p then { s.record p with func := func, arg := arg, next := (s.thread c).cleanups }
      else s.record q := by
  simp [State.link, update_apply]

theorem contents_link (hp : p ∉ ps) :
    contents (s.link c p func arg) (p :: ps) = (func, arg) :: contents s ps := by
  have hrest : contents (s.link c p func arg) ps = contents s ps := by
    refine List.map_congr_left fun q hq => ?_
    have hqp : q ≠ p := fun hqp => hp (hqp ▸ hq)
    simp [content, link_record, hqp]
  have hfirst : content (s.link c p func arg) p = (func, arg) := by simp [content, link_record]
  simp only [contents, List.map_cons, hfirst] at hrest ⊢
  rw [hrest]

section

variable (h : Inv c K s new old others)
include h

theorem Inv.link (hp : p ∉ new ++ old)
    (hplace : PlacedAt c ((new ++ old).length + K) p) {al : List A}
    (hal : al.Perm (p.block?.toList ++ Cleanup.blocks (new ++ old) ++ others)) (hnd : al.Nodup) :
    Inv c K ({ s with allocated := al }.link c p func arg) (p :: new) old others := by
  refine ⟨?_, ?_, ?_, ⟨hplace, h.pushed⟩, h.found, ?_, hnd⟩
  · refine ⟨by simp, ?_⟩
    rw [link_record, if_pos rfl]
    refine Chain.congr h.chain fun q hq => ?_
    have hqp : q ≠ p := fun hqp => hp (hqp ▸ hq)
    rw [link_record, if_neg hqp]
  · exact List.nodup_cons.mpr ⟨hp, h.nodup⟩
  · have hcount := h.count
    simp only [link_thread_self, List.cons_append, List.length_cons]
    push_cast at hcount ⊢
    omega
  · show al.Perm _
    rwa [List.cons_append, blocks_cons]

theorem Inv.push_some (hfresh : Fresh s block)
    (hroom : (s.thread c).count < cleanupCount ∨ block ≠ none) (func : F) (arg : G) :
    ∃ p al, p ∉ new ++ old ∧
      pthCleanupPush s c (some func) arg block =
        (true, { s with allocated := al }.link c p func arg) ∧
      Inv c K ({ s with allocated := al }.link c p func arg) (p :: new) old others := by
  have hcount := h.count
  by_cases hlt : (s.thread c).count < cleanupCount
  · have hplace : PlacedAt c ((new ++ old).length + K)
        (Slot.buf c (s.thread c).count : Slot T A) := by
      unfold PlacedAt
      push_cast
      rw [← hcount, if_pos hlt]
    refine ⟨_, s.allocated, h.buf_notMem, ?_, h.link h.buf_notMem hplace h.blocks h.apart⟩
    simp only [pthCleanupPush, if_pos hlt]
  · cases block with
    | none => exact absurd hroom (by simp [hlt])
    | some a =>
      have ha := hfresh a rfl
      have hplace : PlacedAt c ((new ++ old).length + K) (Slot.heap a : Slot T A) := by
        unfold PlacedAt
        push_cast
        rw [← hcount, if_neg hlt]
        exact ⟨a, rfl⟩
      refine ⟨_, a :: s.allocated, h.heap_notMem ha, ?_, h.link (h.heap_notMem ha) hplace
        (h.blocks.cons a) (List.nodup_cons.mpr ⟨ha, h.apart⟩)⟩
      simp only [pthCleanupPush, if_neg hlt]

theorem Inv.push (hfresh : Fresh s block) (func : Option F)
    (arg : G) :
    ∃ new', Inv c K (pthCleanupPush s c func arg block).2 new' old others ∧
      contents (pthCleanupPush s c func arg block).2 (new' ++ old) =
        specPush K func arg block (contents s (new ++ old)) ∧
      (pthCleanupPush s c func arg block).2.ran = s.ran ∧
      (pthCleanupPush s c func arg block).2.badFree = s.badFree := by
  cases func with
  | none => exact ⟨new, h, rfl, rfl, rfl⟩
  | some func =>
    have hlength : ((contents s (new ++ old)).length + K : Int) = (s.thread c).count := by
      rw [contents, List.length_map, h.count]
    simp only [specPush, hlength]
    by_cases hroom : (s.thread c).count < cleanupCount ∨ block ≠ none
    · obtain ⟨p, al, hp, hpush, hinv⟩ := h.push_some hfresh hroom func arg
      rw [hpush, if_pos hroom]
      exact ⟨p :: new, hinv, contents_link hp, rfl, rfl⟩
    · rw [if_neg hroom]
      obtain ⟨hlt, rfl⟩ : ¬ (s.thread c).count < cleanupCount ∧ block = none := by
        simpa using hroom
      simp only [pthCleanupPush, if_neg hlt]
      exact ⟨new, h, rfl, trivial, trivial⟩

end

theorem Inv.release (h : Inv c (K + 1) s [] (new ++ old) (p.block?.toList ++ others))
    (hpushed : Pushed c K old new) (hfound : Found c K old)
    (hplace : PlacedAt c ((new ++ old).length + K) p ∨ PlacedBelow c ((new ++ old).length + K) p) :
    Inv c K (s.release c p) new old others := by
  have hcount := h.count
  have hblocks := h.blocks
  simp only [List.nil_append] at hcount hblocks
  push_cast at hcount
  cases p with
  | buf t i =>
    -- nothing is allocated for it, whether it is freed or not
    have hrest : ∀ s₁ : State T A F G, s₁.thread = s.thread → s₁.record = s.record →
        s₁.allocated = s.allocated →
        Inv c K (s₁.setThread c { s₁.thread c with count := (s₁.thread c).count - 1 }) new old
          others := by
      intro s₁ hthread hrecord halloc
      refine ⟨?_, h.nodup, ?_, hpushed, hfound, ?_, ?_⟩
      · simpa [Stack, State.setThread, hthread, hrecord] using h.chain
      · simp only [State.setThread, update_self, hthread, hcount]
        omega
      · simpa [State.setThread, halloc, Slot.block?] using hblocks
      · simpa [State.setThread, halloc] using h.apart
    unfold State.release
    split
    · exact hrest _ rfl rfl rfl
    · exact hrest _ rfl rfl rfl
  | heap a =>
    have hgt : (s.thread c).count > cleanupCount := by
      have hle : cleanupCount ≤ (((new ++ old).length + K : Nat) : Int) := by
        rcases hplace with hat | hbelow
        · unfold PlacedAt at hat
          split at hat
          · cases hat
          · omega
        · exact hbelow
      push_cast at hle
      omega
    have hmem : a ∈ s.allocated := by
      rw [hblocks.mem_iff]
      simp [Slot.block?]
    have hperm : s.allocated.Perm (a :: (Cleanup.blocks (new ++ old) ++ others)) :=
      hblocks.trans (by simp [Slot.block?])
    have herase : (s.allocated.erase a).Perm (Cleanup.blocks (new ++ old) ++ others) := by
      have h' := hperm.erase a
      rwa [List.erase_cons_head] at h'
    unfold State.release
    simp only [if_pos hgt, pthFreeMem, if_pos hmem]
    refine ⟨?_, h.nodup, ?_, hpushed, hfound, ?_, ?_⟩
    · simpa [Stack, State.setThread] using h.chain
    · simp only [State.setThread, update_self, hcount]
      omega
    · exact herase
    · exact h.apart.erase a

theorem release_badFree (h : Inv c (K + 1) s [] ps (p.block?.toList ++ others))
    (hplace : PlacedAt c (ps.length + K) p ∨ p.isHeap = true ∧ PlacedBelow c (ps.length + K) p) :
    (s.release c p).badFree = s.badFree := by
  have hcount := h.count
  simp only [List.nil_append] at hcount
  push_cast at hcount
  unfold State.release
  cases p with
  | buf t i =>
    rcases hplace with hat | ⟨hheap, -⟩
    · unfold PlacedAt at hat
      split at hat
      · rw [if_neg (by push_cast at *; omega)]
        rfl
      · obtain ⟨a, ha⟩ := hat
        cases ha
    · cases hheap
  | heap a =>
    have hmem : a ∈ s.allocated := by
      rw [h.blocks.mem_iff]
      simp [Slot.block?]
    split
    · simp [pthFreeMem, hmem, State.setThread]
    · rfl

/-! ## Programs -/

theorem keeps_push (func : Option F) (arg : G) :
    Keeps c K (fun s : State T A F G => Fresh s block)
      (fun s => (pthCleanupPush s c func arg block).2)
      (fun st => (specPush K func arg block st, [])) := by
  intro s new old others h hfresh
  obtain ⟨new', h', hcontents, hran, hbad⟩ := h.push hfresh func arg
  exact ⟨new', [], old, rfl, h', hcontents, by simpa using hran, fun _ => hbad⟩

theorem release_thread (s : State T A F G) (c : T) (p : Slot T A) :
    (s.release c p).thread =
      update s.thread c { s.thread c with count := (s.thread c).count - 1 } := by
  unfold State.release
  split
  · simp [State.setThread, (pthFreeMem_frame s p).1]
  · rfl

theorem release_frame (s : State T A F G) (c : T) (p : Slot T A) :
    (s.release c p).record = s.record ∧ (s.release c p).ran = s.ran := by
  unfold State.release
  split
  · exact (pthFreeMem_frame s p).2
  · exact ⟨rfl, rfl⟩

theorem contents_release : contents (s.release c p) ps = contents s ps := by
  refine List.map_congr_left fun q _ => ?_
  simp only [content, (release_frame s c p).1]

theorem keeps_pop (execute : Bool) (hh : Keeps c (K + 1) legal f sp) :
    Keeps c K (PopOk c execute legal f) (fun s => (pthCleanupPop s c execute f).2)
      (specPop execute sp) := by
  intro s new old others h hok
  cases hps : new ++ old with
  | nil =>
    obtain ⟨rfl, rfl⟩ := List.append_eq_nil_iff.mp hps
    have hnone : (s.thread c).cleanups = none := h.chain
    have hpop : (pthCleanupPop s c execute f).2 = s := by simp [pthCleanupPop, hnone]
    beta_reduce
    rw [hpop]
    exact ⟨[], [], [], rfl, h, rfl, (List.append_nil _).symm, fun _ => rfl⟩
  | cons p ps =>
    have hsome : (s.thread c).cleanups = some p := by
      have hchain := h.chain
      rw [hps] at hchain
      exact hchain.1
    obtain ⟨s₂, hs₂, h₂, hcontents, hran, hbad⟩ := handled hh (h.unlink hps) (hok p hsome)
    simp only [pthCleanupPop, hsome, ← hs₂]
    have hresult : contents (s₂.release c p) ps =
          (specPop execute sp (contents s (p :: ps))).1 ∧
        (s₂.release c p).ran = s.ran ++ (specPop execute sp (contents s (p :: ps))).2 := by
      rw [contents_release, (release_frame s₂ c p).2]
      exact ⟨hcontents, hran⟩
    cases new with
    | nil =>
      obtain rfl : old = p :: ps := hps
      have hbelow : PlacedBelow c (([] ++ ps).length + K) p := h.found.1
      have hinv : Inv c K (s₂.release c p) [] ps others :=
        h₂.release trivial h.found.2 (Or.inr hbelow)
      refine ⟨[], [p], ps, rfl, hinv, hresult.1, hresult.2, ?_⟩
      intro hheap
      rw [release_badFree h₂ (Or.inr ⟨hheap p List.mem_cons_self, hbelow⟩), hbad]
    | cons q new =>
      rw [List.cons_append, List.cons.injEq] at hps
      obtain ⟨rfl, rfl⟩ := hps
      refine ⟨new, [], old, rfl, h₂.release h.pushed.2 h.found (Or.inl h.pushed.1), hresult.1,
        hresult.2, ?_⟩
      intro _
      rw [release_badFree h₂ (Or.inl h.pushed.1), hbad]

/-! ## The calls that save the cancel type -/

theorem retyped_saveCanceltype (s : State T A F G) (c : T) (p : Slot T A) :
    Retyped c s (s.saveCanceltype c p) := by
  refine ⟨rfl, rfl, fun q => ?_, fun q => ?_, rfl, rfl, rfl⟩
  · by_cases hq : q = p <;> simp [State.saveCanceltype, hq]
  · by_cases hq : q = p <;> simp [content, State.saveCanceltype, hq]

theorem retyped_pushDefer (s : State T A F G) (c : T) (func : Option F) (arg : G)
    (block : Option A) :
    Retyped c (pthCleanupPush s c func arg block).2
      (pthreadCleanupPushDefer s c func arg block) := by
  simp only [pthreadCleanupPushDefer]
  split
  · exact Retyped.refl c _
  · exact (retyped_saveCanceltype _ c _).trans (retyped_setcanceltype _ c _)

theorem retyped_popRestore (s : State T A F G) (c : T) (execute : Bool)
    (f : State T A F G → State T A F G) :
    Retyped c (pthCleanupPop s c execute f).2 (pthreadCleanupPopRestore s c execute f) := by
  unfold pthreadCleanupPopRestore
  split
  next hnone =>
    simp only [pthCleanupPop, hnone]
    exact Retyped.refl c s
  · exact retyped_setcanceltype _ c _

/-- Every program keeps the invariant, whatever records of its caller it pops. -/
theorem exec_keeps (c : T) (K : Nat) (prog : Prog A F G) :
    Keeps c K (Legal c prog) (exec c prog) (spec K prog) := by
  induction prog generalizing K with
  | done => exact Keeps.id
  | push func arg block k ih => exact (keeps_push func arg).comp (ih K)
  | pop execute handler k ihh ih => exact (keeps_pop execute (ihh (K + 1))).comp (ih K)
  | pushDefer func arg block k ih =>
    have hpush : Keeps c K (fun s : State T A F G => Fresh s block)
        (fun s => (pthCleanupPush s c func arg block).2)
        (fun st => (specPush K func arg block st, [])) := keeps_push func arg
    exact (hpush.retyped fun s => retyped_pushDefer s c func arg block).comp (ih K)
  | popRestore execute handler k ihh ih =>
    have hpop := keeps_pop execute (ihh (K + 1))
    exact (hpop.retyped fun s => retyped_popRestore s c execute (exec c handler)).comp (ih K)
  | setcanceltype type k ih =>
    intro s new old others h hlegal
    exact ((keeps_setcanceltype type).comp (ih K)) s new old others h ⟨trivial, hlegal⟩

/-! ## Whole programs -/

/-- **The cleanup stack.** Of any pushes and pops, with handlers that push and pop in turn and
leave the stack as they found it: the calls and the handlers left are those of a stack, the
count is its depth, the records are in different places, in the buffer while there is room, and
of the blocks allocated for them exactly those of the records left are in use. -/
theorem cleanup_stack (c : T) (prog : Prog A F G) (s : State T A F G) (hs : Initial s c)
    (hlegal : Legal c prog s) :
    ∃ ps : List (Slot T A), Stack (exec c prog s) c ps ∧
      contents (exec c prog s) ps = (spec 0 prog []).1 ∧
      (exec c prog s).ran = s.ran ++ (spec 0 prog []).2 ∧
      ((exec c prog s).thread c).count = ps.length ∧
      ps.Nodup ∧
      (∀ above p below, ps = above ++ p :: below → PlacedAt c below.length p) ∧
      (exec c prog s).allocated.Perm (blocks ps ++ s.allocated) ∧
      (exec c prog s).badFree = s.badFree := by
  obtain ⟨ps, dropped, old, hold, h, hcontents, hran, hbad⟩ :=
    exec_keeps c 0 prog s [] [] s.allocated hs.inv hlegal
  obtain ⟨rfl, rfl⟩ := List.append_eq_nil_iff.mp hold.symm
  have hcount := h.count
  have hnodup := h.nodup
  have hblocks := h.blocks
  have hchain := h.chain
  rw [List.append_nil] at hcontents hcount hnodup hblocks hchain
  refine ⟨ps, hchain, hcontents, hran, by simpa using hcount, hnodup, ?_, hblocks,
    hbad fun d hd => absurd hd List.not_mem_nil⟩
  intro above p below hps
  exact h.pushed.placedAt hps

instance decidableChain (record : Slot T A → PthCleanup T A F G) :
    (o : Option (Slot T A)) → (ps : List (Slot T A)) → Decidable (Chain record o ps)
  | o, [] => inferInstanceAs (Decidable (o = none))
  | o, q :: qs =>
    have := decidableChain record (record q).next qs
    inferInstanceAs (Decidable (o = some q ∧ Chain record (record q).next qs))

instance (s : State T A F G) (c : T) (ps : List (Slot T A)) : Decidable (Stack s c ps) := by
  unfold Stack; infer_instance

/-- Six records; when the sixth is popped, its handler pushes another one and pops it. -/
def sixRecords : Prog Nat Nat Unit :=
  .push (some 0) () none <| .push (some 1) () none <| .push (some 2) () none <|
  .push (some 3) () none <| .push (some 4) () none <| .push (some 5) () (some 0) <|
  .pop true (.push (some 6) () (some 1) <| .pop true .done .done) .done

def noRecords : State Unit Nat Nat Unit :=
  ⟨fun _ => ⟨none, 0, 9⟩, fun _ => ⟨0, (), 0, none⟩, [], false, []⟩

/-- The first five records, in the buffer. -/
def fiveSlots : List (Slot Unit Nat) := [.buf () 4, .buf () 3, .buf () 2, .buf () 1, .buf () 0]

theorem sixRecords_legal : Legal () sixRecords noRecords := by
  refine ⟨nofun, nofun, nofun, nofun, nofun, fresh_some (by decide), ?_, trivial⟩
  refine popOk_of_stack fiveSlots (p := .heap 0) (by decide) ?_ (by decide) (by decide)
  refine ⟨fresh_some (by decide), ?_, trivial⟩
  exact popOk_of_stack fiveSlots (p := .heap 1) (by decide) trivial (by decide) (by decide)

theorem cleanup_stack_six :
    Legal () sixRecords noRecords ∧ (spec 0 sixRecords []).2 = [(5, ()), (6, ())] ∧
    ∃ ps : List (Slot Unit Nat), Stack (exec () sixRecords noRecords) () ps ∧
      contents (exec () sixRecords noRecords) ps = (spec 0 sixRecords []).1 ∧
      (exec () sixRecords noRecords).ran = noRecords.ran ++ (spec 0 sixRecords []).2 ∧
      ((exec () sixRecords noRecords).thread ()).count = ps.length ∧
      ps.Nodup ∧
      (∀ above p below, ps = above ++ p :: below → PlacedAt () below.length p) ∧
      (exec () sixRecords noRecords).allocated.Perm (blocks ps ++ noRecords.allocated) ∧
      (exec () sixRecords noRecords).badFree = noRecords.badFree := by
  refine ⟨sixRecords_legal, by decide, ?_⟩
  exact cleanup_stack () sixRecords noRecords ⟨rfl, rfl, List.nodup_nil⟩ sixRecords_legal

end Ngpt.Cleanup
