import Ngpt.Data.Cleanup

/-!
# ngpt — cleanup handlers and the cancel type (`pthread.c`)

`_pthread_cleanup_push_defer` pushes a handler, stores the cancel type of the thread in the new
record and makes the type deferred; `_pthread_cleanup_pop_restore` pops the record and sets the type
that was in it. Between the two the thread may open and close other such blocks, whose records take
the places that earlier ones had, and set its cancel type as it likes.

A push without a handler is refused, so a block has one.

Result: `pop_restore_restores`.
-/

namespace Ngpt.Cleanup

variable {T A F G : Type} {c : T} {K : Nat} {s s' s'' : State T A F G} {p : Slot T A}
  {new old : List (Slot T A)} {others : List A} {th : Thread T A} {execute : Bool}
  {handler : Prog A F G}

/-- Properly nested pairs of `_pthread_cleanup_push` and `_pthread_cleanup_pop` (`plain`) and of
`_pthread_cleanup_push_defer` and `_pthread_cleanup_pop_restore` (`defer`), with what the handler of
each does if it is executed. -/
inductive Nest (A F G : Type) where
  | done
  | setcanceltype (type : Int) (k : Nest A F G)
  | plain (func : F) (arg : G) (block : A) (body : Nest A F G) (execute : Bool)
      (handler : Prog A F G) (k : Nest A F G)
  | defer (func : F) (arg : G) (block : A) (body : Nest A F G) (execute : Bool)
      (handler : Prog A F G) (k : Nest A F G)

/-! ## The cancel type -/

/-- The two bits of the cancel state that are the cancel type. -/
def Thread.typeBits (th : Thread T A) : BitVec 32 :=
  th.cancelstate &&& (pthCancelAsynchronous ||| pthCancelDeferred)

/-- Exactly one of them is set. -/
def Thread.OneType (th : Thread T A) : Prop :=
  th.typeBits = pthCancelAsynchronous ∨ th.typeBits = pthCancelDeferred

instance (th : Thread T A) : Decidable th.OneType :=
  inferInstanceAs (Decidable (_ ∨ _))

theorem or_and_not_and {t m clear mask : BitVec 32} (hm : ~~~clear &&& mask = m) :
    ((t ||| m) &&& ~~~clear) &&& mask = m := by
  rw [BitVec.and_assoc, hm]
  ext i hi
  simp only [BitVec.getElem_and, BitVec.getElem_or]
  cases m[i] <;> simp

theorem canceltype_of_typeBits (th : Thread T A) :
    th.canceltype =
      if th.typeBits &&& pthCancelDeferred ≠ 0 then pthreadCancelDeferred
      else pthreadCancelAsynchronous := by
  have hmask : th.typeBits &&& pthCancelDeferred = th.cancelstate &&& pthCancelDeferred := by
    rw [Thread.typeBits, BitVec.and_assoc]
    rfl
  rw [hmask]
  rfl

/-- `s'` has the list of `s`, with the same records on it, and one type bit set. -/
structure Preserved (c : T) (K : Nat) (new old : List (Slot T A)) (others : List A)
    (s s' : State T A F G) : Prop where
  inv     : Inv c K s' new old others
  oneType : (s'.thread c).OneType
  record  : ∀ q ∈ new ++ old, s'.record q = s.record q

theorem Preserved.trans (h : Preserved c K new old others s s')
    (h' : Preserved c K new old others s' s'') : Preserved c K new old others s s'' :=
  ⟨h'.inv, h'.oneType, fun q hq => (h'.record q hq).trans (h.record q hq)⟩

theorem Preserved.self (h : Preserved c K new old others s s') :
    Preserved c K new old others s' s' :=
  ⟨h.inv, h.oneType, fun _ _ => rfl⟩

/-- A block is opened: there is a new record on the list, and the others are as they were. -/
structure Opened (c : T) (K : Nat) (new old : List (Slot T A)) (others : List A) (p : Slot T A)
    (s s' : State T A F G) : Prop extends Preserved c K (p :: new) old others s' s' where
  kept : ∀ q ∈ new ++ old, s'.record q = s.record q

theorem Opened.closed {s₁ s₂ s₃ : State T A F G} (h : Opened c K new old others p s s₁)
    (hbody : Preserved c K (p :: new) old others s₁ s₂)
    (hclose : Preserved c K new old others s₂ s₃) : Preserved c K new old others s s₃ := by
  refine ⟨hclose.inv, hclose.oneType, fun q hq => ?_⟩
  rw [hclose.record q hq, hbody.record q (List.mem_cons_of_mem p hq), h.kept q hq]

variable [DecidableEq T]

theorem setThread_thread_self (s : State T A F G) (c : T) (th : Thread T A) :
    (s.setThread c th).thread c = th := by
  simp [State.setThread]

theorem typeBits_setcanceltype_deferred :
    ((pthreadSetcanceltype s c pthreadCancelDeferred).thread c).typeBits = pthCancelDeferred := by
  rw [pthreadSetcanceltype, if_neg (by decide)]
  dsimp only
  rw [if_pos rfl, setThread_thread_self]
  exact or_and_not_and rfl

theorem typeBits_setcanceltype_asynchronous :
    ((pthreadSetcanceltype s c pthreadCancelAsynchronous).thread c).typeBits =
      pthCancelAsynchronous := by
  rw [pthreadSetcanceltype, if_neg (by decide)]
  dsimp only
  rw [if_neg (by decide), setThread_thread_self]
  exact or_and_not_and rfl

theorem oneType_setcanceltype (h : (s.thread c).OneType) (type : Int) :
    ((pthreadSetcanceltype s c type).thread c).OneType := by
  by_cases hd : type = pthreadCancelDeferred
  · subst hd
    exact Or.inr typeBits_setcanceltype_deferred
  by_cases ha : type = pthreadCancelAsynchronous
  · subst ha
    exact Or.inl typeBits_setcanceltype_asynchronous
  · have hother : type < pthreadCancelDeferred ∨ type > pthreadCancelAsynchronous := by
      simp only [pthreadCancelDeferred, pthreadCancelAsynchronous] at hd ha ⊢
      omega
    rw [pthreadSetcanceltype, if_pos hother]
    exact h

theorem typeBits_setcanceltype_canceltype (h : th.OneType) :
    ((pthreadSetcanceltype s c th.canceltype).thread c).typeBits = th.typeBits := by
  rw [canceltype_of_typeBits]
  rcases h with ha | hd
  · rw [ha, if_neg (by decide)]
    exact typeBits_setcanceltype_asynchronous
  · rw [hd, if_pos (by decide)]
    exact typeBits_setcanceltype_deferred

theorem setcanceltype_record (s : State T A F G) (c : T) (type : Int) :
    (pthreadSetcanceltype s c type).record = s.record := by
  unfold pthreadSetcanceltype
  split <;> rfl

theorem preserved_setcanceltype (h : Inv c K s new old others) (ho : (s.thread c).OneType)
    (type : Int) : Preserved c K new old others s (pthreadSetcanceltype s c type) :=
  ⟨h.retyped (retyped_setcanceltype s c type), oneType_setcanceltype ho type,
    fun q _ => congrFun (setcanceltype_record s c type) q⟩

/-! ## The blocks -/

variable [DecidableEq A]

/-- The blocks, run by the thread `c`. -/
def execNest (c : T) : Nest A F G → State T A F G → State T A F G
  | .done => fun s => s
  | .setcanceltype type k => fun s => execNest c k (pthreadSetcanceltype s c type)
  | .plain func arg block body execute handler k => fun s =>
    let s := execNest c body (pthCleanupPush s c (some func) arg (some block)).2
    execNest c k (pthCleanupPop s c execute (exec c handler)).2
  | .defer func arg block body execute handler k => fun s =>
    let s := execNest c body (pthreadCleanupPushDefer s c (some func) arg (some block))
    execNest c k (pthreadCleanupPopRestore s c execute (exec c handler))

/-- Every pop that restores a cancel type restores the one that was in effect immediately before
the push that belongs to it. -/
def RestoresAll (c : T) : Nest A F G → State T A F G → Prop
  | .done => fun _ => True
  | .setcanceltype type k => fun s => RestoresAll c k (pthreadSetcanceltype s c type)
  | .plain func arg block body execute handler k => fun s =>
    let s₁ := (pthCleanupPush s c (some func) arg (some block)).2
    let s₂ := (pthCleanupPop (execNest c body s₁) c execute (exec c handler)).2
    RestoresAll c body s₁ ∧ RestoresAll c k s₂
  | .defer func arg block body execute handler k => fun s =>
    let s₁ := pthreadCleanupPushDefer s c (some func) arg (some block)
    let s₂ := pthreadCleanupPopRestore (execNest c body s₁) c execute (exec c handler)
    RestoresAll c body s₁ ∧ (s₂.thread c).typeBits = (s.thread c).typeBits ∧ RestoresAll c k s₂

/-- A handler that is executed leaves the stack, with what is in its records, and the cancel type
unchanged. -/
def HandlerOk (c : T) (execute : Bool) (handler : Prog A F G) (s : State T A F G) : Prop :=
  PopOk c execute (Legal c handler) (exec c handler) s ∧
    ∀ p, (s.thread c).cleanups = some p → execute = true →
      let s₁ := (s.unlink c p).call p
      (∀ ps, Stack s₁ c ps → ∀ q ∈ ps, (exec c handler s₁).record q = s₁.record q) ∧
        ((exec c handler s₁).thread c).typeBits = (s₁.thread c).typeBits

/-- The blocks that the allocator gives are not in use, and the handlers are as said. -/
def NestOk (c : T) : Nest A F G → State T A F G → Prop
  | .done => fun _ => True
  | .setcanceltype type k => fun s => NestOk c k (pthreadSetcanceltype s c type)
  | .plain func arg block body execute handler k => fun s =>
    let s₁ := (pthCleanupPush s c (some func) arg (some block)).2
    let s₂ := execNest c body s₁
    Fresh s (some block) ∧ NestOk c body s₁ ∧ HandlerOk c execute handler s₂ ∧
      NestOk c k (pthCleanupPop s₂ c execute (exec c handler)).2
  | .defer func arg block body execute handler k => fun s =>
    let s₁ := pthreadCleanupPushDefer s c (some func) arg (some block)
    let s₂ := execNest c body s₁
    Fresh s (some block) ∧ NestOk c body s₁ ∧ HandlerOk c execute handler s₂ ∧
      NestOk c k (pthreadCleanupPopRestore s₂ c execute (exec c handler))

/-! ## What a closed part leaves alone -/

theorem saveCanceltype_self (s : State T A F G) (c : T) (p : Slot T A) :
    ((s.saveCanceltype c p).record p).canceltype = (s.thread c).canceltype := by
  simp [State.saveCanceltype]

theorem opened_push (h : Inv c K s new old others) (ho : (s.thread c).OneType) {block : A}
    (hfresh : Fresh s (some block)) (func : F) (arg : G) :
    ∃ p, Opened c K new old others p s (pthCleanupPush s c (some func) arg (some block)).2 ∧
      ((pthCleanupPush s c (some func) arg (some block)).2.thread c).typeBits =
        (s.thread c).typeBits := by
  obtain ⟨p, al, hp, hpush, hinv⟩ := h.push_some hfresh (Or.inr (by simp)) func arg
  rw [hpush]
  have hbits : (({ s with allocated := al }.link c p func arg).thread c).typeBits =
      (s.thread c).typeBits := by
    rw [link_thread_self]
    rfl
  refine ⟨p, ⟨⟨hinv, ?_, fun _ _ => rfl⟩, fun q hq => ?_⟩, hbits⟩
  · unfold Thread.OneType
    rw [hbits]
    exact ho
  · have hqp : q ≠ p := fun hqp => hp (hqp ▸ hq)
    rw [link_record, if_neg hqp]

theorem opened_pushDefer (h : Inv c K s new old others) (ho : (s.thread c).OneType) {block : A}
    (hfresh : Fresh s (some block)) (func : F) (arg : G) :
    ∃ p, Opened c K new old others p s (pthreadCleanupPushDefer s c (some func) arg (some block)) ∧
      ((pthreadCleanupPushDefer s c (some func) arg (some block)).record p).canceltype =
        (s.thread c).canceltype := by
  obtain ⟨p, hopen, hbits⟩ := opened_push h ho hfresh func arg
  have hp : p ∉ new ++ old := (List.nodup_cons.mp hopen.inv.nodup).1
  simp only [pthreadCleanupPushDefer, hopen.inv.chain.1]
  generalize (pthCleanupPush s c (some func) arg (some block)).2 = s₁ at *
  have hsaved : Inv c K (s₁.saveCanceltype c p) (p :: new) old others :=
    hopen.inv.retyped (retyped_saveCanceltype s₁ c p)
  have hset := preserved_setcanceltype hsaved hopen.oneType pthreadCancelDeferred
  refine ⟨p, ⟨hset.self, fun q hq => ?_⟩, ?_⟩
  · have hqp : q ≠ p := fun hqp => hp (hqp ▸ hq)
    rw [setcanceltype_record, ← hopen.kept q hq]
    exact Function.update_of_ne hqp _ _
  · rw [setcanceltype_record, saveCanceltype_self, canceltype_of_typeBits, hbits,
      ← canceltype_of_typeBits]

theorem release_typeBits (s : State T A F G) (c : T) (p : Slot T A) :
    ((s.release c p).thread c).typeBits = (s.thread c).typeBits := by
  rw [release_thread, Function.update_self]
  rfl

theorem preserved_pop (h : Preserved c K (p :: new) old others s s)
    (hok : HandlerOk c execute handler s) :
    Preserved c K new old others s (pthCleanupPop s c execute (exec c handler)).2 := by
  have hsome : (s.thread c).cleanups = some p := h.inv.chain.1
  obtain ⟨s₂, hs₂, h₂, -⟩ :=
    handled (exec_keeps c (K + 1) handler) (h.inv.unlink rfl) (hok.1 p hsome)
  simp only [pthCleanupPop, hsome, ← hs₂]
  have hunlinked : Stack ((s.unlink c p).call p) c (new ++ old) := (h.inv.unlink rfl).chain
  have hkept : (∀ q ∈ new ++ old, s₂.record q = s.record q) ∧
      (s₂.thread c).typeBits = (s.thread c).typeBits := by
    have hbits : ((s.unlink c p).thread c).typeBits = (s.thread c).typeBits := by
      simp [State.unlink, State.setThread, Thread.typeBits]
    cases execute with
    | false =>
      rw [hs₂]
      exact ⟨fun _ _ => rfl, hbits⟩
    | true =>
      obtain ⟨hrecord, htype⟩ := hok.2 p hsome rfl
      rw [hs₂]
      exact ⟨hrecord _ hunlinked, htype.trans hbits⟩
  refine ⟨h₂.release h.inv.pushed.2 h.inv.found (Or.inl h.inv.pushed.1), ?_, fun q hq => ?_⟩
  · have hreleased : ((s₂.release c p).thread c).typeBits = (s.thread c).typeBits := by
      rw [← hkept.2]
      exact release_typeBits s₂ c p
    unfold Thread.OneType
    rw [hreleased]
    exact h.oneType
  · rw [(release_frame s₂ c p).1]
    exact hkept.1 q hq

theorem preserved_popRestore (h : Preserved c K (p :: new) old others s s)
    (hok : HandlerOk c execute handler s) :
    Preserved c K new old others s (pthreadCleanupPopRestore s c execute (exec c handler)) := by
  have hpop := preserved_pop h hok
  simp only [pthreadCleanupPopRestore, show (s.thread c).cleanups = some p from h.inv.chain.1]
  exact hpop.trans (preserved_setcanceltype hpop.inv hpop.oneType _)

theorem nest_preserved (n : Nest A F G) (h : Inv c K s new old others) (ho : (s.thread c).OneType)
    (hok : NestOk c n s) : RestoresAll c n s ∧ Preserved c K new old others s (execNest c n s) := by
  induction n generalizing s new with
  | done => exact ⟨trivial, h, ho, fun _ _ => rfl⟩
  | setcanceltype type k ih =>
    have hset := preserved_setcanceltype h ho type
    obtain ⟨hrest, hkept⟩ := ih hset.inv hset.oneType hok
    exact ⟨hrest, hset.trans hkept⟩
  | plain func arg block body execute handler k ihb ihk =>
    obtain ⟨hfresh, hbody, hhandler, hk⟩ := hok
    obtain ⟨p, hopen, -⟩ := opened_push h ho hfresh func arg
    obtain ⟨hrestb, hkeptb⟩ := ihb hopen.inv hopen.oneType hbody
    have hclosed := hopen.closed hkeptb (preserved_pop hkeptb.self hhandler)
    obtain ⟨hrestk, hkeptk⟩ := ihk hclosed.inv hclosed.oneType hk
    exact ⟨⟨hrestb, hrestk⟩, hclosed.trans hkeptk⟩
  | defer func arg block body execute handler k ihb ihk =>
    obtain ⟨hfresh, hbody, hhandler, hk⟩ := hok
    obtain ⟨p, hopen, hsaved⟩ := opened_pushDefer h ho hfresh func arg
    obtain ⟨hrestb, hkeptb⟩ := ihb hopen.inv hopen.oneType hbody
    have hclosed := hopen.closed hkeptb (preserved_popRestore hkeptb.self hhandler)
    obtain ⟨hrestk, hkeptk⟩ := ihk hclosed.inv hclosed.oneType hk
    refine ⟨⟨hrestb, ?_, hrestk⟩, hclosed.trans hkeptk⟩
    -- the record still has the type that was saved in it
    simp only [pthreadCleanupPopRestore,
      show ((execNest c body _).thread c).cleanups = some p from hkeptb.inv.chain.1,
      hkeptb.record p List.mem_cons_self, hsaved]
    exact typeBits_setcanceltype_canceltype ho

/-- **The cancel type.** For properly nested blocks, to any depth and with
`pthread_setcanceltype` among them, every `_pthread_cleanup_pop_restore` sets the cancel type
that was in effect immediately before the `_pthread_cleanup_push_defer` that belongs to it. -/
theorem pop_restore_restores (c : T) (K : Nat) (n : Nest A F G) (s : State T A F G)
    (new old : List (Slot T A)) (others : List A) (hinv : Inv c K s new old others)
    (htype : (s.thread c).OneType) (hok : NestOk c n s) : RestoresAll c n s :=
  (nest_preserved n hinv htype hok).1

theorem handlerOk_skip : HandlerOk c false handler s := by
  constructor <;> intro p _ hexecute <;> cases hexecute

theorem handlerOk_of_stack {ps : List (Slot T A)} (hp : (s.thread c).cleanups = some p)
    (hpop : PopOk c execute (Legal c handler) (exec c handler) s)
    (hstack : Stack ((s.unlink c p).call p) c ps)
    (hrecord : ∀ q ∈ ps, (exec c handler ((s.unlink c p).call p)).record q = s.record q)
    (hbits : ((exec c handler ((s.unlink c p).call p)).thread c).typeBits =
      (((s.unlink c p).call p).thread c).typeBits) :
    HandlerOk c execute handler s := by
  refine ⟨hpop, fun q hq _ => ?_⟩
  have hqp : q = p := Option.some.inj (hq.symm.trans hp)
  subst hqp
  refine ⟨fun qs hqs => ?_, hbits⟩
  rw [hqs.unique hstack]
  exact hrecord

/-- An asynchronous thread opens a block that defers, becomes asynchronous in it and opens another
one; the handler of the inner one pushes a record and pops it. -/
def twoDeferred : Nest Nat Nat Unit :=
  .defer 0 () 0
    (.setcanceltype 1 <| .plain 1 () 1
      (.defer 2 () 2 .done true (.push (some 3) () (some 3) <| .pop false .done .done) .done)
      false .done .done)
    false .done .done

/-- No records yet, and asynchronous. -/
def asynchronous : State Unit Nat Nat Unit :=
  ⟨fun _ => ⟨none, 0, 5⟩, fun _ => ⟨0, (), 0, none⟩, [], false, []⟩

/-- The records below the inner block. -/
def outerSlots : List (Slot Unit Nat) := [.buf () 1, .buf () 0]

theorem twoDeferred_ok : NestOk () twoDeferred asynchronous := by
  refine ⟨fresh_some (by decide), ⟨fresh_some (by decide), ⟨fresh_some (by decide), trivial, ?_,
    trivial⟩, handlerOk_skip, trivial⟩, handlerOk_skip, trivial⟩
  refine handlerOk_of_stack (p := .buf () 2) (by decide) ?_ (by decide : Stack _ _ outerSlots) ?_
    rfl
  · refine popOk_of_stack outerSlots (p := .buf () 2) (by decide) ?_ (by decide) (by decide)
    exact ⟨fresh_some (by decide), popOk_of_stack outerSlots (p := .buf () 3) (by decide) trivial
      (by decide) (by decide), trivial⟩
  · intro q hq
    rcases List.mem_cons.mp hq with rfl | hq
    · rfl
    · obtain rfl := List.mem_singleton.mp hq
      rfl

theorem pop_restore_restores_two :
    (asynchronous.thread ()).OneType ∧ NestOk () twoDeferred asynchronous ∧
      RestoresAll () twoDeferred asynchronous :=
  ⟨by decide, twoDeferred_ok,
    pop_restore_restores () 0 twoDeferred asynchronous [] [] []
      (Initial.inv ⟨rfl, rfl, List.nodup_nil⟩) (by decide) twoDeferred_ok⟩

end Ngpt.Cleanup
