import Ngpt.Lib.Placement
import Ngpt.Lib.Transition
import Ngpt.Sync.Ring
import Ngpt.Sync.Semaphore

/-!
# ngpt — message ports (`pth_msg.c`)

A message port is a ring of messages (`mp_queue`), linked through the messages' own
`m_node`, so a message can be on one port at a time: it is put on a port, got from it and
replied to another one. The ports of all rings share one heap of links.

`r_nodes` is an `unsigned int` and `pth_msgport_pending` returns an `int`; both count the
messages on a port exactly because messages of 20 bytes have to fit into the address space.

Result: `msgports_are_fifo`.
-/

namespace Ngpt.MsgPort

open LinkedRing Transition WordMemory Ngpt.Sync

/-- `sizeof (pth_message_t)`: a ring node and three words. -/
def messageSize : Nat := 20

/-- The ports with the links of the messages' nodes. `puts` and `gets` are not in the
code: the messages put on a port and got from it, in order. -/
structure State (P M : Type) where
  rn        : Links (Option M)
  queue     : P → PthRing M
  replyport : M → Option P
  puts      : P → List M
  gets      : P → List M

inductive Action (P M : Type) where
  | put (mp : Option P) (m : M)
  | get (mp : Option P)
  | reply (m : Option M)
  /-- the user sets `m_replyport` -/
  | address (m : M) (mp : Option P)

variable {P M : Type} {s s' : State P M} {q : P → List M} {mp : P} {m : M}
  {a : Action P M}

def pthMsgportPending (s : State P M) : Option P → Int
  | none => -1
  | some mp => Semaphore.wrapInt (s.queue mp).nodes

/-- Empty ports, as `pth_msgport_create` makes them. -/
structure Initial (s : State P M) : Prop where
  queue : ∀ mp, s.queue mp = pthRingInit
  puts  : ∀ mp, s.puts mp = []
  gets  : ∀ mp, s.gets mp = []

def initState : State P M :=
  ⟨⟨fun _ => none, fun _ => none⟩, fun _ => pthRingInit, fun _ => none, fun _ => [], fun _ => []⟩

theorem initState_initial : Initial (initState : State P M) :=
  ⟨fun _ => rfl, fun _ => rfl, fun _ => rfl⟩

/-! ## The ports as queues -/

/-- The messages `q mp` are pending on the port `mp`. -/
structure Queues (s : State P M) (q : P → List M) : Prop where
  ring  : ∀ mp, RingOf s.rn (s.queue mp) (q mp)
  apart : ∀ mp mp' m, m ∈ q mp → m ∈ q mp' → mp = mp'
  puts  : ∀ mp, s.puts mp = s.gets mp ++ q mp

theorem Initial.queues (h : Initial s) : Queues s fun _ => [] where
  ring mp := by
    rw [h.queue mp]
    exact ringOf_init s.rn
  apart _ _ _ hm := absurd hm List.not_mem_nil
  puts mp := by rw [h.puts mp, h.gets mp, List.append_nil]

section

variable (h : Queues s q)
include h

theorem Queues.pending (A : Placement M Unsigned.range messageSize) (mp : P) :
    pthMsgportPending s (some mp) = (q mp).length := by
  have hmul : (q mp).length * messageSize ≤ Unsigned.range :=
    A.length_mul_le (by decide) (h.ring mp).nodup
  unfold messageSize Unsigned.range at hmul
  have hnodes : (s.queue mp).nodes = (q mp).length := by
    rw [(h.ring mp).nodes]
    refine Nat.mod_eq_of_lt ?_
    unfold Unsigned.range
    omega
  show Semaphore.wrapInt (s.queue mp).nodes = _
  rw [hnodes]
  refine Semaphore.wrapInt_eq (by omega) ?_
  unfold Semaphore.semValueMax
  omega

theorem Queues.sequences : Sequences s.rn s.queue q := ⟨h.ring, h.apart⟩

theorem Queues.update [DecidableEq P] {rn : Links (Option M)} {r : PthRing M}
    {xs puts gets : List M} (hring : RingOf rn r xs)
    (hframe : ∀ y mp', mp' ≠ mp → y ∈ q mp' →
      rn.next (some y) = s.rn.next (some y) ∧ rn.prev (some y) = s.rn.prev (some y))
    (hapart : ∀ y mp', mp' ≠ mp → y ∈ q mp' → y ∉ xs) (hputs : puts = gets ++ xs) :
    Queues { s with
      rn := rn, queue := Function.update s.queue mp r
      puts := Function.update s.puts mp puts, gets := Function.update s.gets mp gets }
      (Function.update q mp xs) := by
  have hseq := h.sequences.update hring hframe hapart
  refine ⟨hseq.ring, hseq.apart, fun k => ?_⟩
  by_cases hk : k = mp
  · subst hk
    simpa using hputs
  · simp only [Function.update_of_ne hk]
    exact h.puts k

end

/-! ## The calls -/

variable [DecidableEq M]

/-- Every put of `m` has had its get. -/
def OnNoPort (s : State P M) (m : M) : Prop := ∀ mp, (s.puts mp).count m = (s.gets mp).count m

/-- The condition on a call: a message is put or replied only while it is on no port. -/
def Single (s : State P M) : Action P M → Prop
  | .put _ m | .reply (some m) => OnNoPort s m
  | _ => True

theorem Queues.notMem (h : Queues s q) (hm : OnNoPort s m) (mp : P) : m ∉ q mp := by
  have hcount := hm mp
  rw [h.puts mp, List.count_append] at hcount
  exact List.count_eq_zero.mp (by omega)

variable [DecidableEq P]

/-- `pth_ring_pop`. -/
def pthRingPop (l : Links (Option M)) (r : PthRing M) :
    Option M × Links (Option M) × PthRing M :=
  match pthRingFirst r with
  | none => (none, l, r)
  | some m => (some m, pthRingDelete l r (some m))

def pthMsgportPut (s : State P M) (mp : Option P) (m : M) : Bool × State P M :=
  match mp with
  | none => (false, s)
  | some mp =>
    let r := pthRingAppend s.rn (s.queue mp) (some m)
    (true, { s with
      rn := r.1, queue := Function.update s.queue mp r.2
      puts := Function.update s.puts mp (s.puts mp ++ [m]) })

def pthMsgportGet (s : State P M) (mp : Option P) : Option M × State P M :=
  match mp with
  | none => (none, s)
  | some mp =>
    let r := pthRingPop s.rn (s.queue mp)
    (r.1, { s with
      rn := r.2.1, queue := Function.update s.queue mp r.2.2
      gets := Function.update s.gets mp (s.gets mp ++ r.1.toList) })

def pthMsgportReply (s : State P M) (m : Option M) : Bool × State P M :=
  match m with
  | none => (false, s)
  | some m => pthMsgportPut s (s.replyport m) m

def step (s : State P M) : Action P M → Option (State P M)
  | .put mp m => some (pthMsgportPut s mp m).2
  | .get mp => some (pthMsgportGet s mp).2
  | .reply m => some (pthMsgportReply s m).2
  | .address m mp => some { s with replyport := Function.update s.replyport m mp }

section

variable (h : Queues s q)
include h

theorem Queues.put (hm : OnNoPort s m) :
    Queues (pthMsgportPut s (some mp) m).2 (Function.update q mp (q mp ++ [m])) := by
  have hgets : s.gets = Function.update s.gets mp (s.gets mp) := (Function.update_eq_self ..).symm
  have hother : ∀ y mp', mp' ≠ mp → y ∈ q mp' → y ≠ m ∧ y ∉ q mp := by
    intro y mp' hne hy
    refine ⟨?_, fun hy' => hne (h.apart mp' mp y hy hy')⟩
    rintro rfl
    exact h.notMem hm mp' hy
  simp only [pthMsgportPut]
  rw [hgets]
  refine h.update (pthRingAppend_ring (h.ring mp) (h.notMem hm mp)) ?_ ?_ ?_
  · intro y mp' hne hy
    obtain ⟨hym, hyq⟩ := hother y mp' hne hy
    exact pthRingAppend_frame (h.ring mp) hym hyq
  · intro y mp' hne hy
    obtain ⟨hym, hyq⟩ := hother y mp' hne hy
    simp [hym, hyq]
  · rw [h.puts mp, List.append_assoc]

theorem Queues.get (mp : P) :
    (pthMsgportGet s (some mp)).1 = (q mp).head? ∧
      Queues (pthMsgportGet s (some mp)).2 (Function.update q mp (q mp).tail) := by
  have hputs : s.puts = Function.update s.puts mp (s.puts mp) := (Function.update_eq_self ..).symm
  have hother : ∀ y mp', mp' ≠ mp → y ∈ q mp' → y ∉ q mp :=
    fun y mp' hne hy hy' => hne (h.apart mp' mp y hy hy')
  have hring := h.ring mp
  have hhook : pthRingFirst (s.queue mp) = (q mp).head? := hring.hook
  cases hq : q mp with
  | nil =>
    rw [hq] at hhook hring
    simp only [pthMsgportGet, pthRingPop, hhook, List.head?_nil, List.tail_nil, true_and]
    rw [hputs]
    refine h.update hring (fun _ _ _ _ => ⟨rfl, rfl⟩) (fun _ _ _ _ => List.not_mem_nil) ?_
    rw [h.puts mp, hq]
    simp
  | cons x xs =>
    rw [hq] at hhook hring hother
    simp only [pthMsgportGet, pthRingPop, hhook, List.head?_cons, List.tail_cons, true_and]
    rw [hputs]
    have hhead : RingOf s.rn (s.queue mp) ([] ++ x :: xs) := hring
    refine h.update (pthRingDelete_ring hhead) ?_ ?_ ?_
    · intro y mp' hne hy
      exact pthRingDelete_frame hring List.mem_cons_self (hother y mp' hne hy)
    · intro y mp' hne hy hy'
      exact hother y mp' hne hy (List.mem_cons_of_mem x hy')
    · rw [h.puts mp, hq]
      simp

theorem Queues.putOn (hm : OnNoPort s m) (mp : Option P) :
    ∃ q', Queues (pthMsgportPut s mp m).2 q' := by
  cases mp with
  | none => exact ⟨q, h⟩
  | some mp => exact ⟨_, h.put hm⟩

/-- Every call that puts a message which is on no port keeps the ports rings. -/
theorem step_queues (hok : Single s a) (hs : step s a = some s') :
    ∃ q', Queues s' q' := by
  cases a with
  | put mp m =>
    cases hs
    exact h.putOn hok mp
  | get mp =>
    cases hs
    cases mp with
    | none => exact ⟨q, h⟩
    | some mp => exact ⟨_, (h.get mp).2⟩
  | reply m =>
    cases hs
    cases m with
    | none => exact ⟨q, h⟩
    | some m => exact h.putOn hok (s.replyport m)
  | address m mp =>
    cases hs
    exact ⟨q, h.ring, h.apart, h.puts⟩

end

/-! ## Runs -/

/-- **Message ports are queues.** In every run in which a message is put or replied only while
it is on no port: what has been put on a port is what has been got from it, in the same order,
followed by its queue, and a get returns the first message of that queue. -/
theorem msgports_are_fifo (A : Placement M Unsigned.range messageSize) (s : State P M)
    (hs : Reachable step Single Initial s) (mp : P) :
    ∃ pending : List M, s.puts mp = s.gets mp ++ pending ∧
      (pthMsgportGet s (some mp)).1 = pending.head? ∧
      ((pthMsgportGet s (some mp)).1 = none ↔ pending = []) ∧
      pthMsgportPending s (some mp) = (s.puts mp).length - (s.gets mp).length := by
  obtain ⟨q, h⟩ : ∃ q, Queues s q := by
    refine hs.invariant (I := fun s => ∃ q, Queues s q) (fun s hs => ⟨_, hs.queues⟩) ?_
    rintro s a s' ⟨q, h⟩ hok hstep
    exact step_queues h hok hstep
  have hget : (pthMsgportGet s (some mp)).1 = (q mp).head? := (h.get mp).1
  refine ⟨q mp, h.puts mp, hget, ?_, ?_⟩
  · rw [hget, List.head?_eq_none_iff]
  · rw [h.pending A mp, h.puts mp, List.length_append]
    omega

/-- Messages side by side from address 0 on. -/
def twoMessages : Placement Bool Unsigned.range messageSize where
  base m := if m then 20 else 0
  inside m := by
    unfold Unsigned.range messageSize
    split <;> omega
  apart a b h := by
    cases a <;> cases b <;> first | exact absurd rfl h | decide

instance (s : State (Fin 2) Bool) (m : Bool) : Decidable (OnNoPort s m) := by
  unfold OnNoPort; infer_instance

instance (s : State (Fin 2) Bool) (a : Action (Fin 2) Bool) : Decidable (Single s a) := by
  unfold Single; split <;> infer_instance

/-- Two messages are put on port 0 and got in turn; the first is replied to port 1. -/
theorem msgports_are_fifo_reply :
    ∃ s : State (Fin 2) Bool, Reachable step Single Initial s ∧
      s.puts 0 = [true, false] ∧ s.puts 1 = [true] ∧
      ∃ pending : List Bool, s.puts 1 = s.gets 1 ++ pending ∧
        (pthMsgportGet s (some 1)).1 = pending.head? ∧
        ((pthMsgportGet s (some 1)).1 = none ↔ pending = []) ∧
        pthMsgportPending s (some 1) = (s.puts 1).length - (s.gets 1).length := by
  refine exists_and_of_any₂ (o := runOk step Single initState [.address true (some 1),
    .put (some 0) true, .put (some 0) false, .get (some 0), .reply (some true), .get (some 0)])
    (fun _ => reachable_of_runOk (.init initState_initial)) (by decide +kernel) fun s hs _ _ => ?_
  exact msgports_are_fifo twoMessages s hs 1

end Ngpt.MsgPort
