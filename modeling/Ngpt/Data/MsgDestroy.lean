import Ngpt.Data.RingSeq

/-!
# ngpt — destroying a message port (`pth_msg.c`)

`pth_msgport_destroy` replies to the messages that are pending on the port, until it finds none,
takes the port off the ring of ports and frees it. A reply puts the message on the message's reply
port, which may be the port that is being destroyed; the message is then pending on it again.

Result: `destroy_returns_iff`.
-/

namespace Ngpt.MsgPort

open LinkedRing Ngpt.Sync

/-- The ports and their messages; `node` has the links of the ports' `mp_node`. -/
structure Ports (P M : Type) where
  msgs       : State P M
  node       : Links (Option P)
  pthMsgport : PthRing P

variable {P M : Type} [DecidableEq P]
variable {s : State P M} {q : P → List M} {mp p : P} {m : M} {ms : List M} {fuel : Nat}

theorem Queues.got_notMem (h : Queues s q) (hq : q mp = m :: ms) (p : P) :
    m ∉ Function.update q mp ms p := by
  by_cases hp : p = mp
  · subst hp
    rw [Function.update_self]
    have hnodup := (h.ring p).nodup
    rw [hq] at hnodup
    exact (List.nodup_cons.mp hnodup).1
  · rw [Function.update_of_ne hp]
    intro hm
    exact hp (h.apart p mp m hm (hq ▸ List.mem_cons_self))

/-- The queues once the first message of `mp` has been got and put on `port`. -/
def replied (q : P → List M) (mp : P) (m : M) (ms : List M) (port : Option P) (p : P) : List M :=
  Function.update q mp ms p ++ if port = some p then [m] else []

theorem replied_none : replied q mp m ms none = Function.update q mp ms := by
  funext p
  simp [replied]

theorem replied_some : replied q mp m ms (some p) =
    Function.update (Function.update q mp ms) p (Function.update q mp ms p ++ [m]) := by
  funext p'
  by_cases hp : p' = p
  · subst hp
    simp [replied]
  · simp [replied, Function.update_of_ne hp, Ne.symm hp]

variable [DecidableEq M]

/-- `while ((m = pth_msgport_get(mp)) != NULL) pth_msgport_reply(m);`, `none` if the loop is still
running after `fuel` rounds. -/
def drain (mp : P) : Nat → State P M → Option (State P M)
  | 0, _ => none
  | fuel + 1, s =>
    match pthMsgportGet s (some mp) with
    | (none, s) => some s
    | (some m, s) => drain mp fuel (pthMsgportReply s (some m)).2

def pthMsgportDestroy (fuel : Nat) (s : Ports P M) (mp : Option P) : Option (Ports P M) :=
  match mp with
  | none => some s
  | some mp =>
    (drain mp fuel s.msgs).map fun msgs =>
      let r := pthRingDelete s.node s.pthMsgport (some mp)
      ⟨msgs, r.1, r.2⟩

/-! ## One round -/

theorem Queues.onNoPort {P : Type} {s : State P M} {q : P → List M} (h : Queues s q)
    (hm : ∀ p, m ∉ q p) : OnNoPort s m := by
  intro p
  rw [h.puts p, List.count_append, List.count_eq_zero.mpr (hm p), Nat.add_zero]

/-- What one get and reply do to the queues. -/
theorem round_queues (h : Queues s q) (hq : q mp = m :: ms) (fuel : Nat) :
    ∃ s', drain mp (fuel + 1) s = drain mp fuel s' ∧ s'.replyport = s.replyport ∧
      Queues s' (replied q mp m ms (s.replyport m)) := by
  obtain ⟨hret, hgot⟩ := h.get mp
  rw [hq] at hret hgot
  have hsome : pthMsgportGet s (some mp) = (some m, (pthMsgportGet s (some mp)).2) :=
    Prod.ext hret rfl
  have hreply : (pthMsgportGet s (some mp)).2.replyport = s.replyport := rfl
  refine ⟨(pthMsgportReply (pthMsgportGet s (some mp)).2 (some m)).2, ?_, ?_, ?_⟩
  · rw [drain, hsome]
  · simp only [pthMsgportReply, hreply]
    cases s.replyport m <;> rfl
  · simp only [pthMsgportReply, hreply]
    cases s.replyport m with
    | none =>
      rw [replied_none]
      exact hgot
    | some p =>
      rw [replied_some]
      exact hgot.put (hgot.onNoPort (h.got_notMem hq))

theorem drain_nil (h : Queues s q) (hq : q mp = []) (fuel : Nat) :
    ∃ s', drain mp (fuel + 1) s = some s' ∧ Queues s' q := by
  obtain ⟨hret, hgot⟩ := h.get mp
  have hsame : Function.update q mp (q mp).tail = q := by
    rw [hq, List.tail_nil, ← hq, Function.update_eq_self]
  rw [hq] at hret
  have hnone : pthMsgportGet s (some mp) = (none, (pthMsgportGet s (some mp)).2) :=
    Prod.ext hret rfl
  refine ⟨(pthMsgportGet s (some mp)).2, ?_, hsame ▸ hgot⟩
  rw [drain, hnone]

/-! ## The loop -/

/-- The loop, if no message comes back to the port. -/
theorem drain_returns (h : Queues s q) (hq : q mp = ms)
    (hback : ∀ m ∈ ms, s.replyport m ≠ some mp) (hfuel : ms.length < fuel) :
    ∃ s' q', drain mp fuel s = some s' ∧ Queues s' q' ∧
      ∀ p, p ≠ mp → q' p = q p ++ ms.filter fun m => s.replyport m = some p := by
  induction ms generalizing s q fuel with
  | nil =>
    obtain ⟨fuel, rfl⟩ := Nat.exists_eq_succ_of_ne_zero (Nat.ne_of_gt hfuel)
    obtain ⟨s', hs', h'⟩ := drain_nil h hq fuel
    exact ⟨s', q, hs', h', fun p _ => by simp⟩
  | cons m ms ih =>
    obtain ⟨fuel, rfl⟩ := Nat.exists_eq_succ_of_ne_zero (Nat.ne_of_gt (Nat.zero_lt_of_lt hfuel))
    obtain ⟨s₁, hround, hreply, h₁⟩ := round_queues h hq fuel
    rw [List.forall_mem_cons] at hback
    have hq₁ : replied q mp m ms (s.replyport m) mp = ms := by
      rw [replied, if_neg hback.1, Function.update_self, List.append_nil]
    obtain ⟨s', q', hs', h', hrest⟩ := ih h₁ hq₁ (by simpa only [hreply] using hback.2)
      (by simpa using hfuel)
    refine ⟨s', q', hround.trans hs', h', fun p hp => ?_⟩
    rw [hrest p hp, hreply, replied, Function.update_of_ne hp, List.append_assoc]
    by_cases hpm : s.replyport m = some p
    · rw [if_pos hpm, List.filter_cons_of_pos (by simpa using hpm), List.singleton_append]
    · rw [if_neg hpm, List.filter_cons_of_neg (by simpa using hpm), List.nil_append]

/-- The loop, with a message that comes back. -/
theorem drain_runs_on (h : Queues s q) (hm : m ∈ q mp) (hback : s.replyport m = some mp)
    (fuel : Nat) : drain mp fuel s = none := by
  induction fuel generalizing s q with
  | zero => rfl
  | succ fuel ih =>
    obtain ⟨m₀, ms, hq⟩ := List.exists_cons_of_ne_nil (List.ne_nil_of_mem hm)
    obtain ⟨s₁, hround, hreply, h₁⟩ := round_queues h hq fuel
    rw [hround]
    refine ih h₁ ?_ (hreply ▸ hback)
    rw [hq, List.mem_cons] at hm
    rw [replied, Function.update_self, List.mem_append]
    rcases hm with rfl | hm
    · exact .inr (by rw [if_pos hback]; exact List.mem_singleton_self _)
    · exact .inl hm

/-- **Destroying a port.** With any messages pending and any reply ports, the call returns,
with every message on its reply port in order and the port off the ring of ports, if and only
if no pending message has this port as its reply port. -/
theorem destroy_returns_iff (s : Ports P M) (q : P → List M) (ports : List P) (mp : P)
    (hq : Queues s.msgs q) (hports : RingOf s.node s.pthMsgport ports) (hmp : mp ∈ ports) :
    (∃ fuel s', pthMsgportDestroy fuel s (some mp) = some s' ∧
      RingOf s'.node s'.pthMsgport (ports.erase mp) ∧
      ∃ q', Queues s'.msgs q' ∧ ∀ p ∈ ports, p ≠ mp →
        q' p = q p ++ (q mp).filter fun m => s.msgs.replyport m = some p) ↔
    ∀ m ∈ q mp, s.msgs.replyport m ≠ some mp := by
  constructor
  · rintro ⟨fuel, s', hreturn, -⟩ m hm hback
    simp [pthMsgportDestroy, drain_runs_on hq hm hback fuel] at hreturn
  · intro hback
    obtain ⟨msgs, q', hdrain, hq', hpending⟩ :=
      drain_returns hq rfl hback (Nat.lt_succ_self (q mp).length)
    obtain ⟨as, bs, hsplit⟩ := List.append_of_mem hmp
    subst hsplit
    have herase : (as ++ mp :: bs).erase mp = as ++ bs := by
      rw [List.erase_append_right _ hports.notMem_left, List.erase_cons_head]
    refine ⟨(q mp).length + 1, ⟨msgs, (pthRingDelete s.node s.pthMsgport (some mp)).1,
      (pthRingDelete s.node s.pthMsgport (some mp)).2⟩, ?_, ?_, q', hq',
      fun p _ hp => hpending p hp⟩
    · rw [pthMsgportDestroy, hdrain]
      rfl
    · rw [herase]
      exact pthRingDelete_ring hports

/-- Two ports; one message is pending on the port `true`. -/
def onePending (port : Option Bool) : Ports Bool Unit :=
  let r := pthRingAppend ⟨id, id⟩ pthRingInit (some true)
  let r := pthRingAppend r.1 r.2 (some false)
  ⟨(pthMsgportPut { initState with replyport := fun _ => port } (some true) ()).2, r.1, r.2⟩

theorem onePending_queues (port : Option Bool) :
    Queues (onePending port).msgs (Function.update (fun _ => []) true [()]) := by
  have hinit : Initial ({ initState with replyport := fun _ => port } : State Bool Unit) :=
    ⟨fun _ => rfl, fun _ => rfl, fun _ => rfl⟩
  exact hinit.queues.put fun _ => rfl

theorem onePending_ports (port : Option Bool) :
    RingOf (onePending port).node (onePending port).pthMsgport [true, false] :=
  pthRingAppend_ring (pthRingAppend_ring (ringOf_init _) List.not_mem_nil) (by decide)

/-- The message goes to the other port. -/
theorem destroy_returns_iff_other :
    ∃ fuel s', pthMsgportDestroy fuel (onePending (some false)) (some true) = some s' ∧
      RingOf s'.node s'.pthMsgport [false] ∧ ∃ q', Queues s'.msgs q' ∧ q' false = [()] := by
  obtain ⟨fuel, s', hreturn, hring, q', hq', hpending⟩ :=
    (destroy_returns_iff (onePending (some false)) _ [true, false] true
      (onePending_queues _) (onePending_ports _) (by decide)).mpr (by rintro _ _ ⟨⟩)
  exact ⟨fuel, s', hreturn, hring, q', hq', hpending false (by decide) (by decide)⟩

/-- The message goes to the port that is being destroyed: the call never returns. -/
theorem destroy_runs_on :
    RingOf (onePending (some true)).node (onePending (some true)).pthMsgport [true, false] ∧
    Queues (onePending (some true)).msgs (Function.update (fun _ => []) true [()]) ∧
    ∀ fuel, pthMsgportDestroy fuel (onePending (some true)) (some true) = none := by
  refine ⟨onePending_ports _, onePending_queues _, fun fuel => ?_⟩
  have hdrain : drain true fuel (onePending (some true)).msgs = none :=
    drain_runs_on (m := ()) (onePending_queues _) (by simp) rfl fuel
  rw [pthMsgportDestroy, hdrain]
  rfl

end Ngpt.MsgPort
