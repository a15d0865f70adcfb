import Ngpt.Data.Cleanup

/-!
# ngpt — popping all handlers of a thread (`pth_clean.c`)

`pth_cleanup_popall` takes a thread and empties its cleanup stack, but decides by the count of the
calling thread whether a record is freed, and counts the calling thread down. It is called for the
current thread when it exits, and by `pth_tcb_free` for a thread that is dropped by another one.

Result: `popall_iff_current`.
-/

namespace Ngpt.Cleanup

variable {T A F G : Type} {c t u : T} {s s' : State T A F G} {p : Slot T A} {ps : List (Slot T A)}
  {others : List A} {execute : Bool} {fuel : Nat}

/-- What popping all records `ps` of the thread `t` is for. -/
structure PoppedAll (t : T) (execute : Bool) (ps : List (Slot T A)) (s s' : State T A F G) :
    Prop where
  empty   : Stack s' t []
  ran     : s'.ran = s.ran ++ if execute then contents s ps else []
  freed   : s.allocated.Perm (blocks ps ++ s'.allocated)
  badFree : s'.badFree = s.badFree
  count   : (s'.thread t).count = 0
  others  : ∀ u, u ≠ t → s'.thread u = s.thread u
  records : s'.record = s.record

theorem poppedAll_nil (execute : Bool) (h : Inv t 0 s [] [] others) :
    PoppedAll t execute [] s s := by
  refine ⟨h.chain, ?_, List.Perm.refl _, rfl, ?_, fun _ _ => rfl, rfl⟩
  · cases execute <;> simp [contents]
  · simpa using h.count

variable [DecidableEq T] [DecidableEq A]

/-- `pth_cleanup_popall` of the thread `t`, called by the thread `c`, with handlers that push and
pop nothing; `none` if the loop has not ended within `fuel` rounds. -/
def pthCleanupPopall (c t : T) (execute : Bool) : Nat → State T A F G → Option (State T A F G)
  | 0, _ => none
  | fuel + 1, s =>
    match (s.thread t).cleanups with
    | none => some s
    | some p =>
      let s := s.unlink t p
      let s := if execute then s.call p else s
      pthCleanupPopall c t execute fuel (s.release c p)

/-! ## One round -/

/-- One round of the loop. -/
def State.popOne (s : State T A F G) (c t : T) (execute : Bool) (p : Slot T A) : State T A F G :=
  (if execute then (s.unlink t p).call p else s.unlink t p).release c p

theorem popall_cons (h : Stack s t (p :: ps)) :
    pthCleanupPopall c t execute (fuel + 1) s =
      pthCleanupPopall c t execute fuel (s.popOne c t execute p) := by
  have hsome : (s.thread t).cleanups = some p := h.1
  simp only [pthCleanupPopall, hsome]
  rfl

theorem popall_nil (h : Stack s t []) : pthCleanupPopall c t execute (fuel + 1) s = some s := by
  have hnone : (s.thread t).cleanups = none := h
  simp only [pthCleanupPopall, hnone]

theorem popOne_record : (s.popOne c t execute p).record = s.record := by
  unfold State.popOne
  rw [(release_frame _ c p).1]
  split <;> rfl

theorem popOne_ran :
    (s.popOne c t execute p).ran = s.ran ++ if execute then [content s p] else [] := by
  unfold State.popOne
  rw [(release_frame _ c p).2]
  cases execute with
  | false => exact (List.append_nil _).symm
  | true => rfl

theorem popOne_thread :
    (s.popOne c t execute p).thread =
      Function.update (s.unlink t p).thread c
        { (s.unlink t p).thread c with count := ((s.unlink t p).thread c).count - 1 } := by
  unfold State.popOne
  rw [release_thread]
  split <;> rfl

theorem popOne_stack (c : T) (execute : Bool) (h : Stack s t (p :: ps)) :
    Stack (s.popOne c t execute p) t ps := by
  have hnext := h.2
  unfold Stack
  rw [popOne_record, popOne_thread]
  by_cases hct : c = t
  · subst hct
    simpa [State.unlink, State.setThread] using hnext
  · simpa [State.unlink, State.setThread, Function.update_of_ne (Ne.symm hct)] using hnext

/-! ## The loop -/

/-- Called for another thread, it takes the depth of that thread's stack off the count of the
calling thread. -/
theorem popall_count (execute : Bool) (hct : c ≠ t) (h : Stack s t ps) (hfuel : ps.length < fuel) :
    ∃ s', pthCleanupPopall c t execute fuel s = some s' ∧
      (s'.thread c).count = (s.thread c).count - ps.length := by
  induction ps generalizing s fuel with
  | nil =>
    obtain ⟨fuel, rfl⟩ := Nat.exists_eq_succ_of_ne_zero (Nat.ne_of_gt hfuel)
    exact ⟨s, popall_nil h, by simp⟩
  | cons p ps ih =>
    obtain ⟨fuel, rfl⟩ := Nat.exists_eq_succ_of_ne_zero (Nat.ne_of_gt (Nat.zero_lt_of_lt hfuel))
    obtain ⟨s', hpop, hcount⟩ := ih (popOne_stack c execute h) (by simpa using hfuel)
    refine ⟨s', (popall_cons h).trans hpop, ?_⟩
    have hone : ((s.popOne c t execute p).thread c).count = (s.thread c).count - 1 := by
      rw [popOne_thread, Function.update_self]
      simp [State.unlink, State.setThread, Function.update_of_ne hct]
    rw [hcount, hone, List.length_cons]
    push_cast
    omega

theorem popOne_inv (execute : Bool) (h : Inv t 0 s (p :: ps) [] others) :
    Inv t 0 (s.popOne t t execute p) ps [] others ∧
      (s.popOne t t execute p).badFree = s.badFree := by
  have hun : Inv t (0 + 1) (s.unlink t p) [] (ps ++ []) (p.block?.toList ++ others) := h.unlink rfl
  have hcall : Inv t (0 + 1) (if execute then (s.unlink t p).call p else s.unlink t p) [] (ps ++ [])
      (p.block?.toList ++ others) := by
    cases execute with
    | false => exact hun
    | true => exact ⟨hun.chain, hun.nodup, hun.count, hun.pushed, hun.found, hun.blocks, hun.apart⟩
  refine ⟨hcall.release h.pushed.2 h.found (Or.inl h.pushed.1), ?_⟩
  unfold State.popOne
  rw [release_badFree hcall (Or.inl h.pushed.1)]
  split <;> rfl

/-- For the calling thread itself: its records go in order, its blocks are freed and its count is 0
in the end. -/
theorem popall_current (execute : Bool) (h : Inv t 0 s ps [] others) (hfuel : ps.length < fuel) :
    ∃ s', pthCleanupPopall t t execute fuel s = some s' ∧ PoppedAll t execute ps s s' := by
  induction ps generalizing s fuel with
  | nil =>
    obtain ⟨fuel, rfl⟩ := Nat.exists_eq_succ_of_ne_zero (Nat.ne_of_gt hfuel)
    exact ⟨s, popall_nil h.chain, poppedAll_nil execute h⟩
  | cons p ps ih =>
    obtain ⟨fuel, rfl⟩ := Nat.exists_eq_succ_of_ne_zero (Nat.ne_of_gt (Nat.zero_lt_of_lt hfuel))
    have hchain : Stack s t (p :: ps) := by simpa using h.chain
    obtain ⟨hone, hbad⟩ := popOne_inv execute h
    obtain ⟨s', hpop, hall⟩ := ih hone (by simpa using hfuel)
    have hcontents : contents (s.popOne t t execute p) ps = contents s ps :=
      List.map_congr_left fun q _ => by simp only [content, popOne_record]
    refine ⟨s', (popall_cons hchain).trans hpop, hall.empty, ?_, ?_, hall.badFree.trans hbad,
      hall.count, ?_, hall.records.trans popOne_record⟩
    · rw [hall.ran, popOne_ran, hcontents, List.append_assoc]
      cases execute <;> rfl
    · -- the blocks of `ps` are freed later, so that of `p` is what this round frees
      have hrest : others.Perm s'.allocated := by
        have hblocks := hone.blocks
        rw [List.append_nil] at hblocks
        exact (List.perm_append_left_iff _).mp (hblocks.symm.trans hall.freed)
      have hblocks := h.blocks
      rw [List.append_nil] at hblocks
      exact hblocks.trans (hrest.append_left _)
    · intro u hu
      rw [hall.others u hu, popOne_thread, Function.update_of_ne hu]
      simp [State.unlink, State.setThread, Function.update_of_ne hu]

/-- **Popping another thread's handlers.** With all threads at rest, the thread `c` pops all
records of `t`: the loop ends, and it does to `t`, and to nobody else, what is due if and only
if `c` is `t` itself or `t` has no records. -/
theorem popall_iff_current (s : State T A F G) (stackOf : T → List (Slot T A))
    (h : ∀ u, ∃ others, Inv u 0 s (stackOf u) [] others) (c t : T) (execute : Bool) (fuel : Nat)
    (hfuel : (stackOf t).length < fuel) :
    ∃ s', pthCleanupPopall c t execute fuel s = some s' ∧
      (PoppedAll t execute (stackOf t) s s' ↔ c = t ∨ stackOf t = []) := by
  obtain ⟨others, ht⟩ := h t
  have hstack : Stack s t (stackOf t) := by simpa using ht.chain
  by_cases hct : c = t
  · subst hct
    obtain ⟨s', hpop, hall⟩ := popall_current execute ht hfuel
    exact ⟨s', hpop, iff_of_true hall (Or.inl rfl)⟩
  · obtain ⟨s', hpop, hcount⟩ := popall_count execute hct hstack hfuel
    refine ⟨s', hpop, ?_⟩
    constructor
    · intro hall
      rw [hall.others c hct] at hcount
      exact Or.inr (List.eq_nil_of_length_eq_zero (by omega))
    · rintro (hc | hnil)
      · exact absurd hc hct
      · -- without records nothing happens, whoever calls
        obtain ⟨fuel, rfl⟩ := Nat.exists_eq_succ_of_ne_zero (Nat.ne_of_gt (Nat.zero_lt_of_lt hfuel))
        rw [hnil] at ht hstack ⊢
        rw [popall_nil hstack] at hpop
        cases hpop
        exact poppedAll_nil execute ht

/-- Two threads; `true` has one record, `false` has none. -/
def oneRecord : State Bool Nat Nat Unit where
  thread u := if u then ⟨some (.buf true 0), 1, 9⟩ else ⟨none, 0, 9⟩
  record _ := ⟨7, (), 0, none⟩
  allocated := []
  badFree := false
  ran := []

def oneStack (u : Bool) : List (Slot Bool Nat) := if u then [.buf true 0] else []

theorem oneRecord_inv (u : Bool) : ∃ others, Inv u 0 oneRecord (oneStack u) [] others := by
  cases u with
  | false => exact ⟨[], rfl, by decide, rfl, trivial, trivial, List.Perm.refl _, List.nodup_nil⟩
  | true =>
    refine ⟨[], by decide, by decide, rfl, ⟨?_, trivial⟩, trivial, List.Perm.refl _, List.nodup_nil⟩
    simp [PlacedAt, cleanupCount]

theorem popall_iff_current_exit :
    ∃ s', pthCleanupPopall true true true 2 oneRecord = some s' ∧
      PoppedAll true true (oneStack true) oneRecord s' := by
  obtain ⟨s', hpop, hiff⟩ := popall_iff_current oneRecord oneStack oneRecord_inv true true true 2
    (by decide)
  exact ⟨s', hpop, hiff.mpr (Or.inl rfl)⟩

/-- `pth_tcb_free` of a thread with one record, called by a thread without records: the count of
the freed thread stays 1, that of the calling thread becomes -1. -/
theorem popall_of_other_thread :
    (∀ u, ∃ others, Inv u 0 oneRecord (oneStack u) [] others) ∧
    ∃ s', pthCleanupPopall false true false 2 oneRecord = some s' ∧
      (s'.thread true).count = 1 ∧ (s'.thread false).count = -1 ∧
      ¬ PoppedAll true false (oneStack true) oneRecord s' := by
  refine ⟨oneRecord_inv, _, rfl, by decide, by decide, fun h => ?_⟩
  have hcount := h.count
  revert hcount
  decide

end Ngpt.Cleanup
