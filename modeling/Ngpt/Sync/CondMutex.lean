import Ngpt.Sync.Condvar

/-!
# ngpt — the mutex of a condition wait

`pth_cond_await` releases the caller's mutex once, before it blocks, and returns with the
mutex re-acquired, however often the wait loops and whoever has the mutex in between.
The mutexes may be recursive, so the results are taken from `Piece` and not from the
view of `Ngpt.Sync.Plain`.

Result: `await_contract`.
-/

namespace Ngpt.Sync

variable {Mid Tid D : Type}

/-! ## What an acquire leaves -/

section Piece

variable [DecidableEq Mid] [DecidableEq Tid] [DecidableEq D] {s s' : Sys Mid Tid D} {t u : Tid}
  {m k : Mid}

theorem Piece.unlatched (hp : Piece s u s')
    (h : ∀ m, (s.mem.mutex m).internalLocked = false) (k : Mid) :
    (s'.mem.mutex k).internalLocked = false := by
  cases hp with
  | intern _ hsame | wait _ _ hsame => exact (hsame.intern k).trans (h k)
  | @take m extra mem _ _ hsame =>
    by_cases hk : k = m
    · simpa [Mem.take_mutex, hk, hsame.intern m] using h m
    · simpa [Mem.take_mutex, hk, hsame.intern k] using h k
  | @again m _ _ _ _ _ _ _ =>
    by_cases hk : k = m
    · simpa [hk] using h m
    · simpa [hk] using h k
  | @release m _ => exact (releaseLocked_fields s.mem u m k).2.trans (h k)
  | _ => exact h k

theorem Piece.acquiring (hun : ∀ m, (s.mem.mutex m).internalLocked = false)
    (hp : Piece s t s') (hpc : (s.pc t).acquires = some m) (hfail : (s.pc t).mayFail = false)
    (h : (s.mem.mutex m).owner ≠ some t) :
    ((s'.pc t).acquires = some m ∧ (s'.pc t).mayFail = false ∧
      (s'.mem.mutex m).owner ≠ some t) ∨
      (s'.pc t = .returned .ok ∧ (s'.mem.mutex m).OwnedOnce t) := by
  have hm : ∀ {k : Mid} {extra : Bool}, (s.pc t).wants = some (k, extra) → k = m := by
    intro k extra hw
    simpa [Pc.acquires, hw] using hpc
  cases hp with
  | @intern k _ hi _ =>
    rw [hun k] at hi
    cases hi
  | @take k extra mem hw _ _ =>
    obtain rfl := hm hw
    exact Or.inr ⟨by simp, by simp [Mutex.OwnedOnce, Mem.take_mutex]⟩
  | @again k _ _ _ hq hown _ _ | @refuse k _ _ _ hq hown =>
    obtain rfl := hm (show (s.pc t).wants = some (k, _) by rw [hq]; rfl)
    exact absurd hown h
  | busy hq | interrupted hq => simp [hq, Pc.mayFail] at hfail
  | @wait k extra pc mem hw hq hsame =>
    obtain rfl := hm hw
    refine Or.inl ⟨?_, ?_, by rw [hsame.owner k]; exact h⟩
    · rcases hq with rfl | rfl <;> simp [Sys.goto, Pc.acquires, Pc.wants]
    · rcases hq with rfl | rfl
      · cases hpt : s.pc t <;> simp_all [Sys.goto, Pc.wants, Pc.mayFail]
      · simp [Sys.goto, Pc.mayFail]
  | locked hq | notLocked hq | owner hq | notOwner hq | release hq =>
    simp [hq, Pc.acquires, Pc.wants] at hpc

end Piece

namespace Condvar

open Function Transition

/-! ## The stages of a wait -/

/-- The stages of `pth_cond_await`, as far as the mutex is concerned; `calling` is a
mutex call of the thread's own. -/
inductive Stage (Mid : Type) where
  | outside
  | calling
  | owning (m : Mid)
  | releasing (m : Mid)
  | blocked (m : Mid)
  | acquiring (m : Mid)
  | done (m : Mid)

def Pc.stage : Pc Mid Tid D → Stage Mid
  | .mutex => .calling
  | .enter m _ _ => .owning m
  | .release m _ _ => .releasing m
  | .waiting m _ | .ready m _ _ | .select m => .blocked m
  | .reacquire m => .acquiring m
  | .awaited m true => .done m
  | _ => .outside

/-- What is known of the mutex at each stage of a wait of `t`. -/
def Stage.Holds (t : Tid) (solo : Bool) (freed : Nat) (q : Sync.Pc (Obj Mid))
    (mutex : Obj Mid → Mutex Tid) : Stage Mid → Prop
  | .outside => q.outside = true
  | .calling => True
  | .owning m => q.outside = true ∧ (solo = true → freed = 0 ∧ (mutex (.mutex m)).OwnedOnce t)
  | .releasing m => solo = true → freed = 0 ∧
      ((q.releases = some (.mutex m) ∧ (mutex (.mutex m)).OwnedOnce t) ∨
        (q = .returned .ok ∧ (mutex (.mutex m)).owner ≠ some t))
  | .blocked m => q.outside = true ∧
      (solo = true → freed = 1 ∧ (mutex (.mutex m)).owner ≠ some t)
  | .acquiring m => solo = true → freed = 1 ∧
      ((q.acquires = some (.mutex m) ∧ q.mayFail = false ∧
          (mutex (.mutex m)).owner ≠ some t) ∨
        (q = .returned .ok ∧ (mutex (.mutex m)).OwnedOnce t))
  | .done m => q.outside = true ∧ (solo = true → freed = 1 ∧ (mutex (.mutex m)).OwnedOnce t)

/-- The stage of every thread fits the mutexes. -/
structure Waits (s : State Mid Tid D) : Prop where
  inv       : Inv s.mutexes
  unlatched : ∀ m, (s.mutexes.mem.mutex m).internalLocked = false
  holds     : ∀ t, (s.pc t).stage.Holds t (s.solo t) (s.freed t) (s.mutexes.pc t)
    s.mutexes.mem.mutex

variable {s s' : State Mid Tid D} {t u : Tid} {m : Mid} {a : Action Mid Tid D} {isBound : Bool}
  {q : Sync.Pc (Obj Mid)} {pc : Pc Mid Tid D}

/-- The step keeps what the stage of `u` depends on, apart from the mutexes. -/
def Keeps (s s' : State Mid Tid D) (u : Tid) : Prop :=
  (s'.pc u).stage = (s.pc u).stage ∧ s'.mutexes.pc u = s.mutexes.pc u ∧ s'.solo u = s.solo u ∧
    s'.freed u = s.freed u

theorem Stage.Holds.mono {solo : Bool} {freed : Nat} {stage : Stage Mid}
    {mutex mutex' : Obj Mid → Mutex Tid} (h : stage.Holds t solo freed q mutex)
    (howned : ∀ m, (mutex m).OwnedOnce t → (mutex' m).OwnedOnce t)
    (hnot : ∀ m, (mutex m).owner ≠ some t → (mutex' m).owner ≠ some t) :
    stage.Holds t solo freed q mutex' := by
  cases stage with
  | outside => exact h
  | calling => trivial
  | owning | done => exact ⟨h.1, fun hs => ⟨(h.2 hs).1, howned _ (h.2 hs).2⟩⟩
  | releasing m =>
    intro hs
    obtain ⟨hf, ⟨hq, ho⟩ | ⟨hq, ho⟩⟩ := h hs
    · exact ⟨hf, Or.inl ⟨hq, howned _ ho⟩⟩
    · exact ⟨hf, Or.inr ⟨hq, hnot _ ho⟩⟩
  | blocked m => exact ⟨h.1, fun hs => ⟨(h.2 hs).1, hnot _ (h.2 hs).2⟩⟩
  | acquiring m =>
    intro hs
    obtain ⟨hf, ⟨hq, hmay, ho⟩ | ⟨hq, ho⟩⟩ := h hs
    · exact ⟨hf, Or.inl ⟨hq, hmay, hnot _ ho⟩⟩
    · exact ⟨hf, Or.inr ⟨hq, howned _ ho⟩⟩

theorem Stage.Holds.keep {mutex : Obj Mid → Mutex Tid} (hk : Keeps s s' u)
    (h : (s.pc u).stage.Holds u (s.solo u) (s.freed u) (s.mutexes.pc u) mutex) :
    (s'.pc u).stage.Holds u (s'.solo u) (s'.freed u) (s'.mutexes.pc u) mutex := by
  obtain ⟨h₁, h₂, h₃, h₄⟩ := hk
  rw [h₁, h₂, h₃, h₄]
  exact h

theorem Stage.Holds.congr {solo : Bool} {freed : Nat} {stage : Stage Mid}
    {mem mem' : Mem (Obj Mid) Tid D} (hsame : Same mem mem')
    (h : stage.Holds t solo freed q mem.mutex) : stage.Holds t solo freed q mem'.mutex := by
  refine h.mono (fun m ho => ?_) fun m ho => ?_
  · rwa [Mutex.OwnedOnce, hsame.owner m, hsame.count m]
  · rwa [hsame.owner m]

theorem Waits.stay {mem : Mem (Obj Mid) Tid D} (h : Waits s) (hsame : Same s.mutexes.mem mem)
    (hmutexes : s'.mutexes = { s.mutexes with mem := mem }) (hkeeps : ∀ u, Keeps s s' u) :
    Waits s' := by
  refine ⟨by rw [hmutexes]; exact h.inv.env hsame, fun m => ?_, fun u => ?_⟩
  · rw [hmutexes, hsame.intern m]
    exact h.unlatched m
  · rw [show s'.mutexes.mem = mem by rw [hmutexes]]
    exact (Stage.Holds.keep (hkeeps u) (h.holds u)).congr hsame

theorem Keeps.trans {s'' : State Mid Tid D} (h : Keeps s s' u) (h' : Keeps s' s'' u) :
    Keeps s s'' u :=
  ⟨h'.1.trans h.1, h'.2.1.trans h.2.1, h'.2.2.1.trans h.2.2.1, h'.2.2.2.trans h.2.2.2⟩

theorem Initial.waits (h : Initial s) : Waits s := by
  refine ⟨h.mutexes.inv, fun m => ?_, fun t => ?_⟩
  · obtain ⟨type, hm⟩ := h.mutex m
    rw [hm]
    rfl
  · rw [h.pc t]
    show (s.mutexes.pc t).outside = true
    rw [h.mutexes.pc t]
    rfl

/-! ## The steps -/

variable [DecidableEq Tid]

/-- A step of `t`, by which it gets to `pc`, and to `q` in the mutex code. -/
theorem Waits.turn {mem : Mem (Obj Mid) Tid D} (h : Waits s) (hsame : Same s.mutexes.mem mem)
    (hmutexes : s'.mutexes = { s.mutexes.goto t q with mem := mem })
    (hq : ∀ m, q = .releaseLock m → (s.mutexes.mem.mutex m).owner = some t)
    (hpc : s'.pc = update s.pc t pc)
    (hothers : ∀ u, u ≠ t → s'.solo u = s.solo u ∧ s'.freed u = s.freed u)
    (ht : pc.stage.Holds t (s'.solo t) (s'.freed t) q s.mutexes.mem.mutex) : Waits s' := by
  refine ⟨by rw [hmutexes]; exact h.inv.goto hsame hq, fun m => ?_, fun u => ?_⟩
  · rw [hmutexes]
    exact (hsame.intern m).trans (h.unlatched m)
  · rw [hmutexes, hpc]
    refine Stage.Holds.congr hsame ?_
    by_cases hut : u = t
    · subst hut
      simpa [Sys.goto] using ht
    · obtain ⟨hsolo, hfreed⟩ := hothers u hut
      simpa [Sys.goto, hut, hsolo, hfreed] using h.holds u

theorem Waits.quiet (h : Waits s) (hmutexes : s'.mutexes = s.mutexes)
    (hpc : s'.pc = update s.pc t pc)
    (hothers : ∀ u, u ≠ t → s'.solo u = s.solo u ∧ s'.freed u = s.freed u)
    (ht : pc.stage.Holds t (s'.solo t) (s'.freed t) (s.mutexes.pc t) s.mutexes.mem.mutex) :
    Waits s' := by
  refine h.turn (Same.refl _) ?_ (h.inv.releasing t) hpc hothers ht
  rw [hmutexes]
  simp [Sys.goto]

theorem keeps_goto (h : pc.stage = (s.pc t).stage) (u : Tid) : Keeps s (s.goto t pc) u := by
  refine ⟨?_, rfl, rfl, rfl⟩
  by_cases hut : u = t
  · subst hut
    simpa [State.goto] using h
  · simp [State.goto, hut]

theorem keeps_wakeUp (s : State Mid Tid D) (t : Tid) (occurred extra : Bool) (u : Tid) :
    Keeps s (s.wakeUp t occurred extra) u := by
  unfold State.wakeUp
  split
  next m e hpc => exact keeps_goto (by rw [hpc]; rfl) u
  · exact ⟨rfl, rfl, rfl, rfl⟩

theorem wakeUp_mutexes (s : State Mid Tid D) (t : Tid) (occurred extra : Bool) :
    (s.wakeUp t occurred extra).mutexes = s.mutexes := by
  unfold State.wakeUp
  split <;> rfl

theorem Waits.goto (h : Waits s) (hpc : pc.stage = (s.pc t).stage) : Waits (s.goto t pc) :=
  h.stay (Same.refl _) rfl (keeps_goto hpc)

theorem readyWaiter_keeps (broadcast : Bool) (u : Tid) : Keeps s (s.readyWaiter broadcast t) u := by
  unfold State.readyWaiter
  split
  · exact ⟨rfl, rfl, rfl, rfl⟩
  · exact (show Keeps s (State.setMem _ _) u from ⟨rfl, rfl, rfl, rfl⟩).trans
      (keeps_wakeUp _ t false false u)

section

variable (h : Waits s)
include h

theorem Waits.readyWaiter (broadcast : Bool) : Waits (s.readyWaiter broadcast t) := by
  have hkeeps : ∀ u, Keeps s (s.readyWaiter broadcast t) u := readyWaiter_keeps broadcast
  unfold State.readyWaiter at hkeeps ⊢
  split
  · exact h
  next hparked =>
    rw [if_neg hparked] at hkeeps
    refine h.stay (same_readyWaiter _ t) ?_ hkeeps
    rw [wakeUp_mutexes]
    rfl

theorem Waits.call {c : Call Mid} (hout : (s.mutexes.pc t).outside = true) :
    Waits (s.call t c) := by
  cases c with
  | acquire | release =>
    exact h.turn (Same.refl _) rfl (by simp) rfl (fun _ _ => ⟨rfl, rfl⟩) trivial
  | await | notify => exact h.quiet rfl rfl (fun _ _ => ⟨rfl, rfl⟩) hout

variable [DecidableEq D]

theorem Waits.visit {broadcast bounded : Bool} {tmp : Tid}
    (hpc : (s.pc t).stage = .outside) : Waits (s.visit t broadcast bounded tmp) := by
  simp only [State.visit]
  cases hb : (s.mutexes.mem.thread tmp).boundnative with
  | some ds =>
    cases broadcast with
    | true | false => exact h.stay (same_pipe _ _) rfl (keeps_goto hpc.symm)
  | none =>
    refine (h.readyWaiter broadcast).goto ?_
    rw [(readyWaiter_keeps broadcast t).1, hpc]
    cases broadcast <;> rfl

theorem Waits.of_move (hmove : Move s t s') : Waits s' := by
  have hholds := h.holds t
  cases hmove with
  | refuse hpc | again hpc | fail hpc | start hpc | nobody hpc | walked hpc | drained hpc =>
    exact h.goto (by rw [hpc]; rfl)
  | accept hpc hown =>
    rw [hpc] at hholds
    refine h.quiet rfl rfl (fun u hu => ⟨update_of_ne hu .., update_of_ne hu ..⟩) ?_
    simp only [update_self]
    exact ⟨hholds, fun hs => ⟨rfl, hown, of_decide_eq_true hs⟩⟩
  | enter hpc _ hsame =>
    rw [hpc] at hholds
    refine h.turn hsame rfl (by simp) rfl (fun _ _ => ⟨rfl, rfl⟩) fun hs => ?_
    exact ⟨(hholds.2 hs).1, Or.inl ⟨rfl, (hholds.2 hs).2⟩⟩
  | @block m extra bounded rc hpc hq =>
    refine h.quiet rfl rfl (fun u hu => ⟨rfl, update_of_ne hu ..⟩) ?_
    have hstage : (if bounded then .select m else .waiting m extra : Pc Mid Tid D).stage =
        .blocked m := by
      cases bounded <;> rfl
    simp only [update_self, hstage]
    rw [hpc, hq] at hholds
    refine ⟨by rw [hq]; rfl, fun hs => ?_⟩
    obtain ⟨hf, ⟨hr, -⟩ | ⟨hr, ho⟩⟩ := hholds hs
    · cases hr
    · cases hr
      exact ⟨by simp [hf], ho⟩
  | @leave m _ _ hpc _ hsame =>
    have hstage : (s.pc t).stage = .blocked m := by
      rcases hpc with hpc | ⟨_, _, hpc⟩ <;> rw [hpc] <;> rfl
    rw [hstage] at hholds
    refine h.turn hsame rfl (by simp) rfl (fun _ _ => ⟨rfl, rfl⟩) fun hs => ?_
    exact ⟨(hholds.2 hs).1, Or.inl ⟨rfl, rfl, (hholds.2 hs).2⟩⟩
  | reacquire hpc hq =>
    rw [hpc, hq] at hholds
    refine h.quiet rfl rfl (fun _ _ => ⟨rfl, rfl⟩) ⟨by rw [hq]; rfl, fun hs => ?_⟩
    obtain ⟨hf, ⟨hr, -⟩ | ⟨-, ho⟩⟩ := hholds hs
    · cases hr
    · exact ⟨hf, ho⟩
  | raise hpc _ _ hnext =>
    refine h.stay (Same.refl _) rfl (keeps_goto ?_)
    rw [hpc]
    rcases hnext with ⟨_, rfl⟩ | rfl <;> rfl
  | visit hpc => exact h.visit (by rw [hpc]; rfl)
  | count hpc => exact h.stay (Same.refl _) rfl (keeps_goto (by rw [hpc]; rfl))
  | nudge hpc hsame hnext =>
    refine h.stay hsame rfl (keeps_goto (s := s) ?_)
    rw [hpc]
    rcases hnext with rfl | ⟨_, rfl⟩ <;> rfl

variable [DecidableEq Mid]

theorem Waits.mutex {occurred : Bool} {ms : Sys (Obj Mid) Tid D}
    (hgo : s.mutexes.go t occurred = some ms) : Waits { s with mutexes := ms } := by
  have hp := piece_of_go hgo
  have hbusy : (s.mutexes.pc t).outside = false := by
    cases hq : s.mutexes.pc t <;> simp_all [Sys.go, Sync.Pc.outside]
  refine ⟨hp.inv h.inv, hp.unlatched h.unlatched, fun u => ?_⟩
  have hu := h.holds u
  by_cases hut : u = t
  · subst hut
    show (s.pc u).stage.Holds u (s.solo u) (s.freed u) (ms.pc u) ms.mem.mutex
    cases hstage : (s.pc u).stage with
    | calling => trivial
    | outside =>
      rw [hstage] at hu
      have hout : (s.mutexes.pc u).outside = true := hu
      rw [hbusy] at hout
      cases hout
    | owning m | blocked m | done m =>
      rw [hstage] at hu
      have hout := hu.1
      rw [hbusy] at hout
      cases hout
    | releasing m =>
      rw [hstage] at hu
      intro hs
      obtain ⟨hf, ⟨hq, ho⟩ | ⟨hq, -⟩⟩ := hu hs
      · exact ⟨hf, go_releasing_owner h.inv hq ho hgo⟩
      · simp [hq, Sync.Pc.outside] at hbusy
    | acquiring m =>
      rw [hstage] at hu
      intro hs
      obtain ⟨hf, ⟨hq, hmay, ho⟩ | ⟨hq, -⟩⟩ := hu hs
      · exact ⟨hf, hp.acquiring h.unlatched hq hmay ho⟩
      · simp [hq, Sync.Pc.outside] at hbusy
  · have hpc : ms.pc u = s.mutexes.pc u := by
      cases hp <;> simp [Sys.goto, hut]
    show (s.pc u).stage.Holds u (s.solo u) (s.freed u) (ms.pc u) ms.mem.mutex
    rw [hpc]
    exact hu.mono (fun m ho => hp.ownedOnce h.inv (Ne.symm hut) ho)
      (fun m ho => hp.not_owner (Ne.symm hut) ho)

theorem Waits.step (hs : s.step a = some s') : Waits s' := by
  cases change_of_step hs with
  | call _ hout => exact h.call hout
  | mutex hgo => exact h.mutex hgo
  | go hmove => exact h.of_move hmove
  | woken _ _ hsame =>
    refine h.stay hsame (wakeUp_mutexes ..) (fun u => ?_)
    exact Keeps.trans ⟨rfl, rfl, rfl, rfl⟩ (keeps_wakeUp _ _ _ _ u)
  | examined => exact h.stay (Same.refl _) rfl fun u => ⟨rfl, rfl, rfl, rfl⟩
  | drained _ hpc => exact h.goto (by rw [hpc]; rfl)
  | env _ hsame => exact h.stay hsame rfl fun u => ⟨rfl, rfl, rfl, rfl⟩

end

/-! ## The contract -/

variable [DecidableEq Mid] [DecidableEq D]

/-- A thread that is blocked in `pth_cond_await` with the mutex `m`. -/
def Pc.blockedOn : Pc Mid Tid D → Option Mid
  | .waiting m _ | .ready m _ _ | .select m => some m
  | _ => none

/-- What `pth_cond_await` promises its caller `t` about the mutex `m`. -/
structure AwaitContract (s : State Mid Tid D) (t : Tid) (m : Mid) : Prop where
  /-- a caller that had acquired the mutex once has released it once when it blocks -/
  blocked  : (s.pc t).blockedOn = some m → s.solo t = true →
    s.freed t = 1 ∧ (s.mutexes.mem.mutex (.mutex m)).owner ≠ some t
  /-- and has it back when the call has returned `TRUE` -/
  returned : s.pc t = .awaited m true → s.solo t = true →
    s.freed t = 1 ∧ (s.mutexes.mem.mutex (.mutex m)).owner = some t ∧
      (s.mutexes.mem.mutex (.mutex m)).count = 1
  /-- the call of a thread that does not own the mutex returns `FALSE` and does nothing -/
  refused  : ∀ extra bounded isBound, s.pc t = .await m extra bounded →
    (s.mutexes.mem.mutex (.mutex m)).owner ≠ some t →
    s.step (.go t isBound) = some (s.goto t (.awaited m false))

/-- **A condition wait and its mutex**, in every interleaving of any number of threads. -/
theorem await_contract (s : State Mid Tid D) (hs : Reachable State.step Always Initial s)
    (t : Tid) (m : Mid) : AwaitContract s t m := by
  have hI : Waits s := hs.invariant (fun s h => h.waits) fun s a s' hI _ h => hI.step h
  have hholds := hI.holds t
  refine ⟨fun hpc hsolo => ?_, fun hpc hsolo => ?_, fun extra bounded isBound hpc hne => ?_⟩
  · have hstage : (s.pc t).stage = .blocked m := by
      cases hq : s.pc t <;> simp_all [Pc.blockedOn, Pc.stage]
    rw [hstage] at hholds
    exact hholds.2 hsolo
  · rw [hpc] at hholds
    exact hholds.2 hsolo
  · simp only [State.step, State.go, hpc]
    rw [if_pos (Or.inr hne)]

/-- Thread 0 awaits; thread 1 takes the mutex, signals, and still has it when thread 0 is
back from its wait; then thread 1 releases it. -/
def handover : List (Action Unit Nat Unit) :=
  [.call 0 (.acquire () false false false), .mutex 0 true, .call 0 (.await () false false),
    .go 0 false, .go 0 false, .mutex 0 true, .mutex 0 true, .mutex 0 true, .go 0 false,
    .call 1 (.acquire () false false false), .mutex 1 true, .call 1 (.notify false false),
    .go 1 false, .go 1 false, .go 1 false, .go 1 false, .examine 0 false, .go 0 false,
    .mutex 0 true, .call 1 (.release ()), .mutex 1 true, .mutex 1 true, .mutex 1 true,
    .mutex 0 true, .go 0 false]

theorem await_contract_handover :
    ∃ s : State Unit Nat Unit, run State.step (initState .recursiveNp) handover = some s ∧
      s.pc 0 = .awaited () true ∧ s.solo 0 = true ∧ s.freed 0 = 1 ∧
      (s.mutexes.mem.mutex (.mutex ())).owner = some 0 := by
  refine exists_and_of_any₂ (fun _ => id) (by decide +kernel) fun s hs hpc hsolo => ?_
  have hcontract := await_contract s (reachable_of_run (.init (initState_initial _)) hs) 0 ()
  obtain ⟨hfreed, hown, -⟩ := hcontract.returned hpc hsolo
  exact ⟨hfreed, hown⟩

end Condvar

end Ngpt.Sync
