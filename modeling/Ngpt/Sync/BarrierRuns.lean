import Mathlib.Data.Fintype.Card
import Mathlib.Tactic.FinCases
import Ngpt.Sync.BarrierBooks

/-!
# ngpt — the cycles of a barrier

With the return values that the manual gives, a barrier keeps its promises as long as no
thread is overtaken: `br_cycle` is a flag, so a thread that is still in the loop of one
cycle when the next one is completed takes the flag for that of its own cycle.

Result: `reach_contract`.
-/

namespace Ngpt.Sync.Barrier

open Function Transition

variable {Tid D : Type} {s s' : State Tid D} {t u : Tid} {a : Action Tid D} {n : Nat}
  {bounded cycle : Bool} {d : Condvar.Action Unit Tid D} {e : Condvar.Call Unit}

/-! ## Places -/

/-- Where a thread is in the code below `pth_barrier_reach`, and whether it has the
mutex. -/
def Seat (s : State Tid D) (t : Tid) : Prop :=
  match s.pc t with
  | .idle | .returned _ => (s.sync.pc t).outside = true ∧
      (s.sync.mutexes.pc t).outside = true ∧ s.mutex.owner ≠ some t
  | .acquire _ => s.sync.pc t = .mutex ∧
      (((s.sync.mutexes.pc t).acquires = some (.mutex ()) ∧
          (s.sync.mutexes.pc t).mayFail = false ∧ s.mutex.owner ≠ some t) ∨
        (s.sync.mutexes.pc t = .returned .ok ∧ s.mutex.OwnedOnce t))
  | .notify => (s.sync.pc t).broadcasts = true ∧ (s.sync.mutexes.pc t).outside = true ∧
      s.mutex.OwnedOnce t
  | .loop _ _ rv => (s.sync.pc t).outside = true ∧ (s.sync.mutexes.pc t).outside = true ∧
      s.mutex.OwnedOnce t ∧ rv ≠ taillight
  | .await bounded _ =>
      (s.sync.pc t = .await () false bounded ∧ (s.sync.mutexes.pc t).outside = true ∧
        s.mutex.OwnedOnce t) ∨
      ((s.sync.pc t).awaiting = some () ∧ s.sync.solo t = true)
  | .release _ => s.sync.pc t = .mutex ∧
      (((s.sync.mutexes.pc t).releases = some (.mutex ()) ∧ s.mutex.OwnedOnce t) ∨
        (s.sync.mutexes.pc t = .returned .ok ∧ s.mutex.owner ≠ some t))

theorem Seat.acquired {rc : Errno} (h : Seat s t) (hpc : s.pc t = .acquire bounded)
    (hq : s.sync.mutexes.pc t = .returned rc) :
    rc = .ok ∧ (s.sync.pc t).outside = true ∧ s.mutex.OwnedOnce t := by
  simp only [Seat, hpc, hq] at h
  obtain ⟨hmutex, ⟨hw, -, -⟩ | ⟨hr, ho⟩⟩ := h
  · simp [Sync.Pc.acquires, Sync.Pc.wants] at hw
  · exact ⟨by simpa using hr, hmutex ▸ rfl, ho⟩

theorem Seat.free (h : Seat s t) (hpc : (s.pc t).outside = true) :
    (s.sync.pc t).outside = true ∧ (s.sync.mutexes.pc t).outside = true ∧
      s.mutex.owner ≠ some t := by
  unfold Seat at h
  cases hq : s.pc t <;> simp_all [Pc.outside]

theorem Seat.not_signals (h : Seat s t) : (s.sync.pc t).signals = false := by
  unfold Seat at h
  cases hq : s.sync.pc t with
  | signal broadcast bounded =>
    cases hpc : s.pc t <;> simp_all [Condvar.Pc.outside, Condvar.Pc.awaiting,
      Condvar.Pc.broadcasts, Condvar.Pc.signals]
  | _ => rfl

theorem Seat.await_of_counted (h : Seat s t) (hcounted : (s.sync.pc t).counted = true) :
    ∃ bounded cycle, s.pc t = .await bounded cycle := by
  unfold Seat at h
  cases hpc : s.pc t with
  | await bounded cycle => exact ⟨bounded, cycle, rfl⟩
  | _ =>
    cases hq : s.sync.pc t <;>
      simp_all [Condvar.Pc.counted, Condvar.Pc.outside, Condvar.Pc.broadcasts]

theorem Initial.seat (h : Initial n s) (t : Tid) : Seat s t := by
  unfold Seat
  rw [h.pc t]
  refine ⟨h.sync.pc t ▸ rfl, h.sync.mutexes.pc t ▸ rfl, ?_⟩
  rw [State.mutex, h.mutex]
  simp [pthMutexInit]

theorem Initial.barrier_eq (h : Initial n s) :
    1 ≤ n ∧ s.barrier = { initialized := true, threshold := n, count := n, cycle := false } := by
  have hb := h.barrier
  unfold pthBarrierInit at hb
  split at hb
  case isTrue => cases hb
  case isFalse hn => exact ⟨by omega, (Option.some.inj hb).symm⟩

/-! ## The invariant -/

/-- What the code below `pth_barrier_reach` guarantees. -/
structure Calm (c : Condvar.State Unit Tid D) : Prop where
  waits       : Condvar.Waits c
  told        : Condvar.Told c.view
  initialized : c.cond.initialized = true

structure Cycles (n : Nat) (s : State Tid D) : Prop where
  calm     : Calm s.sync
  ready    : s.barrier.initialized = true ∧ s.barrier.threshold = n ∧ 1 ≤ n
  seat     : ∀ t, Seat s t
  /-- whoever has the mutex in its loop is in the loop of the cycle that is not complete -/
  fresh    : ∀ t bounded cycle, s.pc t = .await bounded cycle →
    (s.sync.pc t).atEntry = true → cycle = s.barrier.cycle
  /-- the waiters of a complete cycle have been found by a broadcast, or will be -/
  late     : ∀ t bounded cycle, s.pc t = .await bounded cycle → cycle ≠ s.barrier.cycle →
    (s.sync.pc t).counted = true →
    t ∈ s.sync.told ∨ ∃ v, s.pc v = .notify ∧ (s.sync.pc v).raising = true
  ledger   : Ledger n s

theorem Calm.inRange [Fintype Tid] {c : Condvar.State Unit Tid D} (h : Calm c)
    (hcard : Fintype.card Tid < Unsigned.range) : Condvar.InRange c d := by
  cases d with
  | go t isBound =>
    intro hentering
    have hout : t ∉ c.view.inside := by
      rw [← h.told.counted.place t]
      cases hpc : c.pc t <;>
        simp_all [Condvar.Pc.entering, Condvar.State.view, Condvar.Pc.counted]
    have hlen := (List.nodup_cons.mpr ⟨hout, h.told.counted.nodup⟩).length_le_card
    rw [List.length_cons, ← h.told.counted.waiters] at hlen
    exact Nat.lt_of_le_of_lt hlen hcard
  | _ => trivial

theorem Cycles.notMixed [Fintype Tid] (h : Cycles n s)
    (hcard : Fintype.card Tid < Unsigned.range) : Condvar.NotMixed s.sync d := by
  refine ⟨h.calm.inRange hcard, ?_⟩
  cases d with
  | go t isBound =>
    intro hsignals
    rw [(h.seat t).not_signals] at hsignals
    cases hsignals
  | _ => trivial

theorem not_raising {pc : Condvar.Pc Unit Tid D} (h : pc.outside = true) : pc.raising = false := by
  cases pc <;> simp_all [Condvar.Pc.outside, Condvar.Pc.raising]

theorem Initial.cycles (h : Initial n s) : Cycles n s := by
  obtain ⟨hn, hbarrier⟩ := h.barrier_eq
  exact ⟨⟨h.sync.waits, h.sync.toldInv, h.sync.cond ▸ rfl⟩, hbarrier ▸ ⟨rfl, rfl, hn⟩, h.seat,
    by simp [h.pc], by simp [h.pc], h.ledger hn (by rw [hbarrier])⟩

theorem Seat.frame (h : Seat s t) (hpc : s'.pc t = s.pc t)
    (hf : Condvar.Frame s.sync s'.sync t) : Seat s' t := by
  have howned : s.mutex.OwnedOnce t → s'.mutex.OwnedOnce t := hf.owned _
  have hother : s.mutex.owner ≠ some t → s'.mutex.owner ≠ some t := hf.other _
  unfold Seat at h ⊢
  rw [hpc, hf.call, hf.solo]
  cases hq : s.pc t <;> simp only [hq] at h ⊢
  case idle | returned =>
    rw [hf.pc.outside h.1]
    exact ⟨h.1, h.2.1, hother h.2.2⟩
  case acquire =>
    rw [hf.pc.outside (h.1 ▸ rfl)]
    obtain ⟨h₁, ⟨hw, hm, ho⟩ | ⟨hr, ho⟩⟩ := h
    · exact ⟨h₁, Or.inl ⟨hw, hm, hother ho⟩⟩
    · exact ⟨h₁, Or.inr ⟨hr, howned ho⟩⟩
  case notify => exact ⟨hf.pc.broadcasts h.1, h.2.1, howned h.2.2⟩
  case loop =>
    rw [hf.pc.outside h.1]
    exact ⟨h.1, h.2.1, howned h.2.2.1, h.2.2.2⟩
  case await =>
    rcases h with ⟨h₁, h₂, ho⟩ | ⟨h₁, h₂⟩
    · refine Or.inl ⟨?_, h₂, howned ho⟩
      cases hf.pc with
      | same hpc => exact hpc.trans h₁
      | woken _ _ _ _ hpc | drained hpc => simp [h₁] at hpc
    · exact Or.inr ⟨hf.pc.awaiting h₁, h₂⟩
  case release =>
    rw [hf.pc.outside (h.1 ▸ rfl)]
    obtain ⟨h₁, ⟨hr, ho⟩ | ⟨hr, ho⟩⟩ := h
    · exact ⟨h₁, Or.inl ⟨hr, howned ho⟩⟩
    · exact ⟨h₁, Or.inr ⟨hr, hother ho⟩⟩

theorem Cycles.owned_of_atEntry (h : Cycles n s)
    (hpc : s.pc t = .await bounded cycle) (hentry : (s.sync.pc t).atEntry = true) :
    s.mutex.OwnedOnce t := by
  have hseat := h.seat t
  simp only [Seat, hpc] at hseat
  obtain ⟨-, -, ho⟩ | ⟨hawaiting, hsolo⟩ := hseat
  · exact ho
  · cases hq : s.sync.pc t with
    | enter m extra b => exact h.calm.waits.owned_of_enter hq hsolo
    | await => simp [hq, Condvar.Pc.awaiting] at hawaiting
    | _ => simp [hq, Condvar.Pc.atEntry] at hentry

theorem Cycles.not_notify (h : Cycles n s) (ho : s.mutex.OwnedOnce t) (hpc : s.pc t ≠ .notify)
    (u : Tid) : s.pc u ≠ .notify := by
  intro hu
  have hseat := h.seat u
  simp only [Seat, hu] at hseat
  have hown := hseat.2.2.1
  rw [ho.1] at hown
  cases hown
  exact hpc hu

variable [DecidableEq Tid]

theorem Seat.reach (books : Books Tid) (ho : s.mutex.owner ≠ some t) :
    Seat ({ s with books := books }.call t (.acquire () false false bounded)
      (.acquire bounded)) t := by
  unfold Seat
  simp only [State.call, State.goto, update_self]
  refine ⟨update_self .., Or.inl ⟨?_, ?_, ho⟩⟩
  · simp [Condvar.State.call, Condvar.State.callMutex, Sys.goto, Sync.Pc.acquires, Sync.Pc.wants]
  · simp [Condvar.State.call, Condvar.State.callMutex, Sys.goto, Sync.Pc.mayFail]

theorem Cycles.move {pc : Pc} (h : Cycles n s) (hcalm : Calm s'.sync)
    (hpc : s'.pc = update s.pc t pc) (hout : (s.sync.pc t).outside = true)
    (hothers : ∀ u, u ≠ t → s'.sync.pc u = s.sync.pc u) (htold : s'.sync.told = s.sync.told)
    (hnot : (s'.sync.pc t).counted = false)
    (hfresh : ∀ bounded cycle, pc = .await bounded cycle → cycle = s.barrier.cycle)
    (hready : s'.barrier.initialized = s.barrier.initialized ∧
      s'.barrier.threshold = s.barrier.threshold ∧ s'.barrier.cycle = s.barrier.cycle)
    (hseat : ∀ u, Seat s' u) (hledger : Ledger n s') : Cycles n s' := by
  obtain ⟨hinit, hthreshold, hcycle⟩ := hready
  have hpc_ne : ∀ {u : Tid} {q : Pc}, u ≠ t → s'.pc u = q → s.pc u = q := by
    intro u q hut hu
    rwa [hpc, update_of_ne hut] at hu
  refine ⟨hcalm, by rw [hinit, hthreshold]; exact h.ready, hseat,
    fun u bounded cycle hu hentry => ?_,
    fun u bounded cycle hu hne hcounted => ?_, hledger⟩
  · rw [hcycle]
    by_cases hut : u = t
    · rw [hpc, hut, update_self] at hu
      exact hfresh bounded cycle hu
    · rw [hothers u hut] at hentry
      exact h.fresh u bounded cycle (hpc_ne hut hu) hentry
  · by_cases hut : u = t
    · rw [hut, hnot] at hcounted
      cases hcounted
    · rw [hothers u hut] at hcounted
      rw [hcycle] at hne
      rw [htold]
      rcases h.late u bounded cycle (hpc_ne hut hu) hne hcounted with htold | ⟨v, hv, hraising⟩
      · exact Or.inl htold
      · have hvt : v ≠ t := by
          rintro rfl
          rw [not_raising hout] at hraising
          cases hraising
        refine Or.inr ⟨v, ?_, by rw [hothers v hvt]; exact hraising⟩
        rw [hpc, update_of_ne hvt]
        exact hv

theorem Cycles.quiet {pc : Pc} (h : Cycles n s) (hsync : s'.sync = s.sync)
    (hpc : s'.pc = update s.pc t pc) (hout : (s.sync.pc t).outside = true)
    (hpc' : ∀ bounded cycle, pc ≠ .await bounded cycle)
    (hready : s'.barrier.initialized = s.barrier.initialized ∧
      s'.barrier.threshold = s.barrier.threshold ∧ s'.barrier.cycle = s.barrier.cycle)
    (hseat : Seat s' t) (hledger : Ledger n s') : Cycles n s' := by
  refine h.move (by rw [hsync]; exact h.calm) hpc hout (fun u _ => by rw [hsync]) (by rw [hsync]) ?_
    (fun bounded cycle hq => absurd hq (hpc' bounded cycle)) hready (fun u => ?_) hledger
  · rw [hsync]
    cases hq : s.sync.pc t <;> simp_all [Condvar.Pc.outside, Condvar.Pc.counted]
  · by_cases hut : u = t
    · rw [hut]
      exact hseat
    · refine (h.seat u).frame (by rw [hpc, update_of_ne hut]) ?_
      rw [hsync]
      exact .of_same (Same.refl _) (.same rfl) rfl rfl

theorem Cycles.arrive {rv : Int} (h : Cycles n s)
    (hpc : s.pc t = .acquire bounded) (hq : s.sync.mutexes.pc t = .returned .ok)
    (hmore : s.barrier.count - 1 ≠ 0) (hrv : rv ≠ taillight) :
    Cycles n ({ s with
      barrier := { s.barrier with count := s.barrier.count - 1 }
      books := s.books.arrive t }.goto t (.loop bounded s.barrier.cycle rv)) := by
  obtain ⟨-, hout, ho⟩ := (h.seat t).acquired hpc hq
  refine h.quiet rfl rfl hout (by simp) ⟨rfl, rfl, rfl⟩ ?_
    (h.ledger.arrive hpc hmore (h.not_notify ho (by simp [hpc])))
  unfold Seat
  simp only [State.goto, update_self]
  exact ⟨hout, by rw [hq]; rfl, ho, hrv⟩

theorem Cycles.awaited {rv : Bool} (h : Cycles n s)
    (hpc : s.pc t = .await bounded cycle) (hq : s.sync.pc t = .awaited () rv) :
    rv = true ∧ Cycles n (s.goto t (.loop bounded cycle cTrue)) := by
  have hseat := h.seat t
  simp only [Seat, hpc, hq] at hseat
  obtain ⟨hfalse, -, -⟩ | ⟨hrv, hsolo⟩ := hseat
  · cases hfalse
  have hrv : rv = true := by cases rv <;> first | rfl | cases hrv
  obtain ⟨hout, ho⟩ := h.calm.waits.owned_of_awaited (hrv ▸ hq) hsolo
  have hsync : (s.sync.pc t).outside = true := by
    rw [hq]
    rfl
  have hentry := h.ledger.entry t
  rw [hpc] at hentry
  refine ⟨hrv, h.quiet rfl rfl hsync (by simp) ⟨rfl, rfl, rfl⟩ ?_
    (h.ledger.move rfl (by simp) hentry)⟩
  unfold Seat
  simp only [State.goto, update_self]
  exact ⟨hsync, hout, ho, by decide⟩

theorem Cycles.ret {rv : Int} {rc : Errno} (h : Cycles n s) (hpc : s.pc t = .release rv)
    (hq : s.sync.mutexes.pc t = .returned rc) : Cycles n (s.ret t rv) := by
  have hseat := h.seat t
  simp only [Seat, hpc] at hseat
  obtain ⟨hmutex, ⟨hrel, -⟩ | ⟨-, ho⟩⟩ := hseat
  · simp [hq, Sync.Pc.releases] at hrel
  have hout : (s.sync.pc t).outside = true := by
    rw [hmutex]
    rfl
  refine h.quiet rfl rfl hout (by simp) ⟨rfl, rfl, rfl⟩ ?_ (h.ledger.ret hpc ho)
  unfold Seat
  simp only [State.ret, State.goto, update_self]
  exact ⟨hout, by rw [hq]; rfl, ho⟩

variable [DecidableEq D]

/-! ## Steps of a thread and of the others -/

theorem Seat.go {sync : Condvar.State Unit Tid D} (h : Seat s t)
    (hinit : s.sync.cond.initialized = true) (hmove : Condvar.Move s.sync t sync) :
    Seat { s with sync := sync } t := by
  have howned : s.mutex.OwnedOnce t → (sync.mutexes.mem.mutex (.mutex ())).OwnedOnce t := by
    intro ho
    have hsame := (Condvar.aside_of_move hmove).same
    exact ⟨(hsame.owner _).trans ho.1, (hsame.count _).trans ho.2⟩
  have hbusy := hmove.inside
  unfold Seat at h ⊢
  cases hq : s.pc t <;> simp only [hq] at h ⊢
  case idle | returned | loop | acquire | release =>
    rw [h.1] at hbusy
    cases hbusy
  case notify =>
    obtain ⟨h₁, h₂⟩ := hmove.broadcasts h.1 hinit
    exact ⟨h₁, h₂ ▸ h.2.1, howned h.2.2⟩
  case await =>
    rcases h with ⟨h₁, h₂, ho⟩ | ⟨h₁, h₂⟩
    · exact Or.inr (hmove.await h₁ hinit ho)
    · obtain ⟨h₃, h₄⟩ := hmove.awaiting h₁
      exact Or.inr ⟨h₃, h₄.trans h₂⟩

theorem Seat.mutex {occurred : Bool} {ms : Sys (Condvar.Obj Unit) Tid D} (h : Seat s t)
    (hw : Condvar.Waits s.sync) (hgo : s.sync.mutexes.go t occurred = some ms) :
    Seat { s with sync := { s.sync with mutexes := ms } } t := by
  have hp := piece_of_go hgo
  have hbusy : (s.sync.mutexes.pc t).outside = false := by
    cases hq : s.sync.mutexes.pc t <;> simp_all [Sys.go, Sync.Pc.outside]
  unfold Seat at h ⊢
  cases hq : s.pc t <;> simp only [hq] at h ⊢
  case idle | returned | notify | loop => cases hbusy.symm.trans h.2.1
  case acquire =>
    obtain ⟨h₁, ⟨hacq, hm, ho⟩ | ⟨hr, -⟩⟩ := h
    · exact ⟨h₁, hp.acquiring hw.unlatched hacq hm ho⟩
    · simp [hr, Sync.Pc.outside] at hbusy
  case await =>
    rcases h with ⟨-, h₂, -⟩ | h
    · cases hbusy.symm.trans h₂
    · exact Or.inr h
  case release =>
    obtain ⟨h₁, ⟨hrel, ho⟩ | ⟨hr, -⟩⟩ := h
    · exact ⟨h₁, go_releasing_owner hw.inv hrel ho hgo⟩
    · simp [hr, Sync.Pc.outside] at hbusy

theorem Seat.sync {c : Condvar.Action Unit Tid D} {sync : Condvar.State Unit Tid D}
    (h : Seat s t) (hw : Condvar.Waits s.sync) (hinit : s.sync.cond.initialized = true)
    (hcall : ∀ u d, c ≠ .call u d) (hs : s.sync.step c = some sync) :
    Seat { s with sync := sync } t := by
  by_cases hactor : c.actor = some t
  · cases Condvar.change_of_step hs with
    | call => exact absurd rfl (hcall _ _)
    | mutex hgo =>
      cases hactor
      exact h.mutex hw hgo
    | go hmove =>
      cases hactor
      exact h.go hinit hmove
    | woken hnone | examined hnone | drained hnone | env hnone =>
      rw [hnone] at hactor
      cases hactor
  · exact h.frame rfl (Condvar.frame_of_step hw.inv hs hactor)

theorem step_call {c : Condvar.State Unit Tid D}
    (hout : (c.pc t).outside = true) (hq : (c.mutexes.pc t).outside = true) :
    c.step (.call t e) = some (c.call t e) := by
  simp only [Condvar.State.step]
  rw [if_pos ⟨hout, hq⟩]

/-! ## The first return -/

/-- With the return values of the code, before a call has returned. -/
structure Fresh (s : State Tid D) : Prop where
  waits       : Condvar.Waits s.sync
  initialized : s.barrier.initialized = true ∧ s.sync.cond.initialized = true
  seat        : ∀ t, Seat s t
  early       : ∀ t, s.pc t = .idle ∨ ∃ bounded, s.pc t = .acquire bounded
  returns     : s.books.returns = []

theorem Fresh.step (h : Fresh s) (hs : s.step Errno.code a = some s') :
    Fresh s' ∨ ∃ r ∈ s'.books.returns, r.rv = cFalse ∧ r.holds = true := by
  cases a with
  | reach t bounded =>
    simp only [State.step, h.initialized.1, if_true] at hs
    obtain ⟨hout, ⟨⟩⟩ := Option.ite_none_right_eq_some.mp hs
    obtain ⟨h₁, h₂, ho⟩ := (h.seat t).free hout
    have hcall := step_call (e := .acquire () false false bounded) h₁ h₂
    refine Or.inl ⟨h.waits.step hcall, h.initialized, fun u => ?_, fun u => ?_, h.returns⟩
    · by_cases hut : u = t
      · rw [hut]
        exact .reach _ ho
      · exact (h.seat u).frame (update_of_ne hut _ _)
          (Condvar.frame_of_step h.waits.inv hcall fun hactor => hut (Option.some.inj hactor).symm)
    · by_cases hut : u = t
      · exact Or.inr ⟨bounded, hut ▸ update_self ..⟩
      · simpa [State.call, State.goto, hut] using h.early u
  | sync d =>
    simp only [State.step] at hs
    split at hs
    case h_1 => cases hs
    case h_2 hcall =>
      obtain ⟨sync, hsync, rfl⟩ := Option.map_eq_some_iff.mp hs
      have hinit := (Condvar.effect_of_step hsync).initialized.trans h.initialized.2
      exact Or.inl ⟨h.waits.step hsync, ⟨h.initialized.1, hinit⟩,
        fun t => (h.seat t).sync h.waits h.initialized.2 hcall hsync, h.early, h.returns⟩
  | cont t =>
    rcases h.early t with hpc | ⟨bounded, hpc⟩ <;> simp only [State.step, State.cont, hpc] at hs
    · cases hs
    · split at hs
      case h_2 => cases hs
      case h_1 rc hq =>
        obtain ⟨rfl, -, ho⟩ := (h.seat t).acquired hpc hq
        cases hs
        refine Or.inr ⟨_, List.mem_cons_self, rfl, ?_⟩
        simpa using ho.1

theorem first_return_holds (hs : Reachable (State.step Errno.code) Always (Initial n) s)
    (hne : s.books.returns ≠ []) : ∃ r ∈ s.books.returns, r.rv = cFalse ∧ r.holds = true := by
  have hI : Fresh s ∨ ∃ r ∈ s.books.returns, r.rv = cFalse ∧ r.holds = true := by
    refine hs.invariant
      (I := fun s => Fresh s ∨ ∃ r ∈ s.books.returns, r.rv = cFalse ∧ r.holds = true)
      (fun s h => Or.inl ⟨h.sync.waits, ⟨h.barrier_eq.2 ▸ rfl, h.sync.cond ▸ rfl⟩, h.seat,
        fun t => Or.inl (h.pc t), h.books ▸ rfl⟩) ?_
    rintro s a s' (hfresh | ⟨r, hr, hbad⟩) - h
    · exact hfresh.step h
    · exact Or.inr ⟨r, returns_mono h hr, hbad⟩
  exact hI.resolve_left fun hfresh => hne hfresh.returns

/-! ## Calls -/

theorem Calm.step {c c' : Condvar.State Unit Tid D} (h : Calm c)
    (hok : Condvar.NotMixed c d) (hs : c.step d = some c') : Calm c' := by
  have he := Condvar.effect_of_step hs
  exact ⟨h.waits.step hs, h.told.effect hok he, he.initialized.trans h.initialized⟩

theorem Calm.call {c : Condvar.State Unit Tid D} (h : Calm c)
    (hout : (c.pc t).outside = true) (hq : (c.mutexes.pc t).outside = true) :
    Calm (c.call t e) ∧ ∀ u, u ≠ t → Condvar.Frame c (c.call t e) u := by
  have hs := step_call (e := e) hout hq
  have hok : Condvar.NotMixed c (.call t e) := ⟨trivial, trivial⟩
  refine ⟨h.step hok hs, fun u hu => ?_⟩
  exact Condvar.frame_of_step h.waits.inv hs fun hactor => hu (Option.some.inj hactor).symm

/-! ## Steps below -/

section

variable (h : Cycles n s)
include h

theorem Cycles.sync [Fintype Tid] {sync : Condvar.State Unit Tid D}
    (hcard : Fintype.card Tid < Unsigned.range)
    (hcall : ∀ u e, d ≠ .call u e) (hs : s.sync.step d = some sync) :
    Cycles n { s with sync := sync } := by
  have hI := h.calm.waits.inv
  have he := Condvar.effect_of_step hs
  refine ⟨h.calm.step (h.notMixed hcard) hs, h.ready,
    fun t => (h.seat t).sync h.calm.waits h.calm.initialized hcall hs,
    fun t bounded cycle hpc hentry =>
      h.fresh t bounded cycle hpc (Condvar.atEntry_of_step hI hcall hs hentry),
    fun t bounded cycle hpc hne hcounted => ?_,
    ⟨h.ledger.records, h.ledger.entry, h.ledger.full, h.ledger.count, h.ledger.pos,
      h.ledger.turning⟩⟩
  · rcases he.counted_before hcounted with hbefore | ⟨-, hentering⟩
    · have hin : t ∈ s.sync.view.inside := (h.calm.told.counted.place t).mp hbefore
      rcases h.late t bounded cycle hpc hne hbefore with htold | ⟨v, hv, hraising⟩
      · exact Or.inl (h.calm.told.kept he htold hcounted)
      · have hw := List.length_pos_of_mem hin
        rw [← h.calm.told.counted.waiters] at hw
        rcases Condvar.raising_step hI h.calm.initialized hw hraising hs with hv' | htold
        · exact Or.inr ⟨v, hv, hv'⟩
        · exact Or.inl (by rw [htold]; exact hin)
    · -- only a thread of the current cycle is counted in
      refine absurd (h.fresh t bounded cycle hpc ?_) hne
      cases hq : s.sync.pc t <;> simp_all [Condvar.Pc.entering, Condvar.Pc.atEntry]

theorem Cycles.call {pc : Pc} {books : Books Tid}
    (hout : (s.sync.pc t).outside = true) (hq : (s.sync.mutexes.pc t).outside = true)
    (hfresh : ∀ bounded cycle, pc = .await bounded cycle → cycle = s.barrier.cycle)
    (hseat : Seat ({ s with books := books }.call t e pc) t)
    (hledger : Ledger n ({ s with books := books }.call t e pc)) :
    Cycles n ({ s with books := books }.call t e pc) := by
  obtain ⟨hcalm, hframe⟩ := h.calm.call hout hq
  refine h.move hcalm rfl hout (fun u hu => ?_) ?_ ?_ hfresh ⟨rfl, rfl, rfl⟩
    (fun u => ?_) hledger
  · exact Condvar.call_pc_of_ne hu
  · exact Condvar.call_told
  · exact Condvar.call_not_counted
  · by_cases hut : u = t
    · rw [hut]
      exact hseat
    · exact (h.seat u).frame (update_of_ne hut _ _) (hframe u hut)

/-! ## The pieces of pth_barrier_reach -/

theorem Cycles.reach (hout : (s.pc t).outside = true) :
    Cycles n ({ s with books := s.books.call t }.call t (.acquire () false false bounded)
      (.acquire bounded)) := by
  obtain ⟨h₁, h₂, ho⟩ := (h.seat t).free hout
  exact h.call h₁ h₂ (by simp) (.reach _ ho) (h.ledger.call hout)

theorem Cycles.leave {rv : Int} (hout : (s.sync.pc t).outside = true)
    (hq : (s.sync.mutexes.pc t).outside = true) (ho : s.mutex.OwnedOnce t)
    (hledger : Ledger n (s.call t (.release ()) (.release rv))) :
    Cycles n (s.call t (.release ()) (.release rv)) := by
  refine h.call hout hq (by simp) ?_ hledger
  unfold Seat
  simp only [State.call, State.goto, update_self]
  refine ⟨update_self .., Or.inl ⟨?_, ho⟩⟩
  simp [Condvar.State.call, Condvar.State.callMutex, Sys.goto, Sync.Pc.releases]

theorem Cycles.notified {rv : Bool} (hpc : s.pc t = .notify)
    (hq : s.sync.pc t = .notified rv) :
    rv = true ∧ Cycles n (s.call t (.release ()) (.release taillight)) := by
  have hseat := h.seat t
  simp only [Seat, hpc, hq] at hseat
  obtain ⟨hrv, hout, ho⟩ := hseat
  have hrv : rv = true := by cases rv <;> first | rfl | cases hrv
  refine ⟨hrv, h.leave (by rw [hq]; rfl) hout ho (h.ledger.move rfl (by simp) ?_)⟩
  have hentry := h.ledger.entry t
  rw [hpc] at hentry
  obtain ⟨c, hopen, hlt, hlast⟩ := hentry
  exact ⟨c, hopen, hlt, iff_of_true rfl hlast⟩

theorem Cycles.loopAwait {rv : Int} (hpc : s.pc t = .loop bounded s.barrier.cycle rv) :
    Cycles n (s.call t (.await () false bounded) (.await bounded s.barrier.cycle)) := by
  have hseat := h.seat t
  simp only [Seat, hpc] at hseat
  obtain ⟨hout, hq, ho, -⟩ := hseat
  have hentry := h.ledger.entry t
  rw [hpc] at hentry
  refine h.call hout hq ?_ ?_ (h.ledger.move rfl (by simp) hentry)
  · rintro _ _ ⟨⟩
    rfl
  · unfold Seat
    simp only [State.call, State.goto, update_self]
    exact Or.inl ⟨update_self .., hq, ho⟩

theorem Cycles.loopLeave {rv : Int}
    (hpc : s.pc t = .loop bounded cycle rv) (hne : cycle ≠ s.barrier.cycle) :
    Cycles n (s.call t (.release ()) (.release rv)) := by
  have hseat := h.seat t
  simp only [Seat, hpc] at hseat
  obtain ⟨hout, hq, ho, hrv⟩ := hseat
  have hentry := h.ledger.entry t
  rw [hpc] at hentry
  obtain ⟨c, hopen, ⟨heq, -⟩ | ⟨-, hlt, hlast⟩⟩ := hentry
  · exact absurd heq hne
  · exact h.leave hout hq ho
      (h.ledger.move rfl (by simp) ⟨c, hopen, hlt, iff_of_false hrv hlast⟩)

theorem Cycles.turn (hpc : s.pc t = .acquire bounded)
    (hq : s.sync.mutexes.pc t = .returned .ok) (hone : s.barrier.count - 1 = 0)
    (hbehind : ∀ u, (s.pc u).flag ≠ some (!s.barrier.cycle)) :
    Cycles n ({ s with
      barrier := { s.barrier with cycle := !s.barrier.cycle, count := s.barrier.threshold }
      books := (s.books.arrive t).turn }.call t (.notify true bounded) .notify) := by
  obtain ⟨-, hout, ho⟩ := (h.seat t).acquired hpc hq
  obtain ⟨hcalm, hframe⟩ := h.calm.call (e := .notify true bounded) hout (hq ▸ rfl)
  have hpc' : ∀ u, u ≠ t → (s.sync.call t (.notify true bounded)).pc u = s.sync.pc u :=
    fun u hu => Condvar.call_pc_of_ne hu
  refine ⟨hcalm, h.ready, fun u => ?_, fun u b cycle hu hentry => ?_, fun u b cycle hu _ _ => ?_,
    h.ledger.turn h.ready.2.2 hpc hone h.ready.2.1 hbehind⟩
  · by_cases hut : u = t
    · subst hut
      unfold Seat
      simp only [State.call, State.goto, update_self]
      exact ⟨by simp [Condvar.State.call, Condvar.State.goto, Condvar.Pc.broadcasts],
        show (s.sync.mutexes.pc u).outside = true by rw [hq]; rfl, ho⟩
    · exact (h.seat u).frame (update_of_ne hut _ _) (hframe u hut)
  · -- nobody else has the mutex
    have hut : u ≠ t := by
      rintro rfl
      simp [State.call, State.goto] at hu
    have hu' : s.pc u = .await b cycle := by simpa [State.call, State.goto, hut] using hu
    have hentry' : (s.sync.pc u).atEntry = true := by
      rw [← hpc' u hut]
      exact hentry
    have hown := (h.owned_of_atEntry hu' hentry').1
    rw [ho.1] at hown
    exact absurd (Option.some.inj hown).symm hut
  · refine Or.inr ⟨t, by simp [State.call, State.goto], ?_⟩
    simp [State.call, Condvar.State.call, Condvar.State.goto, Condvar.Pc.raising]

end

/-! ## Runs -/

def Pc.arriving : Pc → Bool
  | .acquire _ => true
  | _ => false

/-- The last thread of a cycle finds nobody of the cycle before in the loop. -/
def NotOvertaken (s : State Tid D) : Action Tid D → Prop
  | .cont t => (s.pc t).arriving = true → s.barrier.count = 1 →
      ∀ u, (s.pc u).flag ≠ some (!s.barrier.cycle)
  | _ => True

instance [Fintype Tid] (s : State Tid D) (a : Action Tid D) : Decidable (NotOvertaken s a) := by
  rcases a <;> dsimp only [NotOvertaken] <;> infer_instance

theorem Cycles.cont (h : Cycles n s) (hok : NotOvertaken s (.cont t))
    (hs : s.cont documented t = some s') : Cycles n s' := by
  unfold State.cont at hs
  cases hpc : s.pc t <;> simp only [hpc] at hs
  case idle | returned => cases hs
  case acquire =>
    split at hs
    case h_2 => cases hs
    case h_1 rc hq =>
      obtain rfl := ((h.seat t).acquired hpc hq).1
      rw [if_neg (by decide)] at hs
      cases hs
      simp only [State.arrive]
      split
      case isTrue hone => exact h.turn hpc hq hone (hok (hpc ▸ rfl) (by omega))
      case isFalse hmore => exact h.arrive hpc hq hmore (by split <;> decide)
  case notify =>
    split at hs
    case h_1 rv hq =>
      obtain ⟨rfl, hnext⟩ := h.notified hpc hq
      cases hs
      exact hnext
    case h_2 => cases hs
  case loop =>
    split at hs <;> cases hs
    case isTrue hcycle =>
      subst hcycle
      exact h.loopAwait hpc
    case isFalse hcycle => exact h.loopLeave hpc hcycle
  case await =>
    split at hs <;> cases hs
    case h_1 hq => exact (h.awaited hpc hq).2
    case h_2 hq => cases (h.awaited hpc hq).1
  case release =>
    split at hs <;> cases hs
    case h_1 hq => exact h.ret hpc hq

theorem Cycles.step [Fintype Tid] (h : Cycles n s) (hcard : Fintype.card Tid < Unsigned.range)
    (hok : NotOvertaken s a) (hs : s.step documented a = some s') : Cycles n s' := by
  cases a with
  | reach t bounded =>
    simp only [State.step, h.ready.1, if_true] at hs
    obtain ⟨hout, ⟨⟩⟩ := Option.ite_none_right_eq_some.mp hs
    exact h.reach hout
  | sync d =>
    simp only [State.step] at hs
    split at hs
    case h_1 => cases hs
    case h_2 hcall =>
      obtain ⟨sync, hsync, rfl⟩ := Option.map_eq_some_iff.mp hs
      exact h.sync hcard hcall hsync
  | cont t => exact h.cont hok hs

/-! ## When nothing moves -/

/-- What a thread waits for when nothing moves. -/
inductive Blocked (s : State Tid D) (t : Tid) : Prop
  | out : (s.pc t).outside = true → Blocked s t
  | mutex : s.mutex.locked = true → s.mutex.owner ≠ some t → (s.sync.pc t).counted = false →
      Blocked s t
  | drain (yields : Bool) : s.pc t = .notify → s.sync.pc t = .drain yields →
      s.sync.cond.waiters ≠ 0 → Blocked s t
  | cond {bounded cycle : Bool} : s.pc t = .await bounded cycle → s.mutex.owner ≠ some t →
      (s.sync.pc t).counted = true → (t ∈ s.sync.told → s.sync.cond.fires = false) → Blocked s t

section Rest

variable {acquired : Errno → Int}

theorem Resting.cont (h : Resting acquired s) : s.cont acquired t = none :=
  h (.cont t) id

section

variable (h : Resting acquired s)
include h

theorem Resting.go (hne : ¬ (s.sync.pc t = .select () ∧ t ∉ s.sync.told)) :
    s.sync.go t false = none :=
  Option.map_eq_none_iff.mp (h (.sync (.go t false)) hne)

theorem Resting.go_of_ne (hne : ∀ m, s.sync.pc t ≠ .select m) :
    s.sync.go t false = none :=
  h.go fun hq => hne () hq.1

theorem Resting.mutex
    (hne : ¬ (s.mutex.locked = true ∧ (s.sync.mutexes.pc t = .waitSelect (.mutex ()) ∨
      ∃ extra, s.sync.mutexes.pc t = .waitEvent (.mutex ()) extra))) :
    s.sync.mutexes.go t true = none :=
  Option.map_eq_none_iff.mp (Option.map_eq_none_iff.mp (h (.sync (.mutex t true)) hne))

theorem Resting.fires {extra : Bool}
    (hpc : s.sync.pc t = .waiting () extra) : s.sync.cond.fires = false := by
  by_contra hfires
  have hnone := h (.sync (.examine t false)) hfires
  simp only [Bool.not_eq_false] at hfires
  simp [State.step, Condvar.State.step, hpc, hfires, Condvar.State.liftMutex, Sys.step] at hnone

/-- The mutex that a thread waits for is locked. -/
theorem Resting.locked (hw : Condvar.Waits s.sync)
    (hacq : (s.sync.mutexes.pc t).acquires = some (.mutex ())) : s.mutex.locked = true := by
  by_contra hfree
  have hnone := h.mutex (t := t) fun hlocked => hfree hlocked.1
  cases hq : s.sync.mutexes.pc t <;>
    simp_all [Sync.Pc.acquires, Sync.Pc.wants, Sys.go, hw.unlatched]

theorem Resting.not_releases {m : Condvar.Obj Unit}
    (hrel : (s.sync.mutexes.pc t).releases = some m) : False := by
  have hnone := h.mutex (t := t) (by rintro ⟨-, hq | ⟨extra, hq⟩⟩ <;>
    simp [hq, Sync.Pc.releases] at hrel)
  cases hq : s.sync.mutexes.pc t with
  | releaseState =>
    simp only [Sys.go, hq] at hnone
    split at hnone
    · cases hnone
    · split at hnone <;> cases hnone
  | releaseOwner =>
    simp only [Sys.go, hq] at hnone
    split at hnone <;> cases hnone
  | releaseLock => simp [Sys.go, hq] at hnone
  | _ => simp [hq, Sync.Pc.releases] at hrel

end

variable (h : Cycles n s) (hrest : Resting acquired s) (hlist : OnList s)
include h hrest hlist

theorem Cycles.lock_free :
    s.sync.cond.lock = none := by
  by_contra hlock
  obtain ⟨v, hv⟩ := Option.ne_none_iff_exists'.mp hlock
  have hnotifies : (s.sync.pc v).notifies ≠ none := h.calm.told.locked.holds v hv
  have hnone : s.sync.go v false = none := by
    refine hrest.go ?_
    rintro ⟨hq, -⟩
    simp [hq, Condvar.Pc.notifies] at hnotifies
  cases hq : s.sync.pc v with
  | walk broadcast bounded cq =>
    rcases hlist v broadcast bounded cq hq with rfl | ⟨tmp, rfl⟩ <;>
      simp [Condvar.State.go, hq] at hnone
  | count => simp [Condvar.State.go, hq] at hnone
  | _ => simp [hq, Condvar.Pc.notifies] at hnotifies

theorem Cycles.blocked_notify
    (hpc : s.pc t = .notify) : Blocked s t := by
  have hseat := h.seat t
  simp only [Seat, hpc] at hseat
  have hlock := h.lock_free hrest hlist
  have hcont := hrest.cont (t := t)
  have hgo := hrest.go_of_ne (t := t)
  cases hq : s.sync.pc t with
  | drain yields =>
    refine .drain yields hpc hq fun hzero => ?_
    simp [Condvar.State.go, hq, hzero] at hgo
  | notified => simp [State.cont, hpc, hq] at hcont
  | walk | count =>
    have hholder := h.calm.told.locked.holder t _ (by rw [Condvar.place_of_pc hq]; rfl)
    cases hlock.symm.trans hholder
  | notify | signal | nudge =>
    simp only [hq, Condvar.Pc.broadcasts] at hseat
    simp only [Condvar.State.go, hq, hlock, hseat.1, if_true] at hgo
    have hnone := hgo (by simp)
    split at hnone
    · first | cases hnone | (split at hnone <;> cases hnone)
    · cases hnone
  | _ =>
    simp [hq, Condvar.Pc.broadcasts] at hseat

theorem Cycles.blocked_await (hpc : s.pc t = .await bounded cycle) : Blocked s t := by
  have hseat := h.seat t
  simp only [Seat, hpc] at hseat
  have hlock := h.lock_free hrest hlist
  have hcont := hrest.cont (t := t)
  have hgo := hrest.go_of_ne (t := t)
  have hholds := h.calm.waits.holds t
  obtain ⟨hq, -⟩ | ⟨hawaiting, hsolo⟩ := hseat
  · have hnone := hgo (by simp [hq])
    simp only [Condvar.State.go, hq] at hnone
    split at hnone <;> cases hnone
  cases hq : s.sync.pc t with
  | waiting m extra =>
    rw [hq] at hholds
    exact .cond hpc (hholds.2 hsolo).2 (by rw [hq]; rfl) fun _ => hrest.fires hq
  | select m =>
    rw [hq] at hholds
    refine .cond hpc (hholds.2 hsolo).2 (by rw [hq]; rfl) fun htold => ?_
    have hnone := hrest.go fun hne => hne.2 htold
    simp [Condvar.State.go, hq, hlock] at hnone
  | release m extra b =>
    rw [hq] at hholds
    obtain ⟨-, ⟨hrel, -⟩ | ⟨hret, -⟩⟩ := hholds hsolo
    · exact (hrest.not_releases hrel).elim
    · simp [Condvar.State.go, hq, hret] at hgo
  | reacquire m =>
    rw [hq] at hholds
    obtain ⟨-, ⟨hacq, -, ho⟩ | ⟨hret, -⟩⟩ := hholds hsolo
    · exact .mutex (hrest.locked h.calm.waits hacq) ho (by rw [hq]; rfl)
    · simp [Condvar.State.go, hq, hret] at hgo
  | enter => simp [Condvar.State.go, hq, hlock] at hgo
  | ready =>
    have hnone := hgo (by simp [hq])
    simp only [Condvar.State.go, hq, hlock, if_true] at hnone
    split at hnone <;> cases hnone
  | awaited m rv => cases rv <;> simp [State.cont, hpc, hq] at hcont
  | _ =>
    simp [hq, Condvar.Pc.awaiting] at hawaiting

/-- **When nothing moves, every thread waits for something.** -/
theorem Cycles.blocked (t : Tid) : Blocked s t := by
  have hseat := h.seat t
  have hcont := hrest.cont (t := t)
  cases hpc : s.pc t with
  | idle | returned => exact .out (by rw [hpc]; rfl)
  | notify => exact h.blocked_notify hrest hlist hpc
  | await => exact h.blocked_await hrest hlist hpc
  | loop =>
    simp only [State.cont, hpc] at hcont
    split at hcont <;> cases hcont
  | acquire =>
    simp only [Seat, hpc] at hseat
    obtain ⟨hq, ⟨hacq, -, ho⟩ | ⟨hret, -⟩⟩ := hseat
    · exact .mutex (hrest.locked h.calm.waits hacq) ho (by rw [hq]; rfl)
    · simp [State.cont, hpc, hret] at hcont
  | release =>
    simp only [Seat, hpc] at hseat
    obtain ⟨-, ⟨hrel, -⟩ | ⟨hret, -⟩⟩ := hseat
    · exact (hrest.not_releases hrel).elim
    · simp [State.cont, hpc, hret] at hcont

/-- A waiter that nobody wakes belongs to the cycle that is not complete. -/
theorem Cycles.flag_of_cond
    (hpc : s.pc t = .await bounded cycle) (hcounted : (s.sync.pc t).counted = true)
    (hfires : t ∈ s.sync.told → s.sync.cond.fires = false) : cycle = s.barrier.cycle := by
  by_contra hne
  rcases h.late t bounded cycle hpc hne hcounted with htold | ⟨v, hv, hraising⟩
  · -- a broadcast has found `t`, so the event manager sees it
    obtain ⟨hsig, hbroadcast, -⟩ := h.calm.told.flags (List.ne_nil_of_mem htold)
    have hfires := hfires htold
    simp only [Condvar.State.view] at hsig hbroadcast
    simp [Condvar.Cond.fires, hsig, hbroadcast] at hfires
  · have hseat := h.seat v
    simp only [Seat, hv] at hseat
    cases h.blocked hrest hlist v with
    | out hout => simp [hv, Pc.outside] at hout
    | mutex _ ho => exact ho hseat.2.2.1
    | drain yields _ hq => simp [hq, Condvar.Pc.raising] at hraising
    | cond hawait => simp [hv] at hawait

/-- The last thread of a cycle does not wait for its waiters for ever: with its cycle
complete, none of them waits for it. -/
theorem Cycles.not_drain
    (hpc : s.pc u = .notify) : s.sync.cond.waiters = 0 := by
  by_contra hw
  have hcounted := h.calm.told.counted
  obtain ⟨w, hin⟩ : ∃ w, w ∈ s.sync.view.inside := by
    refine List.exists_mem_of_ne_nil _ fun hnil => hw ?_
    have hlen := hcounted.waiters
    rw [hnil] at hlen
    exact hlen
  have hw : (s.sync.pc w).counted = true := (hcounted.place w).mpr hin
  obtain ⟨bounded, cycle, hawait⟩ := (h.seat w).await_of_counted hw
  cases h.blocked hrest hlist w with
  | out hout => simp [hawait, Pc.outside] at hout
  | mutex _ _ hnot => cases hw.symm.trans hnot
  | drain _ hnotify => simp [hawait] at hnotify
  | cond hawait' _ _ hfires =>
    have hflag := h.flag_of_cond hrest hlist hawait' hw hfires
    have hentry := h.ledger.entry w
    rw [hawait'] at hentry
    obtain ⟨c, hopen, ⟨-, rfl⟩ | ⟨hne, -⟩⟩ := hentry
    · have hmem := Books.mem_calls.mpr hopen.2
      rw [h.ledger.turning u hpc] at hmem
      cases hmem
    · exact hne hflag

theorem Cycles.unlocked : s.mutex.locked = false := by
  by_contra hlocked
  obtain ⟨u, hu⟩ := Option.ne_none_iff_exists'.mp
    (h.calm.waits.inv.locked_iff.mp (Bool.not_eq_false _ ▸ hlocked))
  cases h.blocked hrest hlist u with
  | out hout => exact ((h.seat u).free hout).2.2 hu
  | mutex _ ho => exact ho hu
  | drain _ hpc _ hw => exact hw (h.not_drain hrest hlist hpc)
  | cond _ ho => exact ho hu

/-- When nothing moves, every call is over or in the loop of the cycle that is not
complete. -/
theorem Cycles.rest (t : Tid) :
    (s.pc t).outside = true ∨ ∃ bounded, s.pc t = .await bounded s.barrier.cycle := by
  cases h.blocked hrest hlist t with
  | out hout => exact Or.inl hout
  | mutex hlocked =>
    rw [h.unlocked hrest hlist] at hlocked
    cases hlocked
  | drain _ hpc _ hw => exact absurd (h.not_drain hrest hlist hpc) hw
  | cond hpc _ hcounted hfires =>
    exact Or.inr ⟨_, h.flag_of_cond hrest hlist hpc hcounted hfires ▸ hpc⟩

/-- When nothing moves, every call of a complete cycle has returned. -/
theorem Cycles.returned {c : Nat} (hfull : (s.books.calls c).length = n)
    (ht : t ∈ s.books.calls c) :
    ∃ r ∈ s.books.returns, r.thread = t ∧ r.cycle = some c := by
  refine (h.ledger.records.owed t c (Books.mem_calls.mp ht)).resolve_left ?_
  rintro ⟨hmine, hopen⟩
  rcases h.rest hrest hlist t with hout | ⟨bounded, hpc⟩
  · cases hout.symm.trans hopen
  -- the call is in progress, so its cycle is the current one, which is not complete
  have hentry := h.ledger.entry t
  rw [hpc] at hentry
  obtain ⟨d, hin, ⟨-, rfl⟩ | ⟨hne, -⟩⟩ := hentry
  · cases hmine.symm.trans hin.1
    have hcount := h.ledger.count
    have hpos := h.ledger.pos
    omega
  · exact hne rfl

end Rest

/-! ## The contract -/

theorem Cycles.contract (h : Cycles n s) : Contract documented n s where
  early _ hr := h.ledger.early hr
  tails _ hr _ hr' := h.ledger.tails hr hr'
  count := ⟨h.ledger.full, h.ledger.count, h.ledger.pos⟩
  released r hr := (h.ledger.records.ended r hr).1
  complete hrest hlist := by
    refine ⟨fun t bounded hpc => ?_, fun c hfull => ?_⟩
    · rcases h.rest hrest hlist t with hout | ⟨bounded', hpc'⟩
      · simp [hpc, Pc.outside] at hout
      · simp [hpc] at hpc'
    · have hover : ∀ t ∈ s.books.calls c, ∃ r ∈ s.books.returns, r.thread = t ∧ r.cycle = some c :=
        fun t ht => h.returned hrest hlist hfull ht
      exact ⟨hover, h.ledger.tail_exists h.ready.2.2 hfull hover⟩

/-- **Barrier.** With the return values of the manual, a barrier keeps its promises in
every run in which nobody is overtaken. With those of the code it breaks them in every
run, as soon as a call has returned. -/
theorem reach_contract [Fintype Tid] (hcard : Fintype.card Tid < Unsigned.range) (n : Nat)
    (hn : 1 ≤ n)
    (t : Tid) :
    (∀ s : State Tid D, Reachable (State.step documented) NotOvertaken (Initial n) s →
      Contract documented n s) ∧
    (∃ s : State Tid D, Reachable (State.step Errno.code) Always (Initial n) s ∧
      s.books.returns ≠ []) ∧
    ∀ s : State Tid D, Reachable (State.step Errno.code) Always (Initial n) s →
      s.books.returns ≠ [] → ¬ Contract Errno.code n s := by
  refine ⟨fun s hs => ?_, ?_, fun s hs hne hcontract => ?_⟩
  · have hI : Cycles n s := hs.invariant (fun s h => h.cycles)
      fun s a s' hI hok h => hI.step hcard hok h
    exact hI.contract
  · obtain ⟨s, hs, hreturns⟩ := run_firstReach (D := D) t
    exact ⟨s, reachable_of_run (.init (initState_initial hn)) hs, by simp [hreturns]⟩
  · obtain ⟨r, hr, -, hholds⟩ := first_return_holds hs hne
    rw [hcontract.released r hr] at hholds
    cases hholds

/-- Thread `t` goes on in `pth_cond_await` until it waits. -/
def awaits (t : Fin 4) : List (Action (Fin 4) Unit) :=
  [.cont t, .sync (.go t false), .sync (.go t false), .sync (.mutex t true), .sync (.mutex t true),
    .sync (.mutex t true), .sync (.go t false)]

/-- Thread `t` is not the last one of its cycle. -/
def reachWaits (t : Fin 4) : List (Action (Fin 4) Unit) :=
  [.reach t false, .sync (.mutex t true), .cont t] ++ awaits t

/-- Thread `t` releases the mutex and returns. -/
def releases (t : Fin 4) : List (Action (Fin 4) Unit) :=
  [.cont t, .sync (.mutex t true), .sync (.mutex t true), .sync (.mutex t true), .cont t]

/-- Thread `t` is the last one of its cycle: it wakes the waiter `w`, which finds the mutex
locked, and returns. -/
def reachLast (t w : Fin 4) : List (Action (Fin 4) Unit) :=
  [.reach t false, .sync (.mutex t true), .cont t, .sync (.go t false), .sync (.go t false),
    .sync (.go t false), .sync (.go t false), .sync (.examine w false), .sync (.go w false),
    .sync (.mutex w true), .sync (.go t false)] ++ releases t

/-- Every call is over, or it waits and there is no signal. -/
def Quiet (s : State Tid D) : Prop :=
  ∀ t, (s.sync.mutexes.pc t).outside = true ∧
    ((s.pc t).outside = true ∧ (s.sync.pc t).outside = true ∨
      s.pc t = .await false s.barrier.cycle ∧ s.sync.pc t = .waiting () false ∧
        s.sync.cond.fires = false)

instance [Fintype Tid] (s : State Tid D) : Decidable (Quiet s) :=
  inferInstanceAs (Decidable (∀ _, _))

theorem Quiet.resting (acquired : Errno → Int) (h : Quiet s) : Resting acquired s ∧ OnList s := by
  refine ⟨fun a ha => ?_, fun t broadcast bounded cq hq => ?_⟩
  · cases a with
    | reach => exact absurd trivial ha
    | cont t =>
      rcases (h t).2 with ⟨hout, -⟩ | ⟨hpc, hq, -⟩
      · cases hpc : s.pc t <;> simp_all [State.step, State.cont, Pc.outside]
      · simp [State.step, State.cont, hpc, hq]
    | sync d =>
      cases d with
      | call => rfl
      | mutex t occurred =>
        have hq := (h t).1
        cases hm : s.sync.mutexes.pc t <;> simp_all [Sync.Pc.outside, State.step,
          Condvar.State.step, Condvar.State.liftMutex, Sys.go]
      | go t isBound =>
        rcases (h t).2 with ⟨-, hout⟩ | ⟨-, hq, -⟩
        · cases hq : s.sync.pc t <;> simp_all [Condvar.Pc.outside, State.step, Condvar.State.step,
            Condvar.State.go]
        · simp [State.step, Condvar.State.step, Condvar.State.go, hq]
      | examine t expired =>
        rcases (h t).2 with ⟨-, hout⟩ | ⟨-, -, hfires⟩
        · cases hq : s.sync.pc t <;> simp_all [Condvar.Pc.outside, State.step, Condvar.State.step]
        · exact absurd hfires ha
      | _ => exact absurd trivial ha
  · rcases (h t).2 with ⟨-, hout⟩ | ⟨-, hwait, -⟩
    · simp [hq, Condvar.Pc.outside] at hout
    · simp [hq] at hwait

/-- Threads 0 and 1 complete a cycle and return, and thread 0 calls again. -/
def inOrder : List (Action (Fin 4) Unit) :=
  reachWaits 0 ++ reachLast 1 0 ++ [.sync (.mutex 0 true), .sync (.go 0 false), .cont 0] ++
    releases 0 ++ reachWaits 0

theorem reach_contract_inOrder :
    ∃ s : State (Fin 4) Unit,
      runOk (State.step documented) NotOvertaken (initState 2) inOrder = some s ∧
      s.books.returns = [⟨0, some 0, cTrue, false⟩, ⟨1, some 0, taillight, false⟩] ∧
      s.books.calls 0 = [1, 0] ∧ s.books.calls 1 = [0] ∧ Resting documented s ∧
      OnList s ∧ Contract documented 2 s := by
  obtain ⟨s, hs, hreturns, hzero, hone, hquiet⟩ : ∃ s, runOk (State.step documented) NotOvertaken
      (initState 2) inOrder = some s ∧
      s.books.returns = [⟨0, some 0, cTrue, false⟩, ⟨1, some 0, taillight, false⟩] ∧
      s.books.calls 0 = [1, 0] ∧ s.books.calls 1 = [0] ∧ Quiet s :=
    exists_of_any (by decide +kernel)
  obtain ⟨hrest, hlist⟩ := hquiet.resting documented
  have hcontract := (reach_contract (by simp [Unsigned.range]) 2 (by decide)
    (0 : Fin 4)).1 s (reachable_of_runOk (.init (initState_initial (by decide))) hs)
  exact ⟨s, hs, hreturns, hzero, hone, hrest, hlist, hcontract⟩

/-- Threads 0 and 1 complete a cycle, and 2 and 3 the next one before 0 has the mutex
again. Then 0 and 2 go on. -/
def overtaken : List (Action (Fin 4) Unit) :=
  reachWaits 0 ++ reachLast 1 0 ++ reachWaits 2 ++ reachLast 3 2 ++
    [.sync (.mutex 0 true), .sync (.go 0 false), .cont 0] ++ awaits 0 ++
    [.sync (.mutex 2 true), .sync (.go 2 false), .cont 2] ++ releases 2

/-- With the return values of the code, a single call returns `FALSE` and keeps the mutex. With
those of the manual, a thread that is overtaken by the next cycle waits again: of the two
threads of the first cycle one returns. -/
theorem reach_fails_twice :
    (∃ s : State (Fin 4) Unit, Reachable (State.step Errno.code) Always (Initial 2) s ∧
      s.books.returns = [⟨0, none, cFalse, true⟩] ∧ ¬ Contract Errno.code 2 s) ∧
    ∃ s : State (Fin 4) Unit, Reachable (State.step documented) Always (Initial 2) s ∧
      Resting documented s ∧ s.books.calls 0 = [1, 0] ∧ s.books.calls 1 = [3, 2] ∧
      s.books.returns = [⟨2, some 1, cTrue, false⟩, ⟨3, some 1, taillight, false⟩,
        ⟨1, some 0, taillight, false⟩] ∧ ¬ Contract documented 2 s := by
  refine ⟨?_, ?_⟩
  · obtain ⟨s, hs, hreturns⟩ := run_firstReach (D := Unit) (0 : Fin 4)
    refine ⟨s, reachable_of_run (.init (initState_initial (by decide))) hs, hreturns, fun h => ?_⟩
    have hholds := h.released ⟨0, none, cFalse, true⟩ (by simp [hreturns])
    cases hholds
  · obtain ⟨s, hs, hzero, hone, hreturns, hquiet⟩ : ∃ s, run (State.step documented)
        (initState 2) overtaken = some s ∧ s.books.calls 0 = [1, 0] ∧ s.books.calls 1 = [3, 2] ∧
        s.books.returns = [⟨2, some 1, cTrue, false⟩, ⟨3, some 1, taillight, false⟩,
          ⟨1, some 0, taillight, false⟩] ∧ Quiet s :=
      exists_of_any (by decide +kernel)
    obtain ⟨hrest, hlist⟩ := hquiet.resting documented
    refine ⟨s, reachable_of_run (.init (initState_initial (by decide))) hs, hrest, hzero,
      hone, hreturns, fun h => ?_⟩
    obtain ⟨r, hr, hthread, -⟩ := ((h.complete hrest hlist).2 0
      (by simp [hzero])).1 0 (by simp [hzero])
    rw [hreturns] at hr
    fin_cases hr <;> cases hthread

end Ngpt.Sync.Barrier
