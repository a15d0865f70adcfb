import Ngpt.Sync.Barrier

/-!
# ngpt — the books of a barrier

What the books say of each call, from `pth_barrier_reach` to its return: the cycle that it
has been counted in, whether this cycle is complete, and whether its thread was the last
one of the cycle. `br_cycle` is a flag, so the cycle of a thread in the loop can be told
from it only if that thread is at most one cycle behind (`Pc.Entry`).
-/

namespace Ngpt.Sync.Barrier

open Function

variable {Tid D : Type} {b b' : Books Tid} {t u : Tid} {c n : Nat}

/-! ## Cycles -/

theorem Books.mem_calls : t ∈ b.calls c ↔ (t, c) ∈ b.arrivals := by
  simp [Books.calls]

theorem Books.calls_nodup (h : b.arrivals.Nodup) : (b.calls c).Nodup := by
  refine (h.filter _).map_on fun x hx y hy hxy => ?_
  simp only [List.mem_filter, decide_eq_true_eq] at hx hy
  exact Prod.ext hxy (hx.2.trans hy.2.symm)

/-- The call of `t` has been counted in the cycle `c`. -/
def Books.In (b : Books Tid) (t : Tid) (c : Nat) : Prop :=
  b.cycleOf t = some c ∧ (t, c) ∈ b.arrivals

/-- What the others do to the books leaves the entry of `u`. -/
structure Books.Frame (b b' : Books Tid) (u : Tid) : Prop where
  mine     : b'.cycleOf u = b.cycleOf u
  arrivals : ∀ a ∈ b.arrivals, a ∈ b'.arrivals
  calls    : ∀ c < b.cycles, b'.calls c = b.calls c

theorem Books.In.frame (h : b.In u c) (hf : b.Frame b' u) : b'.In u c :=
  ⟨hf.mine.trans h.1, hf.arrivals _ h.2⟩

section Arrivals

variable [DecidableEq Tid]

theorem Books.calls_arrive_self : (b.arrive t).calls b.cycles = t :: b.calls b.cycles := by
  simp [Books.calls, Books.arrive]

theorem Books.calls_arrive_of_ne (h : c ≠ b.cycles) : (b.arrive t).calls c = b.calls c := by
  simp [Books.calls, Books.arrive, h.symm]

theorem Books.frame_arrive (hut : u ≠ t) : b.Frame (b.arrive t) u :=
  ⟨update_of_ne hut _ _, fun _ ha => List.mem_cons_of_mem _ ha,
    fun _ hc => Books.calls_arrive_of_ne (Nat.ne_of_lt hc)⟩

end Arrivals

/-! ## The entry of a call -/

/-- The flag of the cycle in whose loop a thread is. -/
def Pc.flag : Pc → Option Bool
  | .loop _ cycle _ | .await _ cycle => some cycle
  | _ => none

/-- What the books say of the call of `t`, when the flag is `flag`. -/
def Pc.Entry (b : Books Tid) (flag : Bool) (t : Tid) : Pc → Prop
  | .idle | .returned _ => True
  | .acquire _ => b.cycleOf t = none
  | .loop _ cycle _ | .await _ cycle => ∃ c, b.In t c ∧
      (cycle = flag ∧ c = b.cycles ∨
        cycle ≠ flag ∧ c < b.cycles ∧ (b.calls c).head? ≠ some t)
  | .notify => ∃ c, b.In t c ∧ c < b.cycles ∧ (b.calls c).head? = some t
  | .release rv => ∃ c, b.In t c ∧ c < b.cycles ∧
      (rv = taillight ↔ (b.calls c).head? = some t)

theorem Pc.Entry.frame {pc : Pc} {flag : Bool} (h : pc.Entry b flag u) (hf : b.Frame b' u)
    (hcycles : b'.cycles = b.cycles) : pc.Entry b' flag u := by
  cases pc with
  | idle | returned => trivial
  | acquire => exact hf.mine.trans h
  | loop | await =>
    obtain ⟨c, ho, hnow | ⟨hflag, hlt, hlast⟩⟩ := h
    · exact ⟨c, ho.frame hf, Or.inl (hcycles ▸ hnow)⟩
    · exact ⟨c, ho.frame hf, Or.inr ⟨hflag, hcycles ▸ hlt, hf.calls c hlt ▸ hlast⟩⟩
  | notify | release =>
    obtain ⟨c, ho, hlt, hlast⟩ := h
    exact ⟨c, ho.frame hf, hcycles ▸ hlt, hf.calls c hlt ▸ hlast⟩

/-- The flag flips when a cycle is complete: who was in the loop of that cycle is now in
the loop of the cycle before. -/
theorem Pc.Entry.turn {pc : Pc} {flag : Bool} (h : pc.Entry b flag u) (hf : b.Frame b' u)
    (hcycles : b'.cycles = b.cycles + 1) (hbehind : pc.flag ≠ some (!flag))
    (hlast : (b'.calls b.cycles).head? ≠ some u) : pc.Entry b' (!flag) u := by
  cases pc with
  | idle | returned => trivial
  | acquire => exact hf.mine.trans h
  | loop _ cycle | await _ cycle =>
    obtain ⟨c, ho, ⟨rfl, rfl⟩ | ⟨hflag, -⟩⟩ := h
    · exact ⟨b.cycles, ho.frame hf, Or.inr ⟨by simp, by omega, hlast⟩⟩
    · refine absurd ?_ hbehind
      simp only [Pc.flag, Option.some.injEq]
      exact Bool.eq_not_of_ne hflag
  | notify | release =>
    obtain ⟨c, ho, hlt, hlast⟩ := h
    exact ⟨c, ho.frame hf, by omega, hf.calls c hlt ▸ hlast⟩

/-! ## Records -/

/-- The calls and the returns, with the threads at `pc`. -/
structure Records (b : Books Tid) (pc : Tid → Pc) : Prop where
  nodup : b.arrivals.Nodup
  bound : ∀ a ∈ b.arrivals, a.2 ≤ b.cycles
  /-- a call that has been counted is in progress or over -/
  owed  : ∀ t c, (t, c) ∈ b.arrivals → (b.cycleOf t = some c ∧ (pc t).outside = false) ∨
    ∃ r ∈ b.returns, r.thread = t ∧ r.cycle = some c
  /-- a call that is over was one of a complete cycle, and its value says whether it was
  the last one; its thread did not have the mutex -/
  ended : ∀ r ∈ b.returns, r.holds = false ∧ ∃ c < b.cycles, r.cycle = some c ∧
    (r.thread, c) ∈ b.arrivals ∧ (r.rv = taillight ↔ (b.calls c).head? = some r.thread)

variable {pc : Tid → Pc} {q : Pc}

theorem Records.not_arrived (h : Records b pc) (hnone : b.cycleOf t = none) :
    (t, b.cycles) ∉ b.arrivals := by
  intro hmem
  rcases h.owed t b.cycles hmem with ⟨hmine, -⟩ | ⟨r, hr, -, hcycle⟩
  · cases hnone.symm.trans hmine
  · obtain ⟨-, c, hlt, hc, -⟩ := h.ended r hr
    rw [hcycle] at hc
    cases hc
    omega

theorem Records.turn (h : Records b pc) : Records b.turn pc := by
  refine ⟨h.nodup, fun a ha => Nat.le_succ_of_le (h.bound a ha), h.owed, fun r hr => ?_⟩
  obtain ⟨hholds, c, hlt, hover⟩ := h.ended r hr
  exact ⟨hholds, c, Nat.lt_succ_of_lt hlt, hover⟩

section Moves

variable [DecidableEq Tid]

theorem Records.move (h : Records b pc) (hout : q.outside = false) :
    Records b (update pc t q) := by
  refine ⟨h.nodup, h.bound, fun u c hu => ?_, h.ended⟩
  rcases h.owed u c hu with ⟨hmine, hopen⟩ | hr
  · by_cases hut : u = t
    · exact Or.inl ⟨hmine, by rw [hut, update_self]; exact hout⟩
    · exact Or.inl ⟨hmine, by rw [update_of_ne hut]; exact hopen⟩
  · exact Or.inr hr

theorem Records.call (h : Records b pc) (hout : (pc t).outside = true) :
    Records (b.call t) (update pc t q) := by
  refine ⟨h.nodup, h.bound, fun u c hu => ?_, h.ended⟩
  rcases h.owed u c hu with ⟨hmine, hopen⟩ | hr
  · have hut : u ≠ t := by
      rintro rfl
      cases hout.symm.trans hopen
    exact Or.inl ⟨(update_of_ne hut _ _).trans hmine, by rw [update_of_ne hut]; exact hopen⟩
  · exact Or.inr hr

theorem Records.arrive (h : Records b pc) (hnone : b.cycleOf t = none) (hout : q.outside = false) :
    Records (b.arrive t) (update pc t q) := by
  refine ⟨List.nodup_cons.mpr ⟨h.not_arrived hnone, h.nodup⟩, fun a ha => ?_, fun u c hu => ?_,
    fun r hr => ?_⟩
  · rcases List.mem_cons.mp ha with rfl | ha
    · exact le_rfl
    · exact h.bound a ha
  · rcases List.mem_cons.mp hu with heq | hu
    · cases heq
      exact Or.inl ⟨update_self .., by rw [update_self]; exact hout⟩
    · rcases h.owed u c hu with ⟨hmine, hopen⟩ | hr
      · have hut : u ≠ t := by
          rintro rfl
          cases hnone.symm.trans hmine
        exact Or.inl ⟨(update_of_ne hut _ _).trans hmine, by rw [update_of_ne hut]; exact hopen⟩
      · exact Or.inr hr
  · obtain ⟨hholds, c, hlt, hcycle, hmem, hlast⟩ := h.ended r hr
    refine ⟨hholds, c, hlt, hcycle, List.mem_cons_of_mem _ hmem, ?_⟩
    rw [Books.calls_arrive_of_ne (Nat.ne_of_lt hlt)]
    exact hlast

end Moves

/-! ## The ledger -/

/-- The books agree with where the threads are and with the barrier. -/
structure Ledger (n : Nat) (s : State Tid D) : Prop where
  records : Records s.books s.pc
  entry   : ∀ t, (s.pc t).Entry s.books s.barrier.cycle t
  full    : ∀ c < s.books.cycles, (s.books.calls c).length = n
  count   : s.barrier.count = n - (s.books.calls s.books.cycles).length
  pos     : 1 ≤ s.barrier.count
  /-- nobody is counted while the last thread of a cycle has the mutex -/
  turning : ∀ t, s.pc t = .notify → s.books.calls s.books.cycles = []

variable {s : State Tid D} {sync : Condvar.State Unit Tid D} {bounded : Bool} {rv : Int}

theorem Ledger.cycleOf_none (h : Ledger n s) (hpc : s.pc t = .acquire bounded) :
    s.books.cycleOf t = none := by
  have hentry := h.entry t
  rw [hpc] at hentry
  exact hentry

section Pieces

variable [DecidableEq Tid]

/-- Only a thread that goes to `notify` may be there afterwards. -/
theorem Ledger.turning_move (h : Ledger n s) (hq : q ≠ .notify)
    (hu : update s.pc t q u = .notify) : s.books.calls s.books.cycles = [] := by
  have hut : u ≠ t := by
    rintro rfl
    exact hq (by simpa using hu)
  exact h.turning u (by simpa [hut] using hu)

theorem Ledger.move (h : Ledger n s) (hout : q.outside = false) (hq : q ≠ .notify)
    (hentry : q.Entry s.books s.barrier.cycle t) :
    Ledger n { s with sync := sync, pc := update s.pc t q } := by
  refine ⟨h.records.move hout, fun u => ?_, h.full, h.count, h.pos, fun u => h.turning_move hq⟩
  by_cases hut : u = t
  · rw [hut]
    simpa using hentry
  · simpa [hut] using h.entry u

theorem Ledger.call (h : Ledger n s) (hout : (s.pc t).outside = true) :
    Ledger n { s with sync := sync, pc := update s.pc t (.acquire bounded)
                      books := s.books.call t } := by
  refine ⟨h.records.call hout, fun u => ?_, h.full, h.count, h.pos,
    fun u => h.turning_move (by simp)⟩
  by_cases hut : u = t
  · simp [hut, Pc.Entry, Books.call]
  · have hf : s.books.Frame (s.books.call t) u :=
      ⟨update_of_ne hut _ _, fun _ ha => ha, fun _ _ => rfl⟩
    simpa [hut] using (h.entry u).frame hf rfl

theorem Books.in_arrive : (b.arrive t).In t b.cycles :=
  ⟨update_self .., List.mem_cons_self⟩

theorem Ledger.arrive (h : Ledger n s) (hpc : s.pc t = .acquire bounded)
    (hmore : s.barrier.count - 1 ≠ 0) (halone : ∀ u, s.pc u ≠ .notify) :
    Ledger n { s with sync := sync, barrier := { s.barrier with count := s.barrier.count - 1 }
                      pc := update s.pc t (.loop bounded s.barrier.cycle rv)
                      books := s.books.arrive t } := by
  refine ⟨h.records.arrive (h.cycleOf_none hpc) rfl, fun u => ?_, fun c hlt => ?_, ?_, ?_,
    fun u hu => ?_⟩
  · by_cases hut : u = t
    · rw [hut]
      simp only [update_self]
      exact ⟨s.books.cycles, Books.in_arrive, Or.inl ⟨rfl, rfl⟩⟩
    · simpa [hut] using (h.entry u).frame (Books.frame_arrive hut) rfl
  · have hlt : c < s.books.cycles := hlt
    show ((s.books.arrive t).calls c).length = n
    rw [Books.calls_arrive_of_ne (Nat.ne_of_lt hlt)]
    exact h.full c hlt
  · have hcount := h.count
    show s.barrier.count - 1 = n - ((s.books.arrive t).calls s.books.cycles).length
    rw [Books.calls_arrive_self, List.length_cons]
    omega
  · have hpos := h.pos
    show 1 ≤ s.barrier.count - 1
    omega
  · by_cases hut : u = t
    · simp [hut] at hu
    · exact absurd (by simpa [hut] using hu) (halone u)

/-- Nobody has been counted in the cycle after the next. -/
theorem Records.calls_next (h : Records b pc) : (b.arrive t).calls (b.cycles + 1) = [] := by
  rw [Books.calls_arrive_of_ne (by omega)]
  refine List.eq_nil_iff_forall_not_mem.mpr fun u hu => ?_
  have hle := h.bound _ (Books.mem_calls.mp hu)
  simp only at hle
  omega

theorem Ledger.turn (h : Ledger n s) (hn : 1 ≤ n) (hpc : s.pc t = .acquire bounded)
    (hone : s.barrier.count - 1 = 0) (hthreshold : s.barrier.threshold = n)
    (hbehind : ∀ u, (s.pc u).flag ≠ some (!s.barrier.cycle)) :
    Ledger n { s with sync := sync
                      barrier := { s.barrier with
                        cycle := !s.barrier.cycle, count := s.barrier.threshold }
                      pc := update s.pc t .notify, books := (s.books.arrive t).turn } := by
  have hhead : ((s.books.arrive t).calls s.books.cycles).head? = some t := by
    rw [Books.calls_arrive_self]
    rfl
  refine ⟨(h.records.arrive (h.cycleOf_none hpc) rfl).turn, fun u => ?_, fun c hlt => ?_, ?_, ?_,
    fun _ _ => h.records.calls_next⟩
  · by_cases hut : u = t
    · rw [hut]
      simp only [update_self]
      exact ⟨s.books.cycles, Books.in_arrive, Nat.lt_succ_self _, hhead⟩
    · have hf := Books.frame_arrive (b := s.books) hut
      have hf : s.books.Frame (s.books.arrive t).turn u := ⟨hf.mine, hf.arrivals, hf.calls⟩
      have hlast : ((s.books.arrive t).turn.calls s.books.cycles).head? ≠ some u := by
        show ((s.books.arrive t).calls s.books.cycles).head? ≠ some u
        rw [hhead]
        exact fun heq => hut (Option.some.inj heq).symm
      simpa [hut] using (h.entry u).turn hf rfl (hbehind u) hlast
  · show ((s.books.arrive t).calls c).length = n
    by_cases hc : c = s.books.cycles
    · have hcount := h.count
      rw [hc, Books.calls_arrive_self, List.length_cons]
      omega
    · have hlt : c < s.books.cycles + 1 := hlt
      rw [Books.calls_arrive_of_ne hc]
      exact h.full c (by omega)
  · show s.barrier.threshold = n - ((s.books.arrive t).calls (s.books.cycles + 1)).length
    rw [h.records.calls_next, hthreshold]
    simp
  · show 1 ≤ s.barrier.threshold
    omega

theorem Ledger.ret (h : Ledger n s) (hpc : s.pc t = .release rv) (ho : s.mutex.owner ≠ some t) :
    Ledger n (s.ret t rv) := by
  have hentry := h.entry t
  rw [hpc] at hentry
  obtain ⟨c, hin, hlt, hlast⟩ := hentry
  obtain ⟨hnodup, hbound, howed, hover⟩ := h.records
  refine ⟨⟨hnodup, hbound, fun u d hu => ?_, fun r hr => ?_⟩, fun u => ?_, h.full, h.count, h.pos,
    fun u => h.turning_move (by simp)⟩
  · rcases howed u d hu with ⟨hmine, hopen⟩ | ⟨r, hr, hback⟩
    · by_cases hut : u = t
      · subst hut
        exact Or.inr ⟨_, List.mem_cons_self, rfl, hmine⟩
      · exact Or.inl ⟨hmine, by simpa [State.ret, State.goto, hut] using hopen⟩
    · exact Or.inr ⟨r, List.mem_cons_of_mem _ hr, hback⟩
  · rcases List.mem_cons.mp hr with rfl | hr
    · exact ⟨decide_eq_false ho, c, hlt, hin.1, hin.2, hlast⟩
    · exact hover r hr
  · by_cases hut : u = t
    · rw [hut]
      simp [State.ret, State.goto, Pc.Entry]
    · have hf : s.books.Frame (s.ret t rv).books u := ⟨rfl, fun _ ha => ha, fun _ _ => rfl⟩
      have hkept := (h.entry u).frame hf rfl
      simpa [State.ret, State.goto, hut] using hkept

end Pieces

theorem Initial.ledger (h : Initial n s) (hn : 1 ≤ n) (hcount : s.barrier.count = n) :
    Ledger n s := by
  refine ⟨⟨?_, ?_, ?_, ?_⟩, fun t => ?_, ?_, ?_, by omega, by simp [h.pc]⟩
  · simp [h.books]
  · simp [h.books]
  · simp [h.books]
  · simp [h.books]
  · rw [h.pc t]
    trivial
  · simp [h.books]
  · simp [h.books, Books.calls, hcount]

/-! ## What the ledger promises -/

theorem Ledger.early (h : Ledger n s) {r : Return Tid} (hr : r ∈ s.books.returns) :
    ∃ c, r.cycle = some c ∧ r.thread ∈ s.books.calls c ∧ (s.books.calls c).Nodup ∧
      (s.books.calls c).length = n := by
  obtain ⟨-, c, hlt, hcycle, hmem, -⟩ := h.records.ended r hr
  exact ⟨c, hcycle, Books.mem_calls.mpr hmem, Books.calls_nodup h.records.nodup, h.full c hlt⟩

theorem Ledger.tail_iff (h : Ledger n s) {r : Return Tid} (hr : r ∈ s.books.returns)
    (hcycle : r.cycle = some c) : r.rv = taillight ↔ (s.books.calls c).head? = some r.thread := by
  obtain ⟨-, d, -, hd, -, hlast⟩ := h.records.ended r hr
  rw [hcycle] at hd
  cases hd
  exact hlast

theorem Ledger.tails (h : Ledger n s) {r r' : Return Tid} (hr : r ∈ s.books.returns)
    (hr' : r' ∈ s.books.returns) (hcycle : r.cycle = r'.cycle) (hrv : r.rv = taillight)
    (hrv' : r'.rv = taillight) : r.thread = r'.thread := by
  obtain ⟨c, hc, -⟩ := h.early hr
  have hlast := (h.tail_iff hr hc).mp hrv
  have hlast' := (h.tail_iff hr' (hcycle ▸ hc)).mp hrv'
  exact Option.some.inj (hlast.symm.trans hlast')

/-- With every call of a complete cycle over, that of the last thread is. -/
theorem Ledger.tail_exists (h : Ledger n s) (hn : 1 ≤ n) (hfull : (s.books.calls c).length = n)
    (hover : ∀ t ∈ s.books.calls c, ∃ r ∈ s.books.returns, r.thread = t ∧ r.cycle = some c) :
    ∃ r ∈ s.books.returns, r.cycle = some c ∧ r.rv = taillight := by
  obtain ⟨t, ts, hcalls⟩ := List.exists_cons_of_length_pos (l := s.books.calls c) (by omega)
  obtain ⟨r, hr, hthread, hcycle⟩ := hover t (by simp [hcalls])
  exact ⟨r, hr, hcycle, (h.tail_iff hr hcycle).mpr (by simp [hcalls, hthread])⟩

end Ngpt.Sync.Barrier
