import Ngpt.Sync.RwlockInv

/-!
# ngpt — what read/write locks guarantee

`rw_mutex_rw` belongs to the first reader, also after that reader has left. Two
things go wrong from there. The last reader to leave is told `EPERM` if it is not the
first one that entered (`last_reader_eperm`). And a first reader that exits, having
released everything it acquired, takes `rw_mutex_rw` with it, so that a writer comes in
while others read (`exit_admits_writer`).

Results: `rwlock_exclusion`, `rwlock_release`.
-/

namespace Ngpt.Sync.Rwlock

open Transition

variable {Tid D : Type} {s s' : State Tid D} {t : Tid} {φ : Phase} {ms : Sys RwMutex Tid D} {p : Pc}
  {c : Sync.Pc RwMutex} {r : Nat} {md : Mode} {rd wr : List Tid}

/-! ## Exclusion -/

/-- A thread that holds the lock for writing is the only holder. -/
def Exclusive (s : State Tid D) : Prop :=
  ∀ t u, t ∈ s.writing → u ∈ s.reading ∨ u ∈ s.writing → u = t

theorem Inv.exclusive (hI : Inv s) : Exclusive s := by
  intro t u ht hu
  have hW : s.Writer t := Or.inl ht
  rcases hu with hu | hu
  · exact absurd hW ((hI.ok.shared (Or.inl (List.ne_nil_of_mem hu))).2 t)
  · exact Option.some.inj (((hI.owns u).rw (Or.inl hu)).symm.trans ((hI.owns t).rw hW))

/--
**Exclusion.** For any number of threads and every interleaving of acquires, releases
and exits, in which no thread exits while it owns `rw_mutex_rw`, a thread that holds
the lock for writing is the only one that holds it.
-/
theorem rwlock_exclusion [DecidableEq Tid] [DecidableEq D] (s : State Tid D)
    (hs : Reachable State.step ExitsClean Initial s) : Exclusive s := by
  have hI : Inv s :=
    hs.invariant (fun s h => h.inv) fun s a s' hI hok hstep => step_inv hI hok hstep
  exact hI.exclusive

/-- A lock just initialised. -/
def initState : State Nat Unit :=
  { mutexes := initSys .timedNp, initialized := true, readers := 0, mode := .rd
    pc := fun _ => .idle, reading := [], writing := [] }

theorem initState_initial : Initial initState := by
  refine ⟨initSys_initial .timedNp, fun _ => rfl, rfl, rfl, fun _ => rfl, rfl, rfl⟩

/-- The steps of an acquire for reading by `t`, without contention. -/
def acquireRd (t : Nat) (first : Bool) : List (Action Nat Unit) :=
  [.acquire t .rd false false false, .mutex t true, .cont t] ++
    (if first then [.mutex t true, .cont t] else []) ++
    [.cont t, .mutex t true, .mutex t true, .mutex t true, .cont t]

def acquireRw (t : Nat) : List (Action Nat Unit) :=
  [.acquire t .rw false false false, .mutex t true, .cont t]

/-- The steps of a release by a reader; `last` are those of the last reader on
`rw_mutex_rw`. -/
def releaseRd (t : Nat) (last : List (Action Nat Unit)) : List (Action Nat Unit) :=
  [.release t false, .cont t, .mutex t true, .cont t] ++ last ++
    [.cont t, .mutex t true, .mutex t true, .mutex t true, .cont t]

/-- Thread 0 reads and leaves, then thread 1 writes, and thread 0 exits. -/
def readThenWrite : List (Action Nat Unit) :=
  acquireRd 0 true ++ releaseRd 0 [.mutex 0 true, .mutex 0 true, .mutex 0 true, .cont 0] ++
    acquireRw 1 ++ [.exit 0 1]

theorem rwlock_exclusion_readThenWrite :
    ∃ s : State Nat Unit, runOk State.step ExitsClean initState readThenWrite = some s ∧
      s.writing = [1] ∧ Exclusive s := by
  refine exists_and_of_any (fun _ => id) (by decide +kernel) fun s hs _ => ?_
  exact rwlock_exclusion s (reachable_of_runOk (.init initState_initial) hs)

/-- Threads 0 and 1 read, thread 0 releases the lock and exits, and thread 2 comes in to
write. -/
def exitFirst : List (Action Nat Unit) :=
  acquireRd 0 true ++ acquireRd 1 false ++ releaseRd 0 [] ++ [.exit 0 1] ++ acquireRw 2

/-- The exit of the first reader frees `rw_mutex_rw` for a writer while another thread
reads. -/
theorem exit_admits_writer :
    Initial initState ∧ ∃ s : State Nat Unit, run State.step initState exitFirst = some s ∧
      s.writing = [2] ∧ s.reading = [1] ∧ ¬ Exclusive s := by
  refine ⟨initState_initial, ?_⟩
  refine exists_and_of_any₂ (fun _ => id) (by decide +kernel) fun s _ hw hr hE => ?_
  have h := hE 2 1 (by simp [hw]) (Or.inl (by simp [hr]))
  omega

/-! ## Releases -/

/-- Every release returns 0, and the count is that of the readers whenever
`rw_mutex_rd` is free. -/
structure Releasing (s : State Tid D) : Prop where
  returns : ∀ t rc, s.pc t = .released rc → rc = .ok
  readers : s.own .rd = none → s.readers = s.reading.length

/-- A reader on its way in. -/
def Pc.entersRd : Pc → Bool
  | .lockRd _ _ _ => true
  | _ => false

/-- The condition on a step of a run without exits: a reader that counts itself in
finds room in the counter, a reader that counts down to 0 owns `rw_mutex_rw`, and a
leaving reader stores the mode while nobody holds the lock for writing. -/
def Orderly (s : State Tid D) : Action Tid D → Prop
  | .exit _ _ => False
  | .cont t =>
    ((s.pc t).entersRd = true → s.q t = .returned .ok → s.readers + 1 < Unsigned.range) ∧
    (s.pc t = .lockDec → s.q t = .returned .ok → s.readers = 1 → s.own .rw = some t) ∧
    (s.pc t = .storeDec → s.writing = [])
  | _ => True

theorem Orderly.exitsClean {a : Action Tid D} (h : Orderly s a) :
    ExitsClean s a := by
  cases a <;> first | exact trivial | exact absurd h id

/-- What holds of a thread beside `Fits`: a leaving reader is one, and no call of the mutex code
fails on its way out. The last reader owns `rw_mutex_rw` until it has given it back. -/
structure Fine (s : State Tid D) (t : Tid) (p : Pc) (q : Sync.Pc RwMutex) : Prop where
  lockDec  : p = .lockDec → t ∈ s.reading ∧ ∀ rc, q = .returned rc → rc = .ok
  last     : ∀ h, p = .unlockLast h →
    (q.releases = some .rw ∧ s.own .rw = some t) ∨ q = .returned .ok
  noUndo   : ∀ rc, p ≠ .undoDec rc
  released : ∀ rc, p = .released rc → rc = .ok

/-- What holds beside the invariant in an orderly run: the count is exact, and a writer finds
its mode. -/
structure Exact (s : State Tid D) : Prop where
  count   : s.readers = s.reading.length + s.sect.adds
  inRange : s.readers < Unsigned.range
  modeRw  : s.writing ≠ [] → s.mode = .rw
  fine    : ∀ t, Fine s t (s.pc t) (s.q t)

theorem Exact.releasing (hE : Exact s) : Releasing s := by
  refine ⟨fun t => (hE.fine t).released, fun hfree => ?_⟩
  simpa [State.sect, hfree, Phase.adds] using hE.count

/-- A place that says nothing of its own about the thread. -/
def Pc.silent : Pc → Bool
  | .lockDec | .unlockLast _ | .undoDec _ => false
  | .released rc => rc = .ok
  | _ => true

theorem Fine.of_silent (h : p.silent = true) : Fine s t p c := by
  cases p <;> constructor <;> simp_all [Pc.silent]

theorem Initial.exact (h : Initial s) : Exact s := by
  have hr := Unsigned.one_lt_range
  have hown : s.own .rd = none := by simp [State.own, Sys.own, h.mutex, pthMutexInit]
  refine ⟨by simp [State.sect, hown, h.readers, h.reading, Phase.adds], by rw [h.readers]; omega,
    by simp [h.writing], fun t => ?_⟩
  rw [h.pc t]
  exact .of_silent rfl

theorem Exact.not_writing (hI : Inv s) (hE : Exact s) (hp : s.pc t = .lockDec) : t ∉ s.writing :=
  fun hw =>
    (hI.ok.shared (Or.inl (List.ne_nil_of_mem ((hE.fine t).lockDec hp).1))).2 t (Or.inl hw)

variable [DecidableEq Tid]

instance (s : State Tid D) (a : Action Tid D) : Decidable (Orderly s a) := by
  rcases a <;> dsimp only [Orderly] <;> infer_instance

theorem Exact.turn (hE : Exact s) (hm : Moved s s' t)
    (hcount : s'.readers = s'.reading.length + s'.sect.adds) (hrange : s'.readers < Unsigned.range)
    (hmode : s'.writing ≠ [] → s'.mode = .rw) (hfine : Fine s' t (s'.pc t) (s'.q t)) :
    Exact s' := by
  refine ⟨hcount, hrange, hmode, fun u => ?_⟩
  by_cases hu : u = t
  · rwa [hu]
  · rw [hm.pc u hu, hm.q u hu]
    obtain ⟨h₁, h₂, h₃, h₄⟩ := hE.fine u
    exact ⟨fun h => (h₁ h).imp_left (hm.reading u hu),
      fun h hp => (h₂ h hp).imp_left (And.imp_right (hm.rw u hu)), h₃, h₄⟩

/-- A statement outside of the section of `rw_mutex_rd`. -/
theorem Exact.outside (hI : Inv s) (hE : Exact s) (hout : (s.phase t).inside = false)
    (hw : ∀ u, u ≠ t → (u ∈ wr ↔ u ∈ s.writing)) (hmode : wr ≠ [] → md = .rw)
    (hfine : Fine s t p c) : Exact (s.upd t p c s.readers md s.reading wr) := by
  refine hE.turn (upd_moved hw fun _ _ hu => hu) ?_ hE.inRange hmode ?_
  · rw [upd_sect, if_neg (hI.rd_of_outside hout)]
    exact hE.count
  · rw [upd_pc, upd_q]
    exact ⟨hfine.lockDec, hfine.last, hfine.noUndo, hfine.released⟩

/-- A statement in the section. -/
theorem Exact.inside (hI : Inv s) (hE : Exact s) (hφ : s.phase t = φ) (hin : φ.inside = true)
    (hcount : s.readers = s.reading.length + φ.adds →
      r = rd.length + (phaseOf p c).adds ∧ r < Unsigned.range)
    (hmode : s.writing ≠ [] → md = .rw) (hrd : ∀ u, u ≠ t → u ∈ s.reading → u ∈ rd)
    (hfine : Fine (s.upd t p c r md rd s.writing) t p c) :
    Exact (s.upd t p c r md rd s.writing) := by
  have hin₀ : (s.phase t).inside = true := hφ ▸ hin
  have hold := hE.count
  rw [hI.sect_eq hin₀, hφ] at hold
  refine hE.turn (upd_moved (fun _ _ => Iff.rfl) hrd) ?_ (hcount hold).2 hmode ?_
  · rw [upd_sect, if_pos (hI.rd_of_inside hin₀)]
    exact (hcount hold).1
  · rwa [upd_pc, upd_q]

/-! ### The pieces of the mutex code -/

theorem adds_phaseOf (p : Pc) (q q' : Sync.Pc RwMutex) :
    (phaseOf p q).adds = (phaseOf p q').adds := by
  cases p <;> simp only [phaseOf] <;> repeat' split
  all_goals rfl

theorem adds_of_rd (h : p.locks = some .rd ∨ p.unlocks = some .rd) : (phaseOf p c).adds = 0 := by
  cases p <;> simp [Pc.locks, Pc.unlocks] at h <;> simp only [phaseOf] <;> split <;> rfl

theorem Exact.piece (hE : Exact s) (hm : Moved s (s.withMutexes ms) t)
    (hq : ms.pc = Function.update s.mutexes.pc t c)
    (hadds : (s.withMutexes ms).sect.adds = s.sect.adds)
    (hdec : s.pc t = .lockDec → ∀ rc, c = .returned rc → rc = .ok)
    (hlast : ∀ h, s.pc t = .unlockLast h →
      (c.releases = some .rw ∧ ms.own .rw = some t) ∨ c = .returned .ok) :
    Exact (s.withMutexes ms) := by
  obtain ⟨h₁, -, h₃, h₄⟩ := hE.fine t
  refine hE.turn hm (hadds ▸ hE.count) hE.inRange hE.modeRw ?_
  rw [withMutexes_q hq]
  exact ⟨fun hp => ⟨(h₁ hp).1, hdec hp⟩, hlast, h₃, h₄⟩

theorem adds_of_effect (hI : Inv s) (he : Effect s.mutexes t ms) :
    (s.withMutexes ms).sect.adds = s.sect.adds := by
  have hall : ∀ u, ((s.withMutexes ms).phase u).adds = (s.phase u).adds := fun u =>
    adds_phaseOf _ _ _
  have hsame : ms.own .rd = s.own .rd → (s.withMutexes ms).sect.adds = s.sect.adds := by
    intro hown
    unfold State.sect
    rw [show (s.withMutexes ms).own .rd = _ from hown]
    cases s.own .rd with
    | none => rfl
    | some u => exact hall u
  cases he with
  | got m hacq hfree hq hown =>
    cases m with
    | rd =>
      have hz : ((s.withMutexes ms).phase t).adds = 0 :=
        adds_of_rd (Or.inl ((hI.fits t).locks .rd hacq))
      have hown' : (s.withMutexes ms).own .rd = some t := by
        simp [State.own, State.withMutexes, hown]
      simpa [State.sect, hown', show s.own .rd = none from hfree, Phase.adds] using hz
    | rw => exact hsame (by simp [hown, State.own])
  | freed m hrel howner hq hown =>
    cases m with
    | rd =>
      have hz : (s.phase t).adds = 0 := adds_of_rd (Or.inr ((hI.fits t).unlocks .rd hrel))
      have hown' : (s.withMutexes ms).own .rd = none := by simp [State.own, State.withMutexes, hown]
      simpa [State.sect, hown', show s.own .rd = some t from howner, Phase.adds] using hz.symm
    | rw => exact hsame (by simp [hown, State.own])
  | waits _ _ _ _ _ _ hown | fails _ _ _ _ _ _ hown | tests _ _ _ _ _ hown | denied _ _ _ _ hown =>
    exact hsame (congrFun hown .rd)

theorem Exact.effect (hI : Inv s) (hE : Exact s) (he : Effect s.mutexes t ms) :
    Exact (s.withMutexes ms) := by
  have hadds := adds_of_effect hI he
  have hm := moved_of_effect he
  -- the last reader releases, it does not acquire
  have hacquires : ∀ m h, (s.q t).acquires = some m → s.pc t ≠ .unlockLast h := by
    intro m h hacq hp
    have hl := (hI.fits t).locks m hacq
    simp [hp, Pc.locks] at hl
  have hreleases : ∀ m h, (s.q t).releases = some m → s.pc t = .unlockLast h →
      m = .rw ∧ s.own .rw = some t := by
    intro m h hrel hp
    have hm := (hI.fits t).unlocks m hrel
    rw [hp] at hm
    rcases (hE.fine t).last h hp with ⟨-, ho⟩ | ho
    · exact ⟨(Option.some.inj hm).symm, ho⟩
    · exact absurd ho ((returned_of_releases hrel).2.2 .ok)
  cases he with
  | got m _ _ hq | freed m _ _ hq =>
    exact hE.piece hm hq hadds (fun _ rc h => (Sync.Pc.returned.inj h).symm) fun _ _ => Or.inr rfl
  | waits m c hacq hc _ hq =>
    exact hE.piece hm hq hadds (fun _ rc h => absurd h ((returned_of_acquires hc).2 rc))
      fun h hp => absurd hp (hacquires m h hacq)
  | fails m rc hacq hrc hwhy hq =>
    refine hE.piece hm hq hadds (fun hp => ?_) fun h hp => absurd hp (hacquires m h hacq)
    -- a blocking acquire without an extra event fails only for the owner
    have hl := (hI.fits t).locks m hacq
    rw [hp] at hl
    cases hl
    rcases hwhy with hf | ho
    · cases ((hI.fits t).patient hp).symm.trans hf
    · have h := (hI.owns t).rd.mp ho
      simp [State.phase, hp, phaseOf, (returned_of_acquires hacq).2 .ok, State.q, Phase.inside] at h
  | tests m c hrel hc hq hown =>
    refine hE.piece hm hq hadds (fun _ rc h => absurd h ((returned_of_releases hc).2.2 rc))
      fun h hp => ?_
    obtain ⟨rfl, ho⟩ := hreleases m h hrel hp
    exact Or.inl ⟨hc, (congrFun hown .rw).trans ho⟩
  | denied m hrel hne hq hown =>
    refine hE.piece hm hq hadds (fun hp => ?_) fun h hp => ?_
    · have hm := (hI.fits t).unlocks m hrel
      simp [hp, Pc.unlocks] at hm
    · obtain ⟨rfl, ho⟩ := hreleases m h hrel hp
      exact absurd ho hne

/-! ### The statements -/

section

variable (hI : Inv s) (hE : Exact s)
include hI hE

/-- A thread that leaves the code. -/
theorem Exact.leave (hout : (s.phase t).inside = false)
    (hp : p.silent = true) : Exact (s.goto t p) := by
  rw [goto_eq_upd]
  exact hE.outside hI hout (fun _ _ => Iff.rfl) hE.modeRw (.of_silent hp)

theorem Exact.incr (hφ : s.phase t = .plain)
    (hroom : s.readers + 1 < Unsigned.range) (hadds : (phaseOf p c).adds = 1)
    (hp : p.silent = true) :
    Exact (s.upd t p c (Unsigned.incr s.readers) s.mode s.reading s.writing) := by
  refine hE.inside hI hφ rfl (fun hc => ?_) hE.modeRw (fun _ _ hu => hu) (.of_silent hp)
  rw [Unsigned.incr_of_lt hroom, hadds, hc]
  exact ⟨rfl, hc ▸ hroom⟩

theorem Exact.dec (hp : s.pc t = .lockDec)
    (hq : s.q t = .returned .ok) (hadds : (phaseOf p c).adds = 0)
    (hfine : Fine (s.upd t p c (Unsigned.decr s.readers) s.mode (s.reading.erase t) s.writing)
      t p c) :
    Exact (s.upd t p c (Unsigned.decr s.readers) s.mode (s.reading.erase t) s.writing) := by
  have hin := ((hE.fine t).lockDec hp).1
  have hpos : 1 ≤ s.reading.length := List.length_pos_of_mem hin
  have hlt := hE.inRange
  have hφ : s.phase t = .deciding := phase_eq hp hq
  refine hE.inside hI hφ rfl (fun hc => ?_) hE.modeRw
    (fun u hu => (List.mem_erase_of_ne hu).mpr) hfine
  rw [Unsigned.decr_of_pos (by omega), hadds, List.length_erase_of_mem hin]
  simp only [Phase.adds] at hc
  omega

theorem cont_exact (hok : Orderly s (.cont t)) (h : s.cont t = some s') : Exact s' := by
  obtain ⟨hroom, hfirst, hstore⟩ := hok
  cases cont_of_cont h with
  | lockRw hp hq =>
    rw [goto_eq_upd]
    exact hE.outside hI (by rw [phase_eq hp hq]; rfl) (fun u hu => by simp [hu]) (fun _ => rfl)
      (.of_silent rfl)
  | lockRwFail hp hq hrc | lockRdFail hp hq hrc =>
    refine hE.leave hI ?_ rfl
    rw [phase_eq hp hq]
    simp [phaseOf, hrc, Phase.inside]
  | undoRd hp hq | unlockRd hp hq | unlockRw hp hq | unlockDec hp hq =>
    exact hE.leave hI (by rw [phase_eq hp hq]; rfl) rfl
  | lockRdFirst hp hq hone =>
    exact hE.incr hI (phase_eq hp hq) (hroom (by rw [hp]; rfl) hq) rfl rfl
  | lockRdNext hp hq hone =>
    simp only [goto_eq_upd, State.q, hq]
    exact hE.incr hI (phase_eq hp hq) (hroom (by rw [hp]; rfl) hq) rfl rfl
  | lockFirst hp hq =>
    rw [goto_eq_upd, show s.q t = _ from hq]
    exact hE.inside hI (phase_eq hp hq : s.phase t = .starting) rfl (fun hc => ⟨hc, hE.inRange⟩)
      hE.modeRw (fun _ _ hu => hu) (.of_silent rfl)
  | unlockLast hp hq =>
    rw [goto_eq_upd, show s.q t = _ from hq]
    exact hE.inside hI (phase_eq hp hq : s.phase t = .plain) rfl (fun hc => ⟨hc, hE.inRange⟩)
      hE.modeRw (fun _ _ hu => hu) (.of_silent rfl)
  | lockFirstFail hp hq hrc =>
    have hφ : s.phase t = .counted := by
      rw [phase_eq hp hq]
      simp [phaseOf, hrc]
    refine Exact.inside (s := s) hI hE hφ rfl (fun hc => ?_) hE.modeRw (fun _ _ hu => hu)
      (.of_silent rfl)
    have hlt := hE.inRange
    simp only [Phase.adds] at hc
    rw [Unsigned.decr_of_pos (by omega)]
    show s.readers - 1 = s.reading.length ∧ s.readers - 1 < Unsigned.range
    omega
  | storeRd hp =>
    have hφ : s.phase t = .starting := phase_eq hp rfl
    have hsect := (hI.sect_eq (hφ ▸ rfl)).trans hφ
    have hnil : s.writing = [] := List.eq_nil_iff_forall_not_mem.mpr fun u hu =>
      (hI.ok.shared (Or.inr (Or.inl hsect))).2 u (Or.inl hu)
    refine Exact.inside (s := s) hI hE hφ rfl (fun hc => ⟨hc.trans ?_, hE.inRange⟩)
      (fun h => absurd hnil h) (fun u _ hu => List.mem_cons_of_mem _ hu) (.of_silent rfl)
    rfl
  | testRw hp hmode =>
    have hφ : s.phase t = .testing := phase_eq hp rfl
    have hin := hI.writing_of_mode hφ hmode
    simp only [State.drop, State.holdOf, hin, if_true]
    exact Exact.outside (s := s) hI hE (hφ ▸ rfl) (fun u hu => List.mem_erase_of_ne hu)
      (fun _ => hmode) (.of_silent rfl)
  | testRd hp hmode =>
    have hφ : s.phase t = .testing := phase_eq hp rfl
    -- a writer would have found its mode
    have hin : t ∈ s.reading := ((hI.owns t).holds (hφ ▸ rfl)).resolve_left fun hw =>
      hmode (hE.modeRw (List.ne_nil_of_mem hw))
    exact hE.outside hI (hφ ▸ rfl) (fun _ _ => Iff.rfl) hE.modeRw
      ⟨fun _ => ⟨hin, by simp⟩, by simp, by simp, by simp⟩
  | @unlockRwFail hold rc hp hq hrc => exact absurd ((hI.fits t).back hold rc hp hq) hrc
  | lockDecLast hp hq hz =>
    have hin : (s.phase t).inside = true := by rw [phase_eq hp hq]; rfl
    have hpos : 1 ≤ s.reading.length := List.length_pos_of_mem ((hE.fine t).lockDec hp).1
    have hcount := hE.count
    rw [hI.sect_eq hin, phase_eq hp hq] at hcount
    rw [Unsigned.decr_of_pos (by omega)] at hz
    have hown := hfirst hp hq (by omega)
    simp only [State.drop, State.holdOf, hE.not_writing hI hp, if_false]
    exact hE.dec hI hp hq rfl ⟨by simp, fun _ _ => Or.inl ⟨rfl, hown⟩, by simp, by simp⟩
  | lockDecNext hp hq hz =>
    simp only [State.drop, hE.not_writing hI hp, if_false, goto_eq_upd]
    exact hE.dec hI hp hq rfl (.of_silent rfl)
  | lockDecFail hp hq hrc => exact absurd (((hE.fine t).lockDec hp).2 _ hq) hrc
  | @unlockLastFail hold rc hp hq hrc =>
    rcases (hE.fine t).last hold hp with ⟨hr, -⟩ | hr
    · rw [show s.q t = _ from hq] at hr
      cases hr
    · exact absurd (Sync.Pc.returned.inj (hq.symm.trans hr)) hrc
  | undoDec hp hq => exact absurd hp ((hE.fine t).noUndo _)
  | storeDec hp =>
    exact Exact.inside (s := s) hI hE (phase_eq hp rfl) rfl (fun hc => ⟨hc, hE.inRange⟩)
      (fun h => absurd (hstore hp) h) (fun _ _ hu => hu) (.of_silent rfl)

end

variable [DecidableEq D]

theorem step_exact {a : Action Tid D} (hI : Inv s) (hE : Exact s) (hok : Orderly s a)
    (h : s.step a = some s') : Exact s' := by
  cases a with
  | acquire t op tryonly extra bounded =>
    simp only [State.step, hI.initialized, if_true] at h
    obtain ⟨ho, h⟩ := Option.ite_none_right_eq_some.mp h
    have hout : (s.phase t).inside = false := by rw [phase_of_outside ho]; rfl
    cases op <;> cases h <;>
      exact hE.outside hI hout (fun _ _ => Iff.rfl) hE.modeRw (.of_silent rfl)
  | release t bounded =>
    simp only [State.step, hI.initialized, if_true] at h
    obtain ⟨ho, ⟨⟩⟩ := Option.ite_none_right_eq_some.mp h
    exact hE.leave hI (by rw [phase_of_outside ho.1]; rfl) rfl
  | mutex t occurred =>
    obtain ⟨ms, hgo, rfl⟩ := Option.map_eq_some_iff.mp h
    exact hE.effect hI (effect_of_go hI.plain hgo)
  | cont t => exact cont_exact hI hE hok h
  | exit t fuel => exact absurd hok id
  | natives n | bind t d | park t d =>
    cases h
    exact ⟨hE.count, hE.inRange, hE.modeRw, fun u => ⟨(hE.fine u).lockDec, (hE.fine u).last,
      (hE.fine u).noUndo, (hE.fine u).released⟩⟩

/--
**Releases.** For any number of threads, in every interleaving of acquires and releases
whose steps are orderly, every `pth_rwlock_release` returns 0, and `rw_readers` is the
number of read holds whenever `rw_mutex_rd` is free.
-/
theorem rwlock_release (s : State Tid D) (hs : Reachable State.step Orderly Initial s) :
    Releasing s := by
  have hI : Inv s ∧ Exact s := by
    refine hs.invariant (I := fun s => Inv s ∧ Exact s) ?_ ?_
    · intro s h
      exact ⟨h.inv, h.exact⟩
    · intro s a s' ⟨hI, hE⟩ hok hstep
      exact ⟨step_inv hI hok.exitsClean hstep, step_exact hI hE hok hstep⟩
  exact hI.2.releasing

/-- Threads 0 and 1 read; thread 1 leaves, and then thread 0, which came first. -/
def nested : List (Action Nat Unit) :=
  acquireRd 0 true ++ acquireRd 1 false ++ releaseRd 1 [] ++
    releaseRd 0 [.mutex 0 true, .mutex 0 true, .mutex 0 true, .cont 0]

theorem rwlock_release_nested :
    ∃ s : State Nat Unit, runOk State.step Orderly initState nested = some s ∧
      s.pc 0 = .released .ok ∧ s.pc 1 = .released .ok ∧ Releasing s := by
  refine exists_and_of_any₂ (fun _ => id) (by decide +kernel) fun s hs _ _ => ?_
  exact rwlock_release s (reachable_of_runOk (.init initState_initial) hs)

/-- Threads 0 and 1 read, and thread 0, which came first, leaves first. -/
def firstLeaves : List (Action Nat Unit) :=
  acquireRd 0 true ++ acquireRd 1 false ++ releaseRd 0 [] ++
    releaseRd 1 [.mutex 1 true, .mutex 1 true]

/-- The last reader holds the lock, and its release returns `EPERM`. -/
theorem last_reader_eperm :
    Initial initState ∧ ∃ s : State Nat Unit, run State.step initState firstLeaves = some s ∧
      s.pc 1 = .released .eperm ∧ s.reading = [1] ∧ ¬ Releasing s := by
  refine ⟨initState_initial, ?_⟩
  refine exists_and_of_any₂ (fun _ => id) (by decide +kernel) fun s _ hpc _ hR => ?_
  cases hR.returns 1 .eperm hpc

end Ngpt.Sync.Rwlock
