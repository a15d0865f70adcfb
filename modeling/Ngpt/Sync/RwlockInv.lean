import Ngpt.Sync.Rwlock

/-!
# ngpt — the invariant of a read/write lock

The invariant holds in every run in which no thread exits while it owns
`rw_mutex_rw`, also in runs in which a release fails or the count of readers wraps
around. It says who owns the two mutexes, that `rw_mutex_rw` stays locked while there
are readers, and what the count stands for. The count may be one too low for ever: a
writer that finds `rw_mode` at `PTH_RWLOCK_RD` leaves through the branch of the
readers. Nobody gets `rw_mutex_rw` after that.
-/

namespace Ngpt.Sync.Rwlock

open Function Transition

variable {Tid D : Type}

/-! ## What a place in the code means -/

/-- The mutex that a place acquires. -/
def Pc.locks : Pc → Option RwMutex
  | .lockRw | .lockFirst => some .rw
  | .lockRd _ _ _ | .lockDec => some .rd
  | _ => none

/-- The mutex that a place releases. -/
def Pc.unlocks : Pc → Option RwMutex
  | .unlockRw _ | .unlockLast _ => some .rw
  | .undoRd _ | .unlockRd | .undoDec _ | .unlockDec => some .rd
  | _ => none

/-- The mutex code is at `q` on behalf of the place `p`. A writer gets `rw_mutex_rw`
released, and only a reader is the last one. -/
structure Fits (p : Pc) (q : Sync.Pc RwMutex) : Prop where
  locks   : ∀ m, q.acquires = some m → p.locks = some m
  unlocks : ∀ m, q.releases = some m → p.unlocks = some m
  patient : p = .lockDec → q.mayFail = false
  back    : ∀ h rc, p = .unlockRw h → q = .returned rc → rc = .ok
  last    : ∀ h, p = .unlockLast h → h = .rd

/-- What a thread is about. -/
inductive Phase where
  | out
  /-- owns `rw_mutex_rw` as a writer, just before or just after its hold -/
  | writer
  /-- holds the lock and is going to release it, before and after the test of `rw_mode` -/
  | testing
  | waiting
  /-- owns `rw_mutex_rd`; is going to count itself out; has counted itself in; is about to
  become a reader; was the last reader and has not given `rw_mutex_rw` back -/
  | plain
  | deciding
  | counted
  | starting
  | ending
  deriving DecidableEq

/-- The thread owns `rw_mutex_rd`. -/
def Phase.inside : Phase → Bool
  | .plain | .deciding | .counted | .starting | .ending => true
  | _ => false

/-- The thread owns neither mutex on behalf of the lock. -/
def Phase.apart : Phase → Bool
  | .out | .testing | .waiting => true
  | _ => false

def Phase.leaves : Phase → Bool
  | .testing | .waiting | .deciding => true
  | _ => false

/-- What the owner of `rw_mutex_rd` has added to the count for a hold that has not
begun. -/
def Phase.adds : Phase → Nat
  | .counted | .starting => 1
  | _ => 0

def phaseOf (p : Pc) (q : Sync.Pc RwMutex) : Phase :=
  match p with
  | .lockRw => if q = .returned .ok then .writer else .out
  | .lockRd _ _ _ => if q = .returned .ok then .plain else .out
  | .lockFirst => if q = .returned .ok then .starting else .counted
  | .storeRd => .starting
  | .test _ => .testing
  | .lockDec => if q = .returned .ok then .deciding else .waiting
  | .unlockLast _ => if q = .returned .ok then .plain else .ending
  | .storeDec => .plain
  | .undoRd _ | .unlockRd | .undoDec _ | .unlockDec =>
    if q.releases = some .rd then .plain else .out
  | .unlockRw _ => if q.releases = some .rw then .writer else .out
  | .idle | .acquired _ | .released _ | .exited => .out

/-! ## Readers, count and mode -/

/-- The count `r` stands for `n` readers and `a` more to come, or is one too low. -/
def Counts (r n a : Nat) (starting shared : Prop) : Prop :=
  (r = (n + a) % Unsigned.range ∧ n ≤ Unsigned.range ∧ (starting → n < Unsigned.range)) ∨
  (r = (n + a + (Unsigned.range - 1)) % Unsigned.range ∧ n ≤ 1 ∧ (starting → n = 0) ∧ shared)

section Counts

variable {r n a : Nat} {st sh : Prop}

theorem Counts.mono {st' sh' : Prop} (hst : st' → st) (hsh : sh → sh') (h : Counts r n a st sh) :
    Counts r n a st' sh' := by
  rcases h with ⟨hr, hle, hlt⟩ | ⟨hr, hle, hz, hs⟩
  · exact Or.inl ⟨hr, hle, fun h => hlt (hst h)⟩
  · exact Or.inr ⟨hr, hle, fun h => hz (hst h), hsh hs⟩

theorem Counts.of_not (h : Counts r n a st sh) (hsh : ¬ sh) : r = (n + a) % Unsigned.range := by
  rcases h with ⟨hr, -⟩ | ⟨-, -, -, hs⟩
  · exact hr
  · exact absurd hs hsh

theorem Counts.incr (h : Counts r n a st sh) : Counts (Unsigned.incr r) n (a + 1) st sh := by
  refine h.imp (fun ⟨hr, hrest⟩ => ⟨?_, hrest⟩) fun ⟨hr, hrest⟩ => ⟨?_, hrest⟩
  · rw [hr, Unsigned.incr_mod, Nat.add_assoc]
  · rw [hr, Unsigned.incr_mod]
    congr 1
    omega

theorem Counts.decr (h : Counts r n (a + 1) st sh) : Counts (Unsigned.decr r) n a st sh := by
  refine h.imp (fun ⟨hr, hrest⟩ => ⟨?_, hrest⟩) fun ⟨hr, hrest⟩ => ⟨?_, hrest⟩
  · rw [hr, Unsigned.decr_mod (by omega), ← Nat.add_assoc, Nat.add_sub_cancel]
  · rw [hr, Unsigned.decr_mod (by omega)]
    congr 1
    omega

/-- The next reader finds readers, or a count that is one too low. -/
theorem Counts.next (hr : r ≠ 0) (h : Counts r n 0 st sh) :
    Counts (Unsigned.incr r) n 1 True sh ∧ (n ≠ 0 ∨ sh) := by
  rcases h with ⟨hx, hle, -⟩ | ⟨hx, hle, -, hs⟩
  · have hlt : n < Unsigned.range ∧ n ≠ 0 := by
      simp only [Unsigned.range] at *
      omega
    exact ⟨Or.inl ⟨by rw [hx, Unsigned.incr_mod], hle, fun _ => hlt.1⟩, Or.inl hlt.2⟩
  · have hz : n = 0 := by
      simp only [Unsigned.range] at *
      omega
    refine ⟨Or.inr ⟨?_, hle, fun _ => hz, hs⟩, Or.inr hs⟩
    rw [hx, Unsigned.incr_mod]
    congr 1
    omega

theorem Counts.store (h : Counts r n 1 True sh) : Counts r (n + 1) 0 False sh := by
  rcases h with ⟨hr, -, hlt⟩ | ⟨hr, -, hz, hs⟩
  · exact Or.inl ⟨hr, hlt trivial, False.elim⟩
  · have hz := hz trivial
    exact Or.inr ⟨hr, by omega, False.elim, hs⟩

theorem Counts.drop (hn : 1 ≤ n) (h : Counts r n 0 st sh) :
    Counts (Unsigned.decr r) (n - 1) 0 True sh := by
  refine h.imp (fun ⟨hr, hle, _⟩ => ⟨?_, by omega, fun _ => by omega⟩)
    fun ⟨hr, hle, _, hs⟩ => ⟨?_, by omega, fun _ => by omega, hs⟩
  · rw [hr, Unsigned.decr_mod (by omega)]
    rfl
  · rw [hr, Unsigned.decr_mod (by omega)]
    congr 1
    omega

end Counts

/-- The readers `rd`, the count `r` and the mode, while the owner of `rw_mutex_rd` is in the phase
`φ`. With readers `rw_mutex_rw` is locked, and not by a writer (`sh`). -/
structure Ok (φ : Phase) (sh : Prop) (r : Nat) (md : Mode) (rd : List Tid) : Prop where
  shared : rd ≠ [] ∨ φ = .starting ∨ φ = .ending → sh
  modeRd : rd ≠ [] ∨ φ = .ending → md = .rd
  last   : φ = .ending → rd = [] ∧ r = 0
  counts : Counts r rd.length φ.adds (φ = .starting) sh

section Ok

variable {φ ψ : Phase} {sh : Prop} {r : Nat} {md : Mode} {rd : List Tid} {t : Tid}

theorem Ok.mono {sh' : Prop} (h : Ok φ sh r md rd) (hsh : sh → sh') : Ok φ sh' r md rd :=
  ⟨fun hr => hsh (h.shared hr), h.modeRd, h.last, h.counts.mono id hsh⟩

theorem Ok.no_readers (h : Ok φ sh r md rd) (hsh : ¬ sh) :
    rd = [] ∧ φ ≠ .starting ∧ φ ≠ .ending ∧ r = φ.adds % Unsigned.range := by
  have hnot := mt h.shared hsh
  simp only [not_or, ne_eq, not_not] at hnot
  have hc := h.counts.of_not hsh
  rw [hnot.1, List.length_nil, Nat.zero_add] at hc
  exact ⟨hnot.1, hnot.2.1, hnot.2.2, hc⟩

/-- Nothing depends on the mode without readers, or on `rw_mutex_rw`. -/
theorem Ok.of_no_readers (hnil : rd = []) (hφ : φ ≠ .starting ∧ φ ≠ .ending)
    (hr : r = φ.adds % Unsigned.range) : Ok φ sh r md rd := by
  subst hnil
  exact ⟨by simp [hφ], by simp [hφ], by simp [hφ],
    Or.inl ⟨by simpa using hr, by simp, by simp [hφ]⟩⟩

/-- `rw_mutex_rd` gets or loses its owner. -/
theorem Ok.change (h : Ok φ sh r md rd) (hφ : φ.adds = 0) (hψ : ψ.adds = 0) (hends : ψ ≠ .ending) :
    Ok ψ sh r md rd := by
  have hstarts : ψ ≠ .starting := by
    rintro rfl
    cases hψ
  have hc := h.counts
  rw [hφ] at hc
  exact ⟨fun hr => h.shared (Or.inl (by simpa [hstarts, hends] using hr)),
    fun hr => h.modeRd (Or.inl (by simpa [hends] using hr)), fun he => absurd he hends,
    hψ ▸ hc.mono (fun hs => absurd hs hstarts) id⟩

theorem Ok.first (h : Ok .plain sh r md rd) : Ok .counted sh (Unsigned.incr r) md rd :=
  ⟨fun hr => h.shared (by simpa using hr), fun hr => h.modeRd (by simpa using hr), by simp,
    h.counts.incr.mono (by simp) id⟩

theorem Ok.next (h : Ok .plain sh r md rd) (hne : Unsigned.incr r ≠ 1) :
    Ok .starting sh (Unsigned.incr r) md rd := by
  have hpos : r ≠ 0 := by
    rintro rfl
    exact hne (Unsigned.incr_of_lt Unsigned.one_lt_range)
  obtain ⟨hc, hsome⟩ := h.counts.next hpos
  refine ⟨fun _ => ?_, fun hr => h.modeRd (by simpa using hr), by simp,
    hc.mono (fun _ => trivial) id⟩
  rcases hsome with hn | hs
  · exact h.shared (Or.inl fun hnil => hn (by rw [hnil]; rfl))
  · exact hs

theorem Ok.undo (h : Ok .counted sh r md rd) : Ok .plain sh (Unsigned.decr r) md rd :=
  ⟨fun hr => h.shared (by simpa using hr), fun hr => h.modeRd (by simpa using hr), by simp,
    h.counts.decr.mono (by simp) id⟩

theorem Ok.gotFirst (h : Ok .counted sh r md rd) (hsh : ¬ sh) : Ok .starting True r md rd := by
  have hrange := Unsigned.one_lt_range
  obtain ⟨rfl, -, -, hr⟩ := h.no_readers hsh
  exact ⟨fun _ => trivial, by simp, by simp,
    Or.inl ⟨by simpa [Phase.adds] using hr, by simp, by simp; omega⟩⟩

theorem Ok.storeRd (h : Ok .starting sh r md rd) : Ok .plain sh r .rd (t :: rd) :=
  ⟨fun _ => h.shared (by simp), by simp, by simp,
    (h.counts.mono (fun _ => rfl) id).store.mono (by simp) id⟩

theorem Ok.storeDec (h : Ok .plain sh r md rd) : Ok .plain sh r .rd rd :=
  ⟨h.shared, by simp, by simp, h.counts⟩

/-- A reader counts itself out. -/
theorem Ok.dec [DecidableEq Tid] (h : Ok .deciding sh r md rd) (hin : t ∈ rd)
    (hφ : φ = .plain ∨ φ = .ending ∧ Unsigned.decr r = 0) :
    Ok φ sh (Unsigned.decr r) md (rd.erase t) := by
  have hne : rd ≠ [] := List.ne_nil_of_mem hin
  have hlen : (rd.erase t).length = rd.length - 1 := List.length_erase_of_mem hin
  have hc := h.counts.drop (List.length_pos_of_mem hin)
  rw [← hlen] at hc
  refine ⟨fun _ => h.shared (Or.inl hne), fun _ => h.modeRd (Or.inl hne), ?_, ?_⟩
  · rintro rfl
    have hz := (hφ.resolve_left (by simp)).2
    refine ⟨List.length_eq_zero_iff.mp ?_, hz⟩
    rcases hc with ⟨hc, -, hlt⟩ | ⟨-, -, hzero, -⟩
    · rw [hz, Nat.add_zero, Nat.mod_eq_of_lt (hlt trivial)] at hc
      exact hc.symm
    · exact hzero trivial
  · rcases hφ with rfl | ⟨rfl, -⟩ <;> exact hc.mono (fun _ => trivial) id

/-- The release of the last reader fails. -/
theorem Ok.restore (h : Ok .ending sh r md rd) : Ok .plain sh (Unsigned.incr r) md (t :: rd) := by
  have hrange := Unsigned.one_lt_range
  obtain ⟨rfl, rfl⟩ := h.last rfl
  refine ⟨fun _ => h.shared (by simp), fun _ => h.modeRd (by simp), by simp,
    Or.inl ⟨?_, ?_, by simp⟩⟩
  · rw [Unsigned.incr_of_lt hrange]
    exact (Nat.mod_eq_of_lt hrange).symm
  · rw [List.length_singleton]
    omega

/-- A writer leaves through the branch of the readers. -/
theorem Ok.decWriter (h : Ok .deciding sh r md rd) (hsh : ¬ sh) :
    Unsigned.decr r ≠ 0 ∧ Ok .plain True (Unsigned.decr r) md rd := by
  have hrange := Unsigned.one_lt_range
  obtain ⟨rfl, -, -, hr⟩ := h.no_readers hsh
  have hdecr : Unsigned.decr r = Unsigned.range - 1 := by simp [hr, Phase.adds, Unsigned.decr]
  refine ⟨by omega, by simp, by simp, by simp, Or.inr ⟨?_, by simp, by simp, trivial⟩⟩
  simp only [hdecr, List.length_nil, Phase.adds, Nat.zero_add]
  exact (Nat.mod_eq_of_lt (by omega)).symm

end Ok

/-! ## The invariant -/

namespace State

def own (s : State Tid D) (m : RwMutex) : Option Tid := s.mutexes.own m

def q (s : State Tid D) (t : Tid) : Sync.Pc RwMutex := s.mutexes.pc t

def phase (s : State Tid D) (t : Tid) : Phase := phaseOf (s.pc t) (s.q t)

/-- The phase of the owner of `rw_mutex_rd`. -/
def sect (s : State Tid D) : Phase := (s.own .rd).elim .out s.phase

/-- A thread that has `rw_mutex_rw` for itself. -/
def Writer (s : State Tid D) (t : Tid) : Prop := t ∈ s.writing ∨ s.phase t = .writer

/-- `rw_mutex_rw` is locked, and not by a writer. -/
def Shared (s : State Tid D) : Prop := s.own .rw ≠ none ∧ ∀ t, ¬ s.Writer t

end State

/-- What a thread has in its phase. -/
structure Own (s : State Tid D) (t : Tid) (φ : Phase) : Prop where
  rd    : s.own .rd = some t ↔ φ.inside = true
  rw    : t ∈ s.writing ∨ φ = .writer → s.own .rw = some t
  fresh : φ = .writer → t ∉ s.writing
  holds : φ.leaves = true → t ∈ s.writing ∨ t ∈ s.reading

structure Inv (s : State Tid D) : Prop where
  plain       : Plain s.mutexes
  initialized : s.initialized = true
  fits        : ∀ t, Fits (s.pc t) (s.q t)
  owns        : ∀ t, Own s t (s.phase t)
  nodup       : s.writing.Nodup
  ok          : Ok s.sect s.Shared s.readers s.mode s.reading

variable {s s' : State Tid D} {t u : Tid} {φ : Phase} {p : Pc} {c : Sync.Pc RwMutex} {m : RwMutex}
  {r : Nat} {md : Mode} {rd wr : List Tid} {rc : Errno} {tryonly extra bounded : Bool}
  {ms : Sys RwMutex Tid D} {o : Option Tid} {q : Sync.Pc RwMutex}

theorem Inv.rd_of_inside (hI : Inv s) (h : (s.phase t).inside = true) : s.own .rd = some t :=
  (hI.owns t).rd.mpr h

theorem Inv.rd_of_outside (hI : Inv s) (h : (s.phase t).inside = false) : s.own .rd ≠ some t :=
  fun hr => by simp [(hI.owns t).rd.mp hr] at h

theorem Inv.sect_eq (hI : Inv s) (h : (s.phase t).inside = true) : s.sect = s.phase t := by
  simp [State.sect, hI.rd_of_inside h]

theorem Inv.writing_of_mode (hI : Inv s) (hφ : s.phase t = .testing) (hmode : s.mode = .rw) :
    t ∈ s.writing := by
  refine ((hI.owns t).holds (hφ ▸ rfl)).resolve_right fun hr => ?_
  cases hmode.symm.trans (hI.ok.modeRd (Or.inl (List.ne_nil_of_mem hr)))

/-- `t` has made a step, and the others are where they were. -/
structure Moved (s s' : State Tid D) (t : Tid) : Prop where
  pc      : ∀ u, u ≠ t → s'.pc u = s.pc u
  q       : ∀ u, u ≠ t → s'.q u = s.q u
  rd      : ∀ u, u ≠ t → (s'.own .rd = some u ↔ s.own .rd = some u)
  rw      : ∀ u, u ≠ t → s.own .rw = some u → s'.own .rw = some u
  writing : ∀ u, u ≠ t → (u ∈ s'.writing ↔ u ∈ s.writing)
  reading : ∀ u, u ≠ t → u ∈ s.reading → u ∈ s'.reading

theorem Moved.phase (h : Moved s s' t) (hu : u ≠ t) : s'.phase u = s.phase u := by
  simp only [State.phase, h.pc u hu, h.q u hu]

/-- The state after a piece of the mutex code. -/
def State.withMutexes (s : State Tid D) (ms : Sys RwMutex Tid D) : State Tid D :=
  { s with mutexes := ms }

/-- The owners and the phases are as they were. -/
theorem Inv.same (hI : Inv s) (hP : Plain ms) (hown : (s.withMutexes ms).own = s.own)
    (hφ : (s.withMutexes ms).phase = s.phase) (hfits : ∀ u, Fits (s.pc u) (ms.pc u)) :
    Inv (s.withMutexes ms) := by
  have hW : (s.withMutexes ms).Writer = s.Writer := by
    funext u
    rw [State.Writer, hφ]
    rfl
  refine ⟨hP, hI.initialized, hfits, fun u => ?_, hI.nodup, ?_⟩
  · obtain ⟨h₁, h₂, h₃, h₄⟩ := hI.owns u
    rw [hφ]
    exact ⟨by rwa [hown], by rwa [hown], h₃, h₄⟩
  · rw [State.sect, State.Shared, hown, hφ, hW]
    exact hI.ok

theorem Inv.env {mem : Mem RwMutex Tid D} (hI : Inv s) (hsame : Same s.mutexes.mem mem) :
    Inv (s.withMutexes { s.mutexes with mem := mem }) :=
  hI.same (hI.plain.of_same hsame (hI.plain.inv.env hsame)) (own_of_same hsame) rfl hI.fits

theorem Initial.inv (h : Initial s) : Inv s := by
  have hown : ∀ m, s.own m = none := by
    intro m
    simp [State.own, Sys.own, h.mutex m, pthMutexInit]
  have hq : ∀ t, s.q t = .idle := h.mutexes.pc
  have hφ : ∀ t, s.phase t = .out := fun t => by simp [State.phase, h.pc, phaseOf]
  have hplain : Plain s.mutexes := by
    refine ⟨h.mutexes.inv, fun m => ?_, fun m => ?_, fun m t => ?_⟩ <;>
      simp [h.mutex m, h.mutexes.held, pthMutexInit]
  refine ⟨hplain, h.initialized, fun t => ?_, fun t => ?_, by simp [h.writing],
    .of_no_readers h.reading ?_ ?_⟩
  · rw [hq t, h.pc t]
    constructor <;> simp [Sync.Pc.acquires, Sync.Pc.wants, Sync.Pc.releases]
  · rw [hφ t]
    constructor <;> simp [hown, h.writing, Phase.inside, Phase.leaves]
  all_goals simp [State.sect, hown, h.readers, Phase.adds]

theorem phase_eq (hp : s.pc t = p) (hq : s.mutexes.pc t = c) : s.phase t = phaseOf p c := by
  rw [State.phase, hp, State.q, hq]

theorem phase_of_outside (h : (s.pc t).outside = true) : s.phase t = .out := by
  unfold State.phase
  cases hp : s.pc t <;> rw [hp] at h <;> first | rfl | cases h

/-- A thread outside the code is in no mutex call. -/
theorem Inv.q_of_outside (hI : Inv s) (h : (s.pc t).outside = true) (hp : p.unlocks = none) :
    (∀ m, s.q t ≠ .releaseLock m) ∧ Fits p (s.q t) := by
  obtain ⟨h₁, h₂, -⟩ := hI.fits t
  have hnone : (s.pc t).locks = none ∧ (s.pc t).unlocks = none := by
    cases hq : s.pc t <;> rw [hq] at h <;> first | exact ⟨rfl, rfl⟩ | cases h
  rw [hnone.1] at h₁
  rw [hnone.2] at h₂
  have hno : ∀ h, p ≠ .unlockRw h ∧ p ≠ .unlockLast h := by
    intro h
    constructor <;> rintro rfl <;> cases hp
  cases hq : s.q t <;> simp_all [Sync.Pc.acquires, Sync.Pc.wants, Sync.Pc.releases] <;>
    exact ⟨by simp [Sync.Pc.acquires, Sync.Pc.wants], by simp [Sync.Pc.releases], fun _ => rfl,
      fun h _ hh => absurd hh (hno h).1, fun h hh => absurd hh (hno h).2⟩

variable [DecidableEq Tid]

/-- **A step of `t`.** -/
theorem Inv.turn (hI : Inv s) (hm : Moved s s' t) (hP : Plain s'.mutexes)
    (hi : s'.initialized = s.initialized) (hfits : Fits (s'.pc t) (s'.q t))
    (hown : Own s' t (s'.phase t)) (hnodup : s'.writing.Nodup)
    (hok : Ok s'.sect s'.Shared s'.readers s'.mode s'.reading) : Inv s' := by
  refine ⟨hP, hi.trans hI.initialized, fun u => ?_, fun u => ?_, hnodup, hok⟩ <;>
    by_cases hu : u = t
  · rwa [hu]
  · rw [hm.pc u hu, hm.q u hu]
    exact hI.fits u
  · rwa [hu]
  · rw [hm.phase hu]
    obtain ⟨h₁, h₂, h₃, h₄⟩ := hI.owns u
    refine ⟨(hm.rd u hu).trans h₁, fun hw => hm.rw u hu (h₂ ?_), ?_, fun hl => ?_⟩
    · rwa [← hm.writing u hu]
    · rwa [hm.writing u hu]
    · exact (h₄ hl).imp (hm.writing u hu).mpr (hm.reading u hu)

theorem sect_of_phase (hφ : ∀ u, u ≠ t → s'.phase u = s.phase u) (hrd : s'.own .rd = s.own .rd) :
    s'.sect = if s.own .rd = some t then s'.phase t else s.sect := by
  unfold State.sect
  rw [hrd]
  cases s.own .rd with
  | none => rfl
  | some u =>
    by_cases hu : u = t
    · simp [hu]
    · simp [hu, hφ u hu]

theorem Moved.shared (hm : Moved s s' t) (hrw : s'.own .rw = s.own .rw)
    (hW : s'.Writer t ↔ s.Writer t) : s'.Shared = s.Shared := by
  have hall : ∀ u, s'.Writer u ↔ s.Writer u := fun u => by
    by_cases hu : u = t
    · rwa [hu]
    · simp only [State.Writer, hm.writing u hu, hm.phase hu]
  simp only [State.Shared, hrw, hall]

/-! ## The statements -/

/-- The state after a statement of `t`. -/
def State.upd (s : State Tid D) (t : Tid) (p : Pc) (c : Sync.Pc RwMutex) (r : Nat) (md : Mode)
    (rd wr : List Tid) : State Tid D :=
  { s with
    mutexes := s.mutexes.goto t c, pc := update s.pc t p, readers := r, mode := md
    reading := rd, writing := wr }

theorem goto_eq_upd (s : State Tid D) (t : Tid) (p : Pc) :
    s.goto t p = s.upd t p (s.q t) s.readers s.mode s.reading s.writing := by
  simp [State.goto, State.upd, State.q, Sys.goto]

theorem upd_pc : (s.upd t p c r md rd wr).pc t = p := update_self ..

theorem upd_q : (s.upd t p c r md rd wr).q t = c := update_self ..

theorem upd_phase : (s.upd t p c r md rd wr).phase t = phaseOf p c := by
  rw [State.phase, upd_pc, upd_q]

theorem upd_sect : (s.upd t p c r md rd wr).sect =
    if s.own .rd = some t then phaseOf p c else s.sect := by
  rw [← upd_phase (s := s)]
  exact sect_of_phase (fun u hu => by simp [State.phase, State.q, State.upd, Sys.goto, hu]) rfl

theorem upd_writer : (s.upd t p c r md rd wr).Writer t ↔ t ∈ wr ∨ phaseOf p c = .writer := by
  rw [State.Writer, upd_phase]
  rfl

theorem upd_moved (hw : ∀ u, u ≠ t → (u ∈ wr ↔ u ∈ s.writing))
    (hr : ∀ u, u ≠ t → u ∈ s.reading → u ∈ rd) : Moved s (s.upd t p c r md rd wr) t :=
  ⟨fun _ hu => update_of_ne hu _ _, fun _ hu => update_of_ne hu _ _, fun _ _ => Iff.rfl,
    fun _ _ h => h, hw, hr⟩

theorem Fits.returned (hback : ∀ h, p = .unlockRw h → rc = .ok)
    (hlast : ∀ h, p = .unlockLast h → h = .rd) : Fits p (.returned rc) :=
  ⟨by simp [Sync.Pc.acquires, Sync.Pc.wants], by simp [Sync.Pc.releases], fun _ => rfl,
    fun h _ hp hrc => Sync.Pc.returned.inj hrc ▸ hback h hp, hlast⟩

theorem Fits.idle (hp : p.unlocks = none) : Fits p (.returned rc) := by
  refine .returned (fun h hh => ?_) fun h hh => ?_ <;> simp [hh, Pc.unlocks] at hp

theorem Fits.acquire (hp : p.locks = some m) (hpat : p = .lockDec → (tryonly || extra) = false) :
    Fits p (.acquire m tryonly extra bounded) := by
  refine ⟨fun _ hk => hp.trans hk, by simp [Sync.Pc.releases], hpat, by simp, fun h hh => ?_⟩
  simp [hh, Pc.locks] at hp

theorem Fits.release (hp : p.unlocks = some m) (hlast : ∀ h, p = .unlockLast h → h = .rd) :
    Fits p (.releaseState m) :=
  ⟨by simp [Sync.Pc.acquires, Sync.Pc.wants], fun _ hk => hp.trans hk, fun _ => rfl, by simp, hlast⟩

theorem Fits.releaseRd (hp : p.unlocks = some .rd) : Fits p (.releaseState .rd) :=
  .release hp fun h hh => by simp [hh, Pc.unlocks] at hp

theorem Phase.of_apart (h : φ.apart = true) : φ.inside = false ∧ φ ≠ .writer := by
  cases φ <;> simp_all [Phase.apart, Phase.inside]

/-- A statement outside of the section of `rw_mutex_rd`, by a thread that is no writer. -/
theorem Inv.outside (hI : Inv s) (hφ : s.phase t = φ) (hcall : ∀ m, c ≠ .releaseLock m)
    (hfits : Fits p c) (hapart : φ.apart = true ∧ (phaseOf p c).apart = true)
    (hholds : (phaseOf p c).leaves = false ∨ t ∈ s.writing ∨ t ∈ s.reading) :
    Inv (s.upd t p c s.readers s.mode s.reading s.writing) := by
  obtain ⟨hout, hw⟩ := Phase.of_apart hapart.1
  obtain ⟨hout', hw'⟩ := Phase.of_apart hapart.2
  have hm : Moved s (s.upd t p c s.readers s.mode s.reading s.writing) t :=
    upd_moved (fun _ _ => Iff.rfl) fun _ _ hu => hu
  have hrd := hI.rd_of_outside (hφ ▸ hout)
  refine hI.turn hm (hI.plain.goto hcall) rfl ?_ ?_ hI.nodup ?_
  · rwa [upd_pc, upd_q]
  · rw [upd_phase]
    refine ⟨iff_of_false hrd (by simp [hout']),
      fun h => (hI.owns t).rw (Or.inl (h.resolve_right hw')),
      fun h => absurd h hw', fun h => hholds.resolve_left ?_⟩
    simp [h]
  · rw [upd_sect, if_neg hrd, hm.shared rfl]
    · exact hI.ok
    · rw [upd_writer]
      simp only [State.Writer, hφ, hw, hw', or_false]

/-- A statement in the section. -/
theorem Inv.inside (hI : Inv s) (hφ : s.phase t = φ) (hcall : ∀ m, c ≠ .releaseLock m)
    (hfits : Fits p c) (hin : φ.inside = true ∧ (phaseOf p c).inside = true)
    (hl : (phaseOf p c).leaves = false) (hr : ∀ u, u ≠ t → u ∈ s.reading → u ∈ rd)
    (hok : Ok φ s.Shared s.readers s.mode s.reading → Ok (phaseOf p c) s.Shared r md rd) :
    Inv (s.upd t p c r md rd s.writing) := by
  have hm : Moved s (s.upd t p c r md rd s.writing) t := upd_moved (fun _ _ => Iff.rfl) hr
  have hin₀ : (s.phase t).inside = true := hφ ▸ hin.1
  have hrd := hI.rd_of_inside hin₀
  have hw : ∀ ψ : Phase, ψ.inside = true → ψ ≠ .writer := by
    rintro ψ hψ rfl
    cases hψ
  refine hI.turn hm (hI.plain.goto hcall) rfl ?_ ?_ hI.nodup ?_
  · rwa [upd_pc, upd_q]
  · rw [upd_phase]
    exact ⟨iff_of_true hrd hin.2,
      fun h => (hI.owns t).rw (Or.inl (h.resolve_right (hw _ hin.2))),
      fun h => absurd h (hw _ hin.2), by simp [hl]⟩
  · rw [upd_sect, if_pos hrd, hm.shared rfl]
    · exact hok (hφ ▸ hI.sect_eq hin₀ ▸ hI.ok)
    · rw [upd_writer]
      simp only [State.Writer, hw _ hin₀, hw _ hin.2, or_false]

/-- A statement of a writer that begins or ends its hold. -/
theorem Inv.swap (hI : Inv s) (hW : s.Writer t) (hφ : s.phase t = φ)
    (hcall : ∀ m, c ≠ .releaseLock m) (hfits : Fits p c)
    (hout : φ.inside = false ∧ (phaseOf p c).inside = false) (hl : (phaseOf p c).leaves = false)
    (hself : phaseOf p c = .writer ↔ t ∉ wr) (hothers : ∀ u, u ≠ t → (u ∈ wr ↔ u ∈ s.writing))
    (hnodup : wr.Nodup) : Inv (s.upd t p c s.readers md s.reading wr) := by
  have hm : Moved s (s.upd t p c s.readers md s.reading wr) t := upd_moved hothers fun _ _ hu => hu
  have hrd := hI.rd_of_outside (hφ ▸ hout.1)
  obtain ⟨hnil, hstarts, hends, hr⟩ := hI.ok.no_readers fun hs => hs.2 t hW
  refine hI.turn hm (hI.plain.goto hcall) rfl ?_ ?_ hnodup ?_
  · rwa [upd_pc, upd_q]
  · rw [upd_phase]
    exact ⟨iff_of_false hrd (by simp [hout]), fun _ => (hI.owns t).rw hW, hself.mp, by simp [hl]⟩
  · rw [upd_sect, if_neg hrd]
    exact .of_no_readers hnil ⟨hstarts, hends⟩ hr

/-- A writer that leaves through the branch of the readers. -/
theorem Inv.decWriter (hI : Inv s) (hφ : s.phase t = .deciding) (hin : t ∈ s.writing) :
    Unsigned.decr s.readers ≠ 0 ∧ Inv (s.upd t .storeDec (.returned .ok)
      (Unsigned.decr s.readers) s.mode s.reading (s.writing.erase t)) := by
  have hW : s.Writer t := Or.inl hin
  have hown := (hI.owns t).rw hW
  have hm : Moved s (s.upd t .storeDec (.returned .ok) (Unsigned.decr s.readers) s.mode s.reading
      (s.writing.erase t)) t := upd_moved (fun u hu => List.mem_erase_of_ne hu) fun _ _ hu => hu
  have hin₀ : (s.phase t).inside = true := by simp [hφ, Phase.inside]
  have hrd := hI.rd_of_inside hin₀
  have hnot : t ∉ s.writing.erase t := by simp [hI.nodup.mem_erase_iff]
  obtain ⟨hne, hok⟩ := (hφ ▸ hI.sect_eq hin₀ ▸ hI.ok :
    Ok .deciding s.Shared s.readers s.mode s.reading).decWriter fun hs => hs.2 t hW
  refine ⟨hne, hI.turn hm (hI.plain.goto (by simp)) rfl ?_ ?_ (hI.nodup.erase t) ?_⟩
  · rw [upd_pc, upd_q]
    exact .idle rfl
  · rw [upd_phase]
    exact ⟨iff_of_true hrd rfl, fun h => absurd (h.resolve_right (by simp [phaseOf])) hnot,
      by simp [phaseOf], by simp [phaseOf, Phase.leaves]⟩
  · rw [upd_sect, if_pos hrd, show State.Shared _ = True from ?_]
    · exact hok
    · refine eq_true ⟨fun hnone => ?_, fun u hu => ?_⟩
      · cases hown.symm.trans hnone
      · by_cases hut : u = t
        · rw [hut, upd_writer] at hu
          exact hnot (hu.resolve_right (by simp [phaseOf]))
        · have hWu : s.Writer u := by
            rwa [State.Writer, hm.writing u hut, hm.phase hut] at hu
          exact hut (Option.some.inj (((hI.owns u).rw hWu).symm.trans hown))

theorem Inv.leave (hI : Inv s) (hφ : s.phase t = .out ∨ s.phase t = .waiting)
    (hq : s.q t = .returned rc) (hp : p.outside = true) : Inv (s.goto t p) := by
  rw [goto_eq_upd, hq]
  cases p with
  | idle | acquired | released =>
    rcases hφ with hφ | hφ <;>
      exact hI.outside hφ (by simp) (.idle rfl) ⟨rfl, rfl⟩ (Or.inl rfl)
  | _ => cases hp

theorem cont_inv (hI : Inv s) (h : s.cont t = some s') : Inv s' := by
  cases cont_of_cont h with
  | lockRw hp hq =>
    have hφ : s.phase t = .writer := phase_eq hp hq
    have hfresh := (hI.owns t).fresh hφ
    rw [goto_eq_upd, show s.q t = _ from hq]
    exact hI.swap (Or.inr hφ) hφ (by simp) (.idle rfl) ⟨rfl, rfl⟩ rfl (by simp [phaseOf])
      (fun u hu => by simp [hu]) (List.nodup_cons.mpr ⟨hfresh, hI.nodup⟩)
  | lockRwFail hp hq hrc | lockRdFail hp hq hrc =>
    refine hI.leave (Or.inl ?_) hq rfl
    rw [phase_eq hp hq]
    simp [phaseOf, hrc]
  | lockDecFail hp hq hrc =>
    refine hI.leave (Or.inr ?_) hq rfl
    rw [phase_eq hp hq]
    simp [phaseOf, hrc]
  | undoRd hp hq | unlockRd hp hq | unlockRw hp hq | undoDec hp hq | unlockDec hp hq =>
    exact hI.leave (Or.inl (phase_eq hp hq)) hq rfl
  | lockRdFirst hp hq hone =>
    exact hI.inside (phase_eq hp hq : s.phase t = .plain) (by simp) (.acquire rfl (by simp))
      ⟨rfl, rfl⟩ rfl (fun _ _ hu => hu) Ok.first
  | lockRdNext hp hq hone =>
    simp only [goto_eq_upd, State.q, hq]
    exact hI.inside (phase_eq hp hq : s.phase t = .plain) (by simp) (.idle rfl)
      ⟨rfl, rfl⟩ rfl (fun _ _ hu => hu) fun hok => hok.next hone
  | lockFirst hp hq =>
    rw [goto_eq_upd, show s.q t = _ from hq]
    exact hI.inside (phase_eq hp hq : s.phase t = .starting) (by simp) (.idle rfl)
      ⟨rfl, rfl⟩ rfl (fun _ _ hu => hu) id
  | lockFirstFail hp hq hrc =>
    have hφ : s.phase t = .counted := by
      rw [phase_eq hp hq]
      simp [phaseOf, hrc]
    exact hI.inside hφ (by simp) (.releaseRd rfl) ⟨rfl, rfl⟩ rfl (fun _ _ hu => hu) Ok.undo
  | storeRd hp =>
    exact hI.inside (phase_eq hp rfl : s.phase t = .starting) (by simp) (.releaseRd rfl)
      ⟨rfl, rfl⟩ rfl (fun _ _ hu => List.mem_cons_of_mem _ hu) Ok.storeRd
  | storeDec hp =>
    exact hI.inside (phase_eq hp rfl : s.phase t = .plain) (by simp) (.releaseRd rfl)
      ⟨rfl, rfl⟩ rfl (fun _ _ hu => hu) Ok.storeDec
  | testRw hp hmode =>
    have hφ : s.phase t = .testing := phase_eq hp rfl
    have hin := hI.writing_of_mode hφ hmode
    simp only [State.drop, State.holdOf, hin, if_true]
    exact hI.swap (Or.inl hin) hφ (by simp) (.release rfl (by simp)) ⟨rfl, rfl⟩ rfl
      (by simp [phaseOf, Sync.Pc.releases, hI.nodup.mem_erase_iff])
      (fun u hu => List.mem_erase_of_ne hu) (hI.nodup.erase t)
  | testRd hp hmode =>
    have hφ : s.phase t = .testing := phase_eq hp rfl
    exact hI.outside hφ (by simp) (.acquire rfl fun _ => rfl) ⟨rfl, rfl⟩
      (Or.inr ((hI.owns t).holds (hφ ▸ rfl)))
  | @unlockRwFail hold rc hp hq hrc => exact absurd ((hI.fits t).back hold rc hp hq) hrc
  | lockDecLast hp hq hz =>
    have hφ : s.phase t = .deciding := phase_eq hp hq
    by_cases hin : t ∈ s.writing
    · exact absurd hz (hI.decWriter hφ hin).1
    · have hr := ((hI.owns t).holds (hφ ▸ rfl)).resolve_left hin
      simp only [State.drop, State.holdOf, hin, if_false]
      exact hI.inside hφ (by simp) (.release rfl fun _ h => (Pc.unlockLast.inj h).symm)
        ⟨rfl, rfl⟩ rfl (fun u hu => (List.mem_erase_of_ne hu).mpr)
        fun hok => hok.dec hr (Or.inr ⟨rfl, hz⟩)
  | lockDecNext hp hq hz =>
    have hφ : s.phase t = .deciding := phase_eq hp hq
    by_cases hin : t ∈ s.writing
    · simp only [State.drop, hin, if_true, goto_eq_upd, State.q, hq]
      exact (hI.decWriter hφ hin).2
    · have hr := ((hI.owns t).holds (hφ ▸ rfl)).resolve_left hin
      simp only [State.drop, hin, if_false, goto_eq_upd, State.q, hq]
      exact hI.inside hφ (by simp) (.idle rfl) ⟨rfl, rfl⟩ rfl
        (fun u hu => (List.mem_erase_of_ne hu).mpr) fun hok => hok.dec hr (Or.inl rfl)
  | unlockLast hp hq =>
    rw [goto_eq_upd, show s.q t = _ from hq]
    exact hI.inside (phase_eq hp hq : s.phase t = .plain) (by simp) (.idle rfl)
      ⟨rfl, rfl⟩ rfl (fun _ _ hu => hu) id
  | @unlockLastFail hold rc hp hq hrc =>
    obtain rfl := (hI.fits t).last hold hp
    have hφ : s.phase t = .ending := by
      rw [phase_eq hp hq]
      simp [phaseOf, hrc]
    exact hI.inside hφ (by simp) (.releaseRd rfl) ⟨rfl, rfl⟩ rfl
      (fun _ _ hu => List.mem_cons_of_mem _ hu) Ok.restore

/-! ## The pieces of the mutex code -/

theorem withMutexes_q (hq : ms.pc = update s.mutexes.pc t c) : (s.withMutexes ms).q t = c :=
  (congrFun hq t).trans (update_self ..)

theorem withMutexes_phase (hq : ms.pc = update s.mutexes.pc t c) :
    (s.withMutexes ms).phase t = phaseOf (s.pc t) c := by
  rw [State.phase, withMutexes_q hq]
  rfl

theorem moved_of_effect (he : Effect s.mutexes t ms) : Moved s (s.withMutexes ms) t := by
  have hmoved : ∀ c, ms.pc = update s.mutexes.pc t c →
      (∀ m u, u ≠ t → (ms.own m = some u ↔ s.own m = some u)) → Moved s (s.withMutexes ms) t :=
    fun c hq hown => ⟨fun _ _ => rfl, fun u hu => (congrFun hq u).trans (update_of_ne hu _ _),
      hown .rd, fun u hu => (hown .rw u hu).mpr, fun _ _ => Iff.rfl, fun _ _ hu => hu⟩
  cases he with
  | got m _ hown₀ hq hown | freed m _ hown₀ hq hown =>
    refine hmoved _ hq fun k u hu => ?_
    by_cases hk : k = m
    · subst hk
      simp [hown, show s.own k = _ from hown₀, hu.symm]
    · simp [hown, hk, State.own]
  | waits _ _ _ _ _ hq hown | fails _ _ _ _ _ hq hown | tests _ _ _ _ hq hown
  | denied _ _ _ hq hown => exact hmoved _ hq fun _ _ _ => by rw [hown]; rfl

theorem Inv.quiet (hI : Inv s) (hP : Plain ms) (hq : ms.pc = update s.mutexes.pc t c)
    (hown : ms.own = s.own) (hfits : Fits (s.pc t) c) (hφ : phaseOf (s.pc t) c = s.phase t) :
    Inv (s.withMutexes ms) := by
  refine hI.same hP hown (funext fun u => ?_) fun u => ?_ <;> by_cases hu : u = t
  · rw [hu, withMutexes_phase hq, hφ]
  · simp [State.phase, State.q, State.withMutexes, hq, hu]
  · rw [hu, hq, update_self]
    exact hfits
  · rw [hq, update_of_ne hu]
    exact hI.fits u

theorem returned_of_acquires (h : q.acquires = some m) :
    q.releases = none ∧ ∀ rc, q ≠ .returned rc := by
  cases q <;> simp_all [Sync.Pc.acquires, Sync.Pc.wants, Sync.Pc.releases]

theorem returned_of_releases (h : q.releases = some m) :
    q.acquires = none ∧ q.mayFail = false ∧ ∀ rc, q ≠ .returned rc := by
  cases q <;> simp_all [Sync.Pc.acquires, Sync.Pc.wants, Sync.Pc.releases, Sync.Pc.mayFail]

theorem phaseOf_of_locks (hl : p.locks = some m) (hc : c ≠ .returned .ok)
    (hq : q ≠ .returned .ok) : phaseOf p c = phaseOf p q := by
  cases p <;> cases hl <;> simp only [phaseOf, hc, hq]

/-- The phases before and after a mutex is got. -/
theorem phaseOf_got (hl : p.locks = some m) (hq : q ≠ .returned .ok) :
    m = .rd ∧ (phaseOf p q = .out ∧ phaseOf p (.returned .ok) = .plain ∨
      phaseOf p q = .waiting ∧ phaseOf p (.returned .ok) = .deciding) ∨
    m = .rw ∧ (phaseOf p q = .out ∧ phaseOf p (.returned .ok) = .writer ∨
      phaseOf p q = .counted ∧ phaseOf p (.returned .ok) = .starting) := by
  cases p <;> cases hl <;> simp [phaseOf, hq]

/-- The phases before and after a mutex is freed. Only the last reader may fail to free one. -/
theorem phaseOf_freed (hu : p.unlocks = some m) (hq : q.releases = some m) :
    m = .rd ∧ phaseOf p q = .plain ∧ phaseOf p (.returned .ok) = .out ∨
    m = .rw ∧ (phaseOf p q = .writer ∧ phaseOf p (.returned .ok) = .out ∨
      (∃ h, p = .unlockLast h) ∧ phaseOf p q = .ending ∧ phaseOf p (.returned .ok) = .plain) := by
  have hn := (returned_of_releases hq).2.2 .ok
  cases p <;> cases hu <;> simp only [phaseOf, hq, hn] <;> simp [Sync.Pc.releases]

section

variable (hI : Inv s) (hP : Plain ms) (hm : Moved s (s.withMutexes ms) t)
include hI hP hm

/-- `rw_mutex_rd` gets or loses its owner. -/
theorem Inv.rdChanges (hq : ms.pc = update s.mutexes.pc t c)
    (hown : ms.own = update s.own .rd o) (hfits : Fits (s.pc t) c) (hφ : phaseOf (s.pc t) c = φ)
    (ho : o = some t ∧ φ.inside = true ∨ o = none ∧ φ.inside = false) (hφ₀ : s.sect.adds = 0)
    (hadds : φ.adds = 0 ∧ φ ≠ .ending) (hw : s.phase t ≠ .writer ∧ φ ≠ .writer)
    (hl : φ.leaves = true → (s.phase t).leaves = true) : Inv (s.withMutexes ms) := by
  have hrd : (s.withMutexes ms).own .rd = o := (congrFun hown .rd).trans (update_self ..)
  have hrw : (s.withMutexes ms).own .rw = s.own .rw :=
    (congrFun hown .rw).trans (update_of_ne (by simp) _ _)
  have hphase := (withMutexes_phase hq).trans hφ
  refine hI.turn hm hP rfl (by rwa [withMutexes_q hq]) ?_ hI.nodup ?_
  · rw [hphase]
    refine ⟨?_, fun h => hrw.trans ((hI.owns t).rw (h.imp_right fun h => absurd h hw.2)),
      fun h => absurd h hw.2, fun h => (hI.owns t).holds (hl h)⟩
    rw [hrd]
    rcases ho with ⟨rfl, hi⟩ | ⟨rfl, hi⟩ <;> simp [hi]
  · rw [hm.shared hrw]
    · have hsect : (s.withMutexes ms).sect = .out ∨ (s.withMutexes ms).sect = φ := by
        rw [State.sect, hrd]
        rcases ho with ⟨rfl, -⟩ | ⟨rfl, -⟩
        · exact Or.inr hphase
        · exact Or.inl rfl
      rcases hsect with h | h <;> rw [h]
      · exact hI.ok.change hφ₀ rfl (by simp)
      · exact hI.ok.change hφ₀ hadds.1 hadds.2
    · rw [State.Writer, hphase]
      simp only [State.Writer, hw, or_false]
      rfl

/-- `rw_mutex_rw` gets or loses its owner. -/
theorem Inv.rwChanges (hq : ms.pc = update s.mutexes.pc t c)
    (hown : ms.own = update s.own .rw o) (hfits : Fits (s.pc t) c) (hφ : phaseOf (s.pc t) c = φ)
    (hin : φ.inside = (s.phase t).inside) (hl : φ.leaves = false) (hw : t ∉ s.writing)
    (ho : φ = .writer → o = some t)
    (hok : Ok (if s.own .rd = some t then φ else s.sect)
      (o ≠ none ∧ φ ≠ .writer ∧ ∀ u, u ≠ t → ¬ s.Writer u) s.readers s.mode s.reading) :
    Inv (s.withMutexes ms) := by
  have hrd : (s.withMutexes ms).own .rd = s.own .rd :=
    (congrFun hown .rd).trans (update_of_ne (by simp) _ _)
  have hrw : (s.withMutexes ms).own .rw = o := (congrFun hown .rw).trans (update_self ..)
  have hphase := (withMutexes_phase hq).trans hφ
  refine hI.turn hm hP rfl (by rwa [withMutexes_q hq]) ?_ hI.nodup ?_
  · rw [hphase]
    exact ⟨by rw [hrd, hin]; exact (hI.owns t).rd, fun h => hrw.trans (ho (h.resolve_left hw)),
      fun _ => hw, by simp [hl]⟩
  · rw [sect_of_phase (fun u => hm.phase) hrd, hphase]
    refine hok.mono fun ⟨hne, hφw, hno⟩ => ⟨hrw ▸ hne, fun u hu => ?_⟩
    by_cases hut : u = t
    · subst hut
      rw [State.Writer, hphase] at hu
      exact hu.elim hw hφw
    · rw [State.Writer, hm.writing u hut, hm.phase hut] at hu
      exact hno u hut hu

theorem Inv.got (hacq : (s.q t).acquires = some m)
    (hfree : s.own m = none) (hq : ms.pc = update s.mutexes.pc t (.returned .ok))
    (hown : ms.own = update s.own m (some t)) : Inv (s.withMutexes ms) := by
  have hfits : Fits (s.pc t) (.returned .ok) := .returned (fun _ _ => rfl) (hI.fits t).last
  rcases phaseOf_got ((hI.fits t).locks m hacq) ((returned_of_acquires hacq).2 .ok) with
    ⟨rfl, hφ⟩ | ⟨rfl, hφ⟩
  · have hsect : s.sect.adds = 0 := by simp [State.sect, hfree, Phase.adds]
    rcases hφ with ⟨hφ, hφ'⟩ | ⟨hφ, hφ'⟩ <;>
      exact hI.rdChanges hP hm hq hown hfits hφ' (Or.inl ⟨rfl, rfl⟩) hsect ⟨rfl, by simp⟩
        ⟨by simp [State.phase, hφ], by simp⟩ (by simp [State.phase, hφ, Phase.leaves])
  · have hS : ¬ s.Shared := fun hs => hs.1 hfree
    have hno : ∀ u, ¬ s.Writer u := fun u hu => by cases ((hI.owns u).rw hu).symm.trans hfree
    have hw : t ∉ s.writing := fun h => hno t (Or.inl h)
    rcases hφ with ⟨hφ, hφ'⟩ | ⟨hφ, hφ'⟩
    · have hout : (s.phase t).inside = false := by simp [State.phase, hφ, Phase.inside]
      obtain ⟨hnil, hstarts, hends, hr⟩ := hI.ok.no_readers hS
      refine hI.rwChanges hP hm hq hown hfits hφ' hout.symm rfl hw (fun _ => rfl) ?_
      rw [if_neg (hI.rd_of_outside hout)]
      exact .of_no_readers hnil ⟨hstarts, hends⟩ hr
    · have hin : (s.phase t).inside = true := by simp [State.phase, hφ, Phase.inside]
      have hok := hI.ok
      rw [hI.sect_eq hin, show s.phase t = _ from hφ] at hok
      refine hI.rwChanges hP hm hq hown hfits hφ' hin.symm rfl hw (by simp) ?_
      rw [if_pos (hI.rd_of_inside hin)]
      exact (hok.gotFirst hS).mono fun _ => ⟨by simp, by simp, fun u _ => hno u⟩

theorem Inv.freed (hrel : (s.q t).releases = some m)
    (hq : ms.pc = update s.mutexes.pc t (.returned .ok)) (hown : ms.own = update s.own m none) :
    Inv (s.withMutexes ms) := by
  have hfits : Fits (s.pc t) (.returned .ok) := .returned (fun _ _ => rfl) (hI.fits t).last
  rcases phaseOf_freed ((hI.fits t).unlocks m hrel) hrel with
    ⟨rfl, hφ, hφ'⟩ | ⟨rfl, ⟨hφ, hφ'⟩ | ⟨-, hφ, hφ'⟩⟩
  · have hin : (s.phase t).inside = true := by simp [State.phase, hφ, Phase.inside]
    exact hI.rdChanges hP hm hq hown hfits hφ' (Or.inr ⟨rfl, rfl⟩)
      (by simp [hI.sect_eq hin, State.phase, hφ, Phase.adds]) ⟨rfl, by simp⟩
      ⟨by simp [State.phase, hφ], by simp⟩ (by simp [Phase.leaves])
  · have hout : (s.phase t).inside = false := by simp [State.phase, hφ, Phase.inside]
    obtain ⟨hnil, hstarts, hends, hr⟩ := hI.ok.no_readers fun hs => hs.2 t (Or.inr hφ)
    refine hI.rwChanges hP hm hq hown hfits hφ' hout.symm rfl ((hI.owns t).fresh hφ) (by simp) ?_
    rw [if_neg (hI.rd_of_outside hout)]
    exact .of_no_readers hnil ⟨hstarts, hends⟩ hr
  · have hin : (s.phase t).inside = true := by simp [State.phase, hφ, Phase.inside]
    have hsect : s.sect = .ending := (hI.sect_eq hin).trans hφ
    obtain ⟨hnil, hz⟩ := hI.ok.last hsect
    refine hI.rwChanges hP hm hq hown hfits hφ' hin.symm rfl
      (fun h => (hI.ok.shared (by simp [hsect])).2 t (Or.inl h)) (by simp) ?_
    rw [if_pos (hI.rd_of_inside hin)]
    exact .of_no_readers hnil ⟨by simp, by simp⟩ (by simp [hz, Phase.adds])

end

theorem Inv.effect (hI : Inv s) (hP : Plain ms) (he : Effect s.mutexes t ms) :
    Inv (s.withMutexes ms) := by
  have hfits := hI.fits t
  have hm := moved_of_effect he
  cases he with
  | got m hacq hfree hq hown => exact hI.got hP hm hacq hfree hq hown
  | waits m c hacq hc hmay hq hown =>
    have hl := hfits.locks m hacq
    obtain ⟨hr, hn⟩ := returned_of_acquires hc
    refine hI.quiet hP hq hown ⟨fun k hk => hl.trans (hc.symm.trans hk), by simp [hr], fun hp => ?_,
      fun _ rc _ hrc => absurd hrc (hn rc), hfits.last⟩
      (phaseOf_of_locks hl (hn .ok) ((returned_of_acquires hacq).2 .ok))
    by_contra hf
    cases (hfits.patient hp).symm.trans (hmay (by simpa using hf))
  | fails m rc hacq hrc _ hq hown =>
    have hl := hfits.locks m hacq
    refine hI.quiet hP hq hown (.returned (fun h hp => ?_) hfits.last)
      (phaseOf_of_locks hl (by simp [hrc]) ((returned_of_acquires hacq).2 .ok))
    rw [hp] at hl
    cases hl
  | tests m c hrel hc hq hown =>
    have hu := hfits.unlocks m hrel
    obtain ⟨ha, hmay, hn⟩ := returned_of_releases hc
    refine hI.quiet hP hq hown ⟨by simp [ha], fun k hk => hu.trans (hc.symm.trans hk),
      fun _ => hmay,
      fun _ rc _ hrc => absurd hrc (hn rc), hfits.last⟩ ?_
    have hq' : (s.q t).releases = some m := hrel
    have hn' := (returned_of_releases hq').2.2 .ok
    rw [State.phase]
    cases hp : s.pc t <;> rw [hp] at hu <;> cases hu <;> simp only [phaseOf, hc, hq', hn, hn']
  | freed m hrel howner hq hown => exact hI.freed hP hm hrel hq hown
  | denied m hrel hne hq hown =>
    -- everybody else owns what it releases
    have hq' : (s.q t).releases = some m := hrel
    rcases phaseOf_freed (hfits.unlocks m hq') hq' with
      ⟨rfl, hφ, -⟩ | ⟨rfl, ⟨hφ, -⟩ | ⟨⟨h, hp⟩, hφ, -⟩⟩
    · exact absurd (hI.rd_of_inside (by simp [State.phase, hφ, Phase.inside])) hne
    · exact absurd ((hI.owns t).rw (Or.inr hφ)) hne
    · refine hI.quiet hP hq hown (.returned (by simp [hp]) hfits.last) (Eq.trans ?_ hφ.symm)
      rw [hp]
      rfl

/-! ## Every step -/

/-- The condition on a step: a thread that exits does not own `rw_mutex_rw`. -/
def ExitsClean (s : State Tid D) : Action Tid D → Prop
  | .exit t _ => s.own .rw ≠ some t
  | _ => True

instance (s : State Tid D) (a : Action Tid D) : Decidable (ExitsClean s a) := by
  rcases a <;> dsimp only [ExitsClean] <;> infer_instance

variable [DecidableEq D]

theorem Inv.exit {fuel : Nat} (hI : Inv s) (hrw : s.own .rw ≠ some t)
    (h : s.step (.exit t fuel) = some s') : Inv s' := by
  obtain ⟨⟨ho, -⟩, h⟩ := Option.ite_none_right_eq_some.mp h
  have hφ := phase_of_outside ho
  have hno : ∀ m, s.mutexes.own m ≠ some t := by
    intro m
    cases m with
    | rd => exact hI.rd_of_outside (hφ ▸ rfl)
    | rw => exact hrw
  rw [releaseall_of_no_mutex hI.plain.inv hno, Option.map_some,
    hI.plain.inv.sound.heldOf_eq] at h
  cases h
  obtain ⟨hcall, hfits⟩ := hI.q_of_outside (p := .exited) ho rfl
  show Inv (s.goto t .exited)
  rw [goto_eq_upd]
  exact hI.outside hφ hcall hfits ⟨rfl, rfl⟩ (Or.inl rfl)

/-- Every step keeps the invariant. -/
theorem step_inv {a : Action Tid D} (hI : Inv s) (hok : ExitsClean s a)
    (h : s.step a = some s') : Inv s' := by
  cases a with
  | acquire t op tryonly extra bounded =>
    simp only [State.step, hI.initialized, if_true] at h
    obtain ⟨ho, h⟩ := Option.ite_none_right_eq_some.mp h
    cases op with
    | rd | rw =>
      cases h
      exact hI.outside (phase_of_outside ho) (by simp) (.acquire rfl (by simp)) ⟨rfl, rfl⟩
        (Or.inl rfl)
  | release t bounded =>
    simp only [State.step, hI.initialized, if_true] at h
    obtain ⟨⟨ho, hholds⟩, ⟨⟩⟩ := Option.ite_none_right_eq_some.mp h
    obtain ⟨hcall, hfits⟩ := hI.q_of_outside (p := .test bounded) ho rfl
    rw [goto_eq_upd]
    exact hI.outside (phase_of_outside ho) hcall hfits ⟨rfl, rfl⟩ (Or.inr hholds.symm)
  | mutex t occurred =>
    obtain ⟨ms, hgo, rfl⟩ := Option.map_eq_some_iff.mp h
    exact hI.effect (hI.plain.go hgo) (effect_of_go hI.plain hgo)
  | cont t => exact cont_inv hI h
  | exit t fuel => exact hI.exit hok h
  | natives n =>
    cases h
    exact hI.env (.of_eq rfl rfl rfl)
  | bind t d | park t d =>
    cases h
    exact hI.env (same_setThread rfl rfl)

end Ngpt.Sync.Rwlock
