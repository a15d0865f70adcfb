import Ngpt.Lib.Transition

/-!
# ngpt — positioned input and output (`pth_high.c`)

`pth_pread`, `pth_pwrite`, `pth_pread64` and `pth_pwrite64` on one seekable descriptor,
called by any number of threads, one operation on a mutex or on the descriptor at a time.
Each of the functions saves the offset of the descriptor, seeks, transfers and seeks back,
under a mutex that is a static variable of the function itself.

The mutexes are taken as mutexes: one holder at a time. `pth_read` makes at most one
transfer; `pth_write` may make several, if the descriptor blocks. What the system calls
return is up to the environment. `log` is not in the code: the transfers so far.

Result: `transfers_at_offset`.
-/

namespace Ngpt.Io

open Function Transition

/-- The four functions, and so the four mutexes. -/
inductive Func where
  | pread
  | pwrite
  | pread64
  | pwrite64
  deriving DecidableEq, Repr

def Func.all : List Func := [.pread, .pwrite, .pread64, .pwrite64]

theorem Func.mem_all (f : Func) : f ∈ Func.all := by
  rcases f with _ | _ | _ | _ <;> decide

/-- The transfer is done by `pth_write`. -/
def Func.writes : Func → Bool
  | .pread | .pread64 => false
  | .pwrite | .pwrite64 => true

/-- A call and its arguments. -/
structure Call where
  func   : Func
  nbytes : Nat
  offset : Int
  deriving DecidableEq, Repr

inductive Whence where
  | cur
  | set
  deriving DecidableEq, Repr

/-- `lseek`: the new offset, none for a negative one or for one above `max`. -/
def lseek (max pos : Nat) (offset : Int) (whence : Whence) : Option Nat :=
  let target : Int := match whence with
    | .cur => pos + offset
    | .set => offset
  if 0 ≤ target ∧ target ≤ max then some target.toNat else none

/-- Where a thread is: before the named operation. -/
inductive Pc where
  | idle
  | acquire (c : Call)
  /-- `lseek(fd, 0, SEEK_CUR)` -/
  | tell (c : Call)
  | seek (c : Call) (old : Nat)
  /-- the tests at the start of `pth_read` and `pth_write` -/
  | enter (c : Call) (old : Nat)
  /-- the `read`, or the `write` before the loop -/
  | first (c : Call) (old : Nat)
  /-- the `write` of the loop, after `done` bytes -/
  | loop (c : Call) (old done : Nat)
  | restore (c : Call) (old : Nat) (rc : Int)
  | release (c : Call) (rc : Int)
  | returned (c : Call) (rc : Int)
  deriving DecidableEq, Repr

def Pc.outside : Pc → Bool
  | .idle | .returned _ _ => true
  | _ => false

/-- The mutex that a thread holds. -/
def Pc.holds : Pc → Option Func
  | .tell c | .seek c _ | .enter c _ | .first c _ | .loop c _ _ | .restore c _ _
  | .release c _ => some c.func
  | .idle | .acquire _ | .returned _ _ => none

/-- The offset has been saved and not been restored yet. -/
def Pc.away : Pc → Bool
  | .seek _ _ | .enter _ _ | .first _ _ | .loop _ _ _ | .restore _ _ _ => true
  | _ => false

/-- A `read` or `write` of `count` bytes at `pos`, after `done` bytes of the same call. -/
structure Transfer where
  call  : Call
  done  : Nat
  pos   : Nat
  count : Nat
  deriving DecidableEq, Repr

/-- The bytes go where the caller wanted them. -/
def Transfer.AtOffset (x : Transfer) : Prop := (x.pos : Int) = x.call.offset + x.done

instance (x : Transfer) : Decidable x.AtOffset :=
  inferInstanceAs (Decidable ((x.pos : Int) = x.call.offset + x.done))

/-- The descriptor, the mutexes and the threads `T`. -/
structure Sys (T : Type) where
  offset : Nat
  owner  : Func → Option T
  pc     : T → Pc
  log    : List Transfer

inductive Event (T : Type) where
  | call (t : T) (c : Call)
  /-- the next operation of `t`, if its outcome is not up to the environment -/
  | go (t : T)
  /-- `pth_mutex_acquire` or `pth_fdmode` fails -/
  | refuse (t : T)
  /-- a `read` or `write` transfers `n` bytes -/
  | move (t : T) (n : Nat)
  | fail (t : T)
  /-- the first `write` fails with `EAGAIN` on a descriptor that blocks -/
  | again (t : T)
  deriving DecidableEq, Repr

variable {T : Type}

namespace Sys

variable [DecidableEq T]

def goto (s : Sys T) (t : T) (pc : Pc) : Sys T := { s with pc := update s.pc t pc }

/-- The steps of a call; `max f` is the largest value of the offset type of `f`. -/
def go (max : Func → Nat) (s : Sys T) (t : T) : Option (Sys T) :=
  match s.pc t with
  | .acquire c =>
    if s.owner c.func = none then
      some { s.goto t (.tell c) with owner := update s.owner c.func (some t) }
    else none
  | .tell c =>
    match lseek (max c.func) s.offset 0 .cur with
    | none => some (s.goto t (.release c (-1)))
    | some old => some (s.goto t (.seek c old))
  | .seek c old =>
    match lseek (max c.func) s.offset c.offset .set with
    | none => some (s.goto t (.release c (-1)))
    | some pos => some { s.goto t (.enter c old) with offset := pos }
  | .enter c old =>
    if c.nbytes = 0 then some (s.goto t (.restore c old 0)) else some (s.goto t (.first c old))
  | .restore c old rc =>
    some { s.goto t (.release c rc) with
      offset := (lseek (max c.func) s.offset old .set).getD s.offset }
  | .release c rc =>
    some { s.goto t (.returned c rc) with owner := update s.owner c.func none }
  | .idle | .first _ _ | .loop _ _ _ | .returned _ _ => none

def refuse (s : Sys T) (t : T) : Option (Sys T) :=
  match s.pc t with
  | .acquire c => some (s.goto t (.returned c (-1)))
  | .enter c old => if c.nbytes = 0 then none else some (s.goto t (.restore c old (-1)))
  | _ => none

/-- A transfer of `n` bytes at the offset, which moves on by as much. -/
def transfer (s : Sys T) (c : Call) (done n : Nat) : Sys T :=
  { s with offset := s.offset + n, log := ⟨c, done, s.offset, n⟩ :: s.log }

def move (s : Sys T) (t : T) (n : Nat) : Option (Sys T) :=
  match s.pc t with
  | .first c old =>
    if n ≤ c.nbytes then some ((s.transfer c 0 n).goto t (.restore c old n)) else none
  | .loop c old done =>
    if done + n < c.nbytes ∧ n ≠ 0 then
      some ((s.transfer c done n).goto t (.loop c old (done + n)))
    else if done + n ≤ c.nbytes then
      some ((s.transfer c done n).goto t (.restore c old (done + n : Nat)))
    else none
  | _ => none

def fail (s : Sys T) (t : T) : Option (Sys T) :=
  match s.pc t with
  | .first c old => some (s.goto t (.restore c old (-1)))
  | .loop c old done =>
    some (s.goto t (.restore c old (if done = 0 then -1 else done)))
  | _ => none

def again (s : Sys T) (t : T) : Option (Sys T) :=
  match s.pc t with
  | .first c old => if c.func.writes then some (s.goto t (.loop c old 0)) else none
  | _ => none

def step (max : Func → Nat) (s : Sys T) : Event T → Option (Sys T)
  | .call t c => if (s.pc t).outside then some (s.goto t (.acquire c)) else none
  | .go t => s.go max t
  | .refuse t => s.refuse t
  | .move t n => s.move t n
  | .fail t => s.fail t
  | .again t => s.again t

end Sys

/-- Before the first call. -/
structure Start (offset : Nat) (s : Sys T) : Prop where
  offset : s.offset = offset
  owner  : ∀ f, s.owner f = none
  idle   : ∀ t, s.pc t = .idle
  log    : s.log = []

/-- No call of another function than `f` is between saving and restoring the offset. -/
def OthersHome (s : Sys T) (f : Func) : Prop :=
  ∀ g ∈ Func.all, g ≠ f → ∀ u ∈ s.owner g, (s.pc u).away = false

instance (s : Sys T) (f : Func) : Decidable (OthersHome s f) := by
  unfold OthersHome; infer_instance

/-- The condition on a step at `q`: no call saves an offset that another function has
moved. -/
def SaveOk (s : Sys T) : Pc → Prop
  | .tell c => OthersHome s c.func
  | _ => True

instance (s : Sys T) (q : Pc) : Decidable (SaveOk s q) := by
  rcases q <;> dsimp only [SaveOk] <;> infer_instance

def Apart (s : Sys T) : Event T → Prop
  | .go t => SaveOk s (s.pc t)
  | _ => True

instance (s : Sys T) (e : Event T) : Decidable (Apart s e) := by
  rcases e <;> dsimp only [Apart] <;> infer_instance

/-- The two promises of the functions. -/
structure Positioned (start : Nat) (s : Sys T) : Prop where
  transfers : ∀ x ∈ s.log, x.AtOffset
  restored  : (∀ t, (s.pc t).outside = true) → s.offset = start

/-! ## Seeking -/

variable {pos old : Nat}

theorem lseek_cur_eq_some {max : Nat} (h : lseek max pos 0 .cur = some old) :
    old = pos ∧ old ≤ max := by
  simp only [lseek] at h
  obtain ⟨hle, ⟨⟩⟩ := Option.ite_none_right_eq_some.mp h
  omega

theorem lseek_set_eq_some {max new : Nat} {offset : Int}
    (h : lseek max pos offset .set = some new) : (new : Int) = offset := by
  simp only [lseek] at h
  obtain ⟨hle, ⟨⟩⟩ := Option.ite_none_right_eq_some.mp h
  omega

theorem lseek_set_of_le {max : Nat} (h : old ≤ max) : lseek max pos old .set = some old := by
  simp only [lseek]
  rw [if_pos (by omega)]
  rfl

/-! ## The invariant -/

/-- What holds of a thread at each place. -/
def Place (max : Func → Nat) (start : Nat) (s : Sys T) : Pc → Prop
  | .seek c old => old = start ∧ old ≤ max c.func ∧ s.offset = start
  | .enter c old | .first c old =>
    old = start ∧ old ≤ max c.func ∧ (s.offset : Int) = c.offset
  | .loop c old done => old = start ∧ old ≤ max c.func ∧ (s.offset : Int) = c.offset + done
  | .restore c old _ => old = start ∧ old ≤ max c.func
  | _ => True

/-- At most one call is away from the first offset. -/
structure Kept (max : Func → Nat) (start : Nat) (s : Sys T) : Prop where
  owner     : ∀ t f, s.owner f = some t ↔ (s.pc t).holds = some f
  place     : ∀ t, Place max start s (s.pc t)
  single    : ∀ t u, (s.pc t).away = true → (s.pc u).away = true → t = u
  home      : (∀ t, (s.pc t).away = false) → s.offset = start
  transfers : ∀ x ∈ s.log, x.AtOffset

variable {max : Func → Nat} {start : Nat} {s s' : Sys T} {t u : T} {q p : Pc}

theorem Place.of_not_away (h : q.away = false) : Place max start s q := by
  cases q <;> trivial

theorem Place.congr (h : Place max start s q) (hoffset : s'.offset = s.offset) :
    Place max start s' q := by
  unfold Place at h ⊢
  rw [hoffset]
  exact h

theorem Pc.holds_of_away (h : q.away = true) : ∃ f, q.holds = some f := by
  cases q <;> first | exact ⟨_, rfl⟩ | cases h

theorem Pc.away_of_outside (h : q.outside = true) : q.away = false := by
  cases q <;> first | rfl | cases h

section

variable (h : Kept max start s)
include h

theorem Kept.placed (hpc : s.pc t = q) : Place max start s q :=
  hpc ▸ h.place t

variable [DecidableEq T]

theorem Kept.moved (hpc : s'.pc = update s.pc t q)
    (howner : ∀ u f, s'.owner f = some u ↔ (s'.pc u).holds = some f)
    (hsame : (s.pc t).away = false → s'.offset = s.offset)
    (hback : (s.pc t).away = true → q.away = false → s'.offset = start)
    (halone : (s.pc t).away = false → q.away = true → ∀ u, u ≠ t → (s.pc u).away = false)
    (ht : Place max start s' q) (hlog : ∀ x ∈ s'.log, x.AtOffset) : Kept max start s' := by
  obtain ⟨hself, hother⟩ := eq_update_iff.mp hpc
  have hquiet : (s.pc t).away = true ∨ q.away = true → ∀ u, u ≠ t → (s.pc u).away = false := by
    intro haway u hu
    by_cases htaway : (s.pc t).away = true
    · by_contra huaway
      exact hu (h.single u t (by simpa using huaway) htaway)
    · exact halone (by simpa using htaway) (haway.resolve_left htaway) u hu
  refine ⟨howner, fun u => ?_, unique_of_move (P := fun q => q.away = true) hother h.single
    fun hq u hut => ?_, fun hall => ?_, hlog⟩
  · by_cases hut : u = t
    · rw [hut, hself]
      exact ht
    · rw [hother u hut]
      by_cases htaway : (s.pc t).away = true
      · exact Place.of_not_away (hquiet (Or.inl htaway) u hut)
      · exact (h.place u).congr (hsame (by simpa using htaway))
  · rw [hself] at hq
    simp [hquiet (Or.inr hq) u hut]
  · have hq : q.away = false := by
      rw [← hself]
      exact hall t
    by_cases htaway : (s.pc t).away = true
    · exact hback htaway hq
    · rw [hsame (by simpa using htaway)]
      refine h.home fun u => ?_
      by_cases hut : u = t
      · rw [hut]
        simpa using htaway
      · rw [← hother u hut]
        exact hall u

theorem Kept.owner_same (hpc : s'.pc = update s.pc t q)
    (howner : s'.owner = s.owner) (hq : q.holds = (s.pc t).holds) :
    ∀ u f, s'.owner f = some u ↔ (s'.pc u).holds = some f := by
  intro u f
  rw [howner, h.owner u f, hpc]
  by_cases hut : u = t
  · rw [hut, update_self, hq]
  · rw [update_of_ne hut]

theorem Kept.owner_update {f : Func} {r : Option T}
    (hpc : s'.pc = update s.pc t q) (howner : s'.owner = update s.owner f r)
    (hr : ∀ u, r = some u ↔ u = t ∧ q.holds = some f)
    (hq : ∀ g, g ≠ f → (q.holds = some g ↔ (s.pc t).holds = some g))
    (hothers : ∀ u, u ≠ t → (s.pc u).holds ≠ some f) :
    ∀ u g, s'.owner g = some u ↔ (s'.pc u).holds = some g := by
  intro u g
  rw [hpc, howner]
  by_cases hgf : g = f
  · rw [hgf, update_self, hr u]
    by_cases hut : u = t
    · rw [hut, update_self]
      exact ⟨fun hx => hx.2, fun hx => ⟨rfl, hx⟩⟩
    · rw [update_of_ne hut]
      exact ⟨fun hx => absurd hx.1 hut, fun hx => absurd hx (hothers u hut)⟩
  · rw [update_of_ne hgf, h.owner u g]
    by_cases hut : u = t
    · rw [hut, update_self, hq g hgf]
    · rw [update_of_ne hut]

/-! ## The steps -/

theorem Kept.atHome (hp : s.pc t = p) (hpc : s'.pc = update s.pc t q)
    (howner : ∀ u f, s'.owner f = some u ↔ (s'.pc u).holds = some f)
    (hoffset : s'.offset = s.offset) (hlog : s'.log = s.log) (ht : p.away = false)
    (hq : q.away = false) : Kept max start s' := by
  subst hp
  exact h.moved hpc howner (fun _ => hoffset) (fun haway => (nomatch ht.symm.trans haway))
    (fun _ haway => (nomatch hq.symm.trans haway)) (Place.of_not_away hq) (hlog ▸ h.transfers)

theorem Kept.onWay (hp : s.pc t = p)
    (hpc : s'.pc = update s.pc t q) (howner : s'.owner = s.owner) (hholds : q.holds = p.holds)
    (ht : p.away = true) (hback : q.away = false → s'.offset = start)
    (hplace : Place max start s' q) (hlog : ∀ x ∈ s'.log, x.AtOffset) : Kept max start s' := by
  subst hp
  exact h.moved hpc (h.owner_same hpc howner hholds) (fun haway => (nomatch ht.symm.trans haway))
    (fun _ => hback) (fun haway => (nomatch ht.symm.trans haway)) hplace hlog

variable {c : Call}

theorem Kept.acquire (hpc : s.pc t = .acquire c)
    (hs : s.go max t = some s') : Kept max start s' := by
  simp only [Sys.go, hpc] at hs
  obtain ⟨hfree, ⟨⟩⟩ := Option.ite_none_right_eq_some.mp hs
  refine h.atHome hpc rfl ?_ rfl rfl rfl rfl
  refine h.owner_update rfl rfl (fun u => ?_) (fun g hg => ?_) fun u hu hholds => ?_
  · show some t = some u ↔ u = t ∧ some c.func = some c.func
    rw [Option.some.injEq, eq_comm]
    exact (and_iff_left rfl).symm
  · rw [hpc]
    exact iff_of_false (fun hcg => hg (Option.some.inj hcg).symm) nofun
  · cases hfree.symm.trans ((h.owner u c.func).mpr hholds)

theorem Kept.tell (hpc : s.pc t = .tell c)
    (hok : OthersHome s c.func) (hs : s.go max t = some s') : Kept max start s' := by
  have ht : (s.pc t).away = false := hpc ▸ rfl
  have hhome : ∀ u, (s.pc u).away = false := by
    intro u
    by_contra haway
    obtain ⟨g, hg⟩ := Pc.holds_of_away (by simpa using haway)
    have hu := (h.owner u g).mpr hg
    by_cases hgc : g = c.func
    · rw [hgc, (h.owner t c.func).mpr (hpc ▸ rfl)] at hu
      rw [← Option.some.inj hu] at haway
      exact haway ht
    · exact haway (hok g (Func.mem_all g) hgc u hu)
  simp only [Sys.go, hpc] at hs
  split at hs
  case h_1 =>
    cases hs
    exact h.atHome hpc rfl (h.owner_same rfl rfl (hpc ▸ rfl)) rfl rfl rfl rfl
  case h_2 old hseek =>
    cases hs
    obtain ⟨rfl, hle⟩ := lseek_cur_eq_some hseek
    exact h.moved rfl (h.owner_same rfl rfl (hpc ▸ rfl))
      (fun _ => rfl) (fun haway => (nomatch ht.symm.trans haway)) (fun _ _ u _ => hhome u)
      ⟨h.home hhome, hle, h.home hhome⟩ h.transfers

theorem Kept.seek (hpc : s.pc t = .seek c old) (hs : s.go max t = some s') : Kept max start s' := by
  obtain ⟨hold, hle, hoffset⟩ := h.placed hpc
  simp only [Sys.go, hpc] at hs
  split at hs
  case h_1 =>
    cases hs
    exact h.onWay hpc rfl rfl rfl rfl (fun _ => hoffset) trivial h.transfers
  case h_2 pos hseek =>
    cases hs
    exact h.onWay hpc rfl rfl rfl rfl nofun
      ⟨hold, hle, lseek_set_eq_some hseek⟩ h.transfers

theorem Kept.restore {rc : Int}
    (hpc : s.pc t = .restore c old rc) (hs : s.go max t = some s') : Kept max start s' := by
  obtain ⟨hold, hle⟩ := h.placed hpc
  simp only [Sys.go, hpc, Option.some.injEq] at hs
  subst hs
  refine h.onWay hpc rfl rfl rfl rfl (fun _ => ?_) trivial h.transfers
  show (lseek (max c.func) s.offset old .set).getD s.offset = start
  rw [lseek_set_of_le hle]
  exact hold

theorem Kept.release {rc : Int}
    (hpc : s.pc t = .release c rc) (hs : s.go max t = some s') : Kept max start s' := by
  simp only [Sys.go, hpc, Option.some.injEq] at hs
  subst hs
  refine h.atHome hpc rfl ?_ rfl rfl rfl rfl
  refine h.owner_update rfl rfl (fun u => ?_) (fun g hg => ?_) fun u hu hholds => ?_
  · exact iff_of_false nofun nofun
  · rw [hpc]
    exact iff_of_false nofun fun hcg => hg (Option.some.inj hcg).symm
  · have hmine := (h.owner t c.func).mpr (hpc ▸ rfl)
    have hyours := (h.owner u c.func).mpr hholds
    exact hu (Option.some.inj (hyours.symm.trans hmine))

theorem Kept.within (hpc : s.pc t = p) (ht : p.away = true)
    (hq : q.away = true) (hholds : q.holds = p.holds) (hplace : Place max start s q) :
    Kept max start (s.goto t q) :=
  h.onWay hpc rfl rfl hholds ht (fun hx => (nomatch hq.symm.trans hx))
    (hplace.congr rfl) h.transfers

theorem Kept.transfer {done n : Nat}
    (hpc : s.pc t = p) (ht : p.away = true) (hq : q.away = true) (hholds : q.holds = p.holds)
    (hoffset : (s.offset : Int) = c.offset + done)
    (hplace : Place max start (s.transfer c done n) q) :
    Kept max start ((s.transfer c done n).goto t q) := by
  refine h.onWay hpc rfl rfl hholds ht (fun hx => (nomatch hq.symm.trans hx)) (hplace.congr rfl) ?_
  show ∀ x ∈ _ :: s.log, _
  rw [List.forall_mem_cons]
  exact ⟨hoffset, h.transfers⟩

theorem Kept.go (hok : SaveOk s (s.pc t)) (hs : s.go max t = some s') :
    Kept max start s' := by
  cases hpc : s.pc t
  case acquire => exact h.acquire hpc hs
  case tell =>
    rw [hpc] at hok
    exact h.tell hpc hok hs
  case seek => exact h.seek hpc hs
  case enter =>
    obtain ⟨hold, hle, hoffset⟩ := h.placed hpc
    simp only [Sys.go, hpc] at hs
    split at hs
    case isTrue =>
      cases hs
      exact h.within hpc rfl rfl rfl ⟨hold, hle⟩
    case isFalse =>
      cases hs
      exact h.within hpc rfl rfl rfl ⟨hold, hle, hoffset⟩
  case restore => exact h.restore hpc hs
  case release => exact h.release hpc hs
  all_goals simp [Sys.go, hpc] at hs

theorem Kept.refuse (hs : s.refuse t = some s') : Kept max start s' := by
  unfold Sys.refuse at hs
  split at hs
  case h_1 c hpc =>
    cases hs
    exact h.atHome hpc rfl (h.owner_same rfl rfl (hpc ▸ rfl)) rfl rfl rfl rfl
  case h_2 c old hpc =>
    obtain ⟨hold, hle, -⟩ := h.placed hpc
    obtain ⟨-, ⟨⟩⟩ := Option.ite_none_left_eq_some.mp hs
    exact h.within hpc rfl rfl rfl ⟨hold, hle⟩
  case h_3 => cases hs

theorem Kept.move {n : Nat} (hs : s.move t n = some s') :
    Kept max start s' := by
  unfold Sys.move at hs
  split at hs
  case h_1 c old hpc =>
    obtain ⟨hold, hle, hoffset⟩ := h.placed hpc
    obtain ⟨-, ⟨⟩⟩ := Option.ite_none_right_eq_some.mp hs
    exact h.transfer hpc rfl rfl rfl (by simpa using hoffset) ⟨hold, hle⟩
  case h_2 c old done hpc =>
    obtain ⟨hold, hle, hoffset⟩ := h.placed hpc
    split at hs
    case isTrue =>
      cases hs
      refine h.transfer hpc rfl rfl rfl hoffset ⟨hold, hle, ?_⟩
      show ((s.offset + n : Nat) : Int) = c.offset + (done + n : Nat)
      omega
    case isFalse =>
      obtain ⟨-, ⟨⟩⟩ := Option.ite_none_right_eq_some.mp hs
      exact h.transfer hpc rfl rfl rfl hoffset ⟨hold, hle⟩
  case h_3 => cases hs

theorem Kept.fail (hs : s.fail t = some s') : Kept max start s' := by
  unfold Sys.fail at hs
  split at hs <;> cases hs
  case h_1 c old hpc =>
    obtain ⟨hold, hle, -⟩ := h.placed hpc
    exact h.within hpc rfl rfl rfl ⟨hold, hle⟩
  case h_2 c old done hpc =>
    obtain ⟨hold, hle, -⟩ := h.placed hpc
    exact h.within hpc rfl rfl rfl ⟨hold, hle⟩

theorem Kept.again (hs : s.again t = some s') : Kept max start s' := by
  unfold Sys.again at hs
  split at hs
  case h_1 c old hpc =>
    obtain ⟨hold, hle, hoffset⟩ := h.placed hpc
    obtain ⟨-, ⟨⟩⟩ := Option.ite_none_right_eq_some.mp hs
    exact h.within hpc rfl rfl rfl ⟨hold, hle, by simpa using hoffset⟩
  case h_2 => cases hs

theorem Kept.step {e : Event T} (hok : Apart s e)
    (hs : s.step max e = some s') : Kept max start s' := by
  cases e with
  | call t c =>
    obtain ⟨hout, ⟨⟩⟩ := Option.ite_none_right_eq_some.mp hs
    refine h.atHome rfl rfl (h.owner_same rfl rfl ?_) rfl rfl
      (Pc.away_of_outside hout) rfl
    cases hpc : s.pc t <;> rw [hpc] at hout <;> first | rfl | cases hout
  | go t => exact h.go hok hs
  | refuse t => exact h.refuse hs
  | move t n => exact h.move hs
  | fail t => exact h.fail hs
  | again t => exact h.again hs

end

theorem Start.kept (h : Start start s) : Kept max start s := by
  refine ⟨fun t f => ?_, fun t => ?_, fun t u ht => ?_, fun _ => h.offset, ?_⟩
  · rw [h.owner f, h.idle t]
    exact ⟨fun hx => (by cases hx), fun hx => (by cases hx)⟩
  · rw [h.idle t]
    trivial
  · rw [h.idle t] at ht
    cases ht
  · rw [h.log]
    exact fun x hx => absurd hx List.not_mem_nil

theorem Kept.positioned (h : Kept max start s) : Positioned start s :=
  ⟨h.transfers, fun hall => h.home fun t => Pc.away_of_outside (hall t)⟩

/-- **Positioned transfers.** The calls do not disturb each other as long as none saves
the offset while a call of another function has moved it. -/
theorem transfers_at_offset [DecidableEq T] (max : Func → Nat) (start : Nat) (s : Sys T)
    (h : Reachable (Sys.step max) Apart (Start start) s) : Positioned start s := by
  have hkept : Kept max start s :=
    h.invariant (fun _ hstart => hstart.kept) fun _ _ _ hk hok hs => hk.step hok hs
  exact hkept.positioned

/-! ## Two functions at once -/

/-- Nobody has called yet, and the offset is 0. -/
def quiet : Sys Bool := ⟨0, fun _ => none, fun _ => .idle, []⟩

theorem quiet_start : Start 0 quiet := ⟨rfl, fun _ => rfl, fun _ => rfl, rfl⟩

def largest : Func → Nat
  | .pread | .pwrite => 2147483647
  | .pread64 | .pwrite64 => 9223372036854775807

/-- One call of a thread up to its transfer. -/
def upToTransfer (t : Bool) (c : Call) : List (Event Bool) :=
  [.call t c, .go t, .go t, .go t, .go t]

/-- A `pth_pread`, and after it a `pth_pwrite` that has to wait. -/
def inTurn : List (Event Bool) :=
  upToTransfer true ⟨.pread, 10, 100⟩ ++ [.move true 10, .go true, .go true] ++
    upToTransfer false ⟨.pwrite, 20, 200⟩ ++
    [.again false, .move false 5, .move false 15, .go false, .go false]

theorem transfers_at_offset_inTurn :
    ∃ s, runOk (Sys.step largest) Apart quiet inTurn = some s ∧
      s.log = [⟨⟨.pwrite, 20, 200⟩, 5, 205, 15⟩, ⟨⟨.pwrite, 20, 200⟩, 0, 200, 5⟩,
        ⟨⟨.pread, 10, 100⟩, 0, 100, 10⟩] ∧ Positioned 0 s := by
  refine exists_and_of_any (fun _ => id) (by decide +kernel) fun s hs _ => ?_
  exact transfers_at_offset largest 0 s (reachable_of_runOk (.init quiet_start) hs)

/-- The two calls overlap. -/
def overlap : List (Event Bool) :=
  upToTransfer true ⟨.pread, 10, 100⟩ ++ upToTransfer false ⟨.pwrite, 10, 200⟩ ++
    [.move true 10, .go true, .go true, .move false 10, .go false, .go false]

/-- The bytes are read at 200 and written at 0, and in the end the offset is 100. -/
theorem overlap_moves_transfers :
    ∃ s : Sys Bool, Reachable (Sys.step largest) Always (Start 0) s ∧
      (∀ t, (s.pc t).outside = true) ∧
      s.log = [⟨⟨.pwrite, 10, 200⟩, 0, 0, 10⟩, ⟨⟨.pread, 10, 100⟩, 0, 200, 10⟩] ∧
      s.offset = 100 ∧ ¬ Positioned 0 s := by
  refine exists_and_of_any₃ (o := run (Sys.step largest) quiet overlap)
    (fun _ => reachable_of_run (.init quiet_start)) (by decide +kernel)
    fun s _ hout _ hoffset h => ?_
  have hrestored := h.restored hout
  rw [hoffset] at hrestored
  cases hrestored

end Ngpt.Io
