import Ngpt.Sync.Books

/-!
# ngpt — the contract of a private mutex

What one piece of the mutex code can do is listed once, in `Piece`. From it follow
the invariant of every run (`step_inv`), the contract of the private mutexes in runs
whose recursion counts stay in range (`mutex_contract`), and what happens at the end
of that range: `mx_count` is an `unsigned long` that is incremented without a test,
so after `2 ^ 32` acquires a locked mutex has the count of a free one
(`recursive_count_wraps`).
-/

namespace Ngpt.Sync

open Function LinkedRing Transition

variable {Mid Tid D : Type} {s s' : Sys Mid Tid D} {t u : Tid} {m k : Mid} {occurred : Bool}
  {mem : Mem Mid Tid D} {pc : Pc Mid}

/-! ## The invariant -/

/-- The books are sound, and a thread that has passed the tests of
`pth_mutex_release` owns the mutex, although the tests are made without the lock. -/
structure Inv (s : Sys Mid Tid D) : Prop where
  sound     : Sound s.mem s.held
  releasing : ∀ t m, s.pc t = .releaseLock m → (s.mem.mutex m).owner = some t

/-- Mutexes as `pth_mutex_init` leaves them, and threads that own none. -/
structure Initial (s : Sys Mid Tid D) : Prop where
  mutex : ∀ m, ∃ type internalLocked,
    s.mem.mutex m = { pthMutexInit type with internalLocked := internalLocked }
  wait  : ∀ m, s.mem.wait.next (.mutex m) = .mutex m ∧ s.mem.wait.prev (.mutex m) = .mutex m
  owned : ∀ t, (s.mem.thread t).mutexOwned = none
  ring  : ∀ t, (s.mem.thread t).mutexring = pthRingInit
  pc    : ∀ t, s.pc t = .idle
  held  : ∀ m t, s.held m t = 0

theorem Initial.inv (h : Initial s) : Inv s := by
  have hmutex : ∀ m, (s.mem.mutex m).owner = none ∧ (s.mem.mutex m).locked = false ∧
      (s.mem.mutex m).count = 0 := fun m => by
    obtain ⟨type, flag, hm⟩ := h.mutex m
    simp [hm, pthMutexInit]
  refine ⟨⟨fun m => by simp [hmutex m], fun t => ⟨[], ?_, fun m => ?_, nofun⟩, fun m t hm => ?_,
    fun m _ => (hmutex m).2.2, fun m t _ => h.held m t⟩, fun t m ht => ?_⟩
  · rw [h.ring t]
    exact ringOf_init _
  · simp [hmutex m, h.owned t]
  · simp [hmutex m] at hm
  · cases (h.pc t).symm.trans ht

/-- All mutexes of the given type, all threads idle, one native. -/
def initSys (type : MutexType) : Sys Mid Tid D where
  mem :=
    { mutex := fun _ => pthMutexInit type
      thread := fun _ => ⟨none, pthRingInit, none, none⟩
      rn := ⟨fun _ => none, fun _ => none⟩
      wait := ⟨id, id⟩
      natives := 1, pid := 1, sigpipe := fun _ => 0, readied := [], anatives := 0 }
  pc := fun _ => .idle
  held := fun _ _ => 0

theorem initSys_initial (type : MutexType) : Initial (initSys type : Sys Mid Tid D) :=
  ⟨fun _ => ⟨type, false, rfl⟩, fun _ => ⟨rfl, rfl⟩, fun _ => rfl, fun _ => rfl, fun _ => rfl,
    fun _ _ => rfl⟩

section

variable (hI : Inv s)
include hI

theorem Inv.owner_none (hl : (s.mem.mutex m).locked = false) : (s.mem.mutex m).owner = none :=
  Option.isSome_eq_false_iff.mp (hI.sound.locked m ▸ hl) |> Option.isNone_iff_eq_none.mp

theorem Inv.env (hsame : Same s.mem mem) : Inv { s with mem := mem } :=
  ⟨hI.sound.congr hsame, fun t k ht => (hsame.owner k).trans (hI.releasing t k ht)⟩

theorem Inv.locked_iff :
    (s.mem.mutex m).locked = true ↔ (s.mem.mutex m).owner ≠ none := by
  rw [hI.sound.locked m, Option.isSome_iff_ne_none]

theorem Inv.owner_of_held (h : 0 < s.held m t) : (s.mem.mutex m).owner = some t := by
  by_contra hne
  exact h.ne' (hI.sound.others m t hne)

theorem Inv.count_pos_iff (hlt : ∀ t, s.held m t < Unsigned.range) :
    1 ≤ (s.mem.mutex m).count ↔ (s.mem.mutex m).owner ≠ none := by
  cases ho : (s.mem.mutex m).owner with
  | none => simp [hI.sound.free m ho]
  | some t =>
    obtain ⟨hpos, -, hcount⟩ := hI.sound.own m t ho
    rw [hcount, Nat.mod_eq_of_lt (hlt t)]
    simp [hpos]

variable [DecidableEq Tid]

theorem Inv.goto (hsame : Same s.mem mem)
    (hpc : ∀ m, pc = .releaseLock m → (s.mem.mutex m).owner = some t) :
    Inv { s.goto t pc with mem := mem } := by
  refine ⟨hI.sound.congr hsame, fun u k hu => ?_⟩
  rw [hsame.owner k]
  by_cases hut : u = t
  · subst hut
    exact hpc k (by simpa [Sys.goto] using hu)
  · exact hI.releasing u k (by simpa [Sys.goto, hut] using hu)

theorem Inv.releasing_other (hu : update s.pc t (.returned .ok) u = .releaseLock k) :
    u ≠ t ∧ (s.mem.mutex k).owner = some u := by
  have hut : u ≠ t := by
    rintro rfl
    simp at hu
  exact ⟨hut, hI.releasing u k (by simpa [hut] using hu)⟩

variable [DecidableEq Mid]

theorem Inv.take (hsame : Same s.mem mem) (hfree : (s.mem.mutex m).owner = none) :
    Inv { mem := mem.take t m, pc := update s.pc t (.returned .ok)
          held := heldSet s.held m t (s.held m t + 1) } := by
  refine ⟨(hI.sound.congr hsame).take ((hsame.owner m).trans hfree), fun u k hu => ?_⟩
  obtain ⟨-, hk⟩ := hI.releasing_other hu
  have hkm : k ≠ m := by
    rintro rfl
    cases hfree.symm.trans hk
  simpa [Mem.take_mutex, hkm, hsame.owner k] using hk

theorem Inv.again (hown : (s.mem.mutex m).owner = some t)
    (hc : 1 ≤ (s.mem.mutex m).count) :
    Inv { mem := s.mem.setMutex m
            { s.mem.mutex m with count := Unsigned.incr (s.mem.mutex m).count }
          pc := update s.pc t (.returned .ok)
          held := heldSet s.held m t (s.held m t + 1) } := by
  refine ⟨hI.sound.again hown hc, fun u k hu => ?_⟩
  obtain ⟨-, hk⟩ := hI.releasing_other hu
  rw [owner_setMutex]
  split
  · simp_all
  · exact hk

end

variable [DecidableEq Mid] [DecidableEq Tid]

theorem acquireEnter_owner (tryonly bounded : Bool)
    (hl : (mem.mutex m).locked = true) (hown : (mem.mutex m).owner = some t)
    (hcount : 1 ≤ (mem.mutex m).count) :
    mem.acquireEnter t m tryonly bounded =
      if (mem.mutex m).type = .recursiveNp then
        (some .ok, mem.setMutex m
          { mem.mutex m with count := Unsigned.incr (mem.mutex m).count })
      else (some (if tryonly then .ebusy else .edeadlk), mem) := by
  simp only [Mem.acquireEnter]
  rw [if_neg (by simp [hl]), if_pos ⟨hown, hcount⟩]

/-! ## The pieces -/

variable [DecidableEq D]

/-- The mutex that a thread inside `pth_mutex_acquire` wants, and whether the call
has an extra event. -/
def Pc.wants : Pc Mid → Option (Mid × Bool)
  | .acquire m _ extra _ => some (m, extra)
  | .waitEvent m extra => some (m, extra)
  | .waitSelect m => some (m, false)
  | _ => none

/-- **What a piece of the mutex code can do.** -/
inductive Piece (s : Sys Mid Tid D) (t : Tid) : Sys Mid Tid D → Prop
  | intern {m : Mid} {mem : Mem Mid Tid D} :
      (s.mem.mutex m).internalLocked = true → Same s.mem mem →
      Piece s t { s.goto t (.returned .ok) with mem := mem }
  | take {m : Mid} {extra : Bool} {mem : Mem Mid Tid D} :
      (s.pc t).wants = some (m, extra) → (s.mem.mutex m).locked = false → Same s.mem mem →
      Piece s t { mem := mem.take t m, pc := update s.pc t (.returned .ok)
                  held := heldSet s.held m t (s.held m t + 1) }
  | again {m : Mid} {tryonly extra bounded : Bool} :
      s.pc t = .acquire m tryonly extra bounded → (s.mem.mutex m).owner = some t →
      1 ≤ (s.mem.mutex m).count → (s.mem.mutex m).type = .recursiveNp →
      Piece s t { mem := s.mem.setMutex m
                    { s.mem.mutex m with count := Unsigned.incr (s.mem.mutex m).count }
                  pc := update s.pc t (.returned .ok)
                  held := heldSet s.held m t (s.held m t + 1) }
  | refuse {m : Mid} {tryonly extra bounded : Bool} :
      s.pc t = .acquire m tryonly extra bounded → (s.mem.mutex m).owner = some t →
      Piece s t (s.goto t (.returned (if tryonly then .ebusy else .edeadlk)))
  | busy {m : Mid} {extra bounded : Bool} :
      s.pc t = .acquire m true extra bounded → Piece s t (s.goto t (.returned .ebusy))
  | wait {m : Mid} {extra : Bool} {pc : Pc Mid} {mem : Mem Mid Tid D} :
      (s.pc t).wants = some (m, extra) →
      pc = .waitEvent m extra ∨ pc = .waitSelect m → Same s.mem mem →
      Piece s t { s.goto t pc with mem := mem }
  | interrupted {m : Mid} :
      s.pc t = .waitEvent m true → Piece s t (s.goto t (.returned .eintr))
  | locked {m : Mid} :
      s.pc t = .releaseState m → (s.mem.mutex m).locked = true →
      Piece s t (s.goto t (.releaseOwner m))
  | notLocked {m : Mid} :
      s.pc t = .releaseState m → (s.mem.mutex m).locked = false →
      Piece s t (s.goto t (.returned .eperm))
  | owner {m : Mid} :
      s.pc t = .releaseOwner m → (s.mem.mutex m).owner = some t →
      Piece s t (s.goto t (.releaseLock m))
  | notOwner {m : Mid} :
      s.pc t = .releaseOwner m → (s.mem.mutex m).owner ≠ some t →
      Piece s t (s.goto t (.returned .eperm))
  | release {m : Mid} :
      s.pc t = .releaseLock m →
      Piece s t { mem := s.mem.releaseLocked t m, pc := update s.pc t (.returned .ok)
                  held := heldSet s.held m t (s.held m t - 1) }

variable {extra : Bool} {a : Action Mid Tid D}

theorem piece_enter {tryonly bounded : Bool} (hpc : s.pc t = .acquire m tryonly extra bounded)
    (hwait : pc = .waitEvent m extra ∨ pc = .waitSelect m) :
    Piece s t (s.acquired t m pc (s.mem.acquireEnter t m tryonly bounded)) := by
  have hw : (s.pc t).wants = some (m, extra) := hpc ▸ rfl
  simp only [Mem.acquireEnter]
  split
  case isTrue h => exact .take hw h.1 (Same.refl _)
  split
  case isTrue h =>
    split
    case isTrue hty => exact .again hpc h.1 h.2 hty
    case isFalse =>
      have href := Piece.refuse hpc h.1
      cases tryonly <;> exact href
  split
  case isTrue htry =>
    subst htry
    exact .busy hpc
  case isFalse =>
    have hsame : Same s.mem (if s.mem.natives > 1 then
        { s.mem with wait := pthElementInsert s.mem.wait (.thread t) (.mutex m) } else s.mem) := by
      split
      · exact same_wait _ _
      · exact Same.refl _
    cases bounded with
    | false => exact .wait hw hwait hsame
    | true => exact .wait hw hwait (hsame.trans (same_addWaiter _ m))

theorem piece_resume (bounded : Bool)
    (hw : (s.pc t).wants = some (m, extra)) (hpc : pc = .waitEvent m extra ∨ pc = .waitSelect m) :
    Piece s t (s.acquired t m pc (s.mem.acquireResume t m bounded)) := by
  have hsame : Same s.mem (if bounded then s.mem.removeWaiter m else s.mem) := by
    split
    · exact same_removeWaiter _ m
    · exact Same.refl _
  simp only [Mem.acquireResume]
  generalize (if bounded = true then s.mem.removeWaiter m else s.mem) = mem at hsame
  split
  case isTrue hl =>
    refine .take hw (hsame.locked m ▸ hl) ?_
    split
    · exact hsame.trans (same_wait _ _)
    · exact hsame
  case isFalse =>
    refine .wait hw hpc ?_
    cases bounded with
    | false => exact hsame
    | true => exact hsame.trans (same_addWaiter _ m)

theorem piece_of_go (h : s.go t occurred = some s') : Piece s t s' := by
  unfold Sys.go at h
  cases hpc : s.pc t <;> simp only [hpc] at h
  case idle | returned => cases h
  case acquire m tryonly extra bounded =>
    split at h
    case isTrue hi =>
      obtain ⟨-, ⟨⟩⟩ := Option.ite_none_right_eq_some.mp h
      exact .intern hi (same_setMutex rfl rfl rfl rfl rfl)
    case isFalse =>
      cases h
      exact piece_enter hpc (by cases bounded <;> simp)
  case waitEvent m extra =>
    split at h <;> cases h
    case isTrue he =>
      obtain rfl : extra = true := by simp_all
      exact .interrupted hpc
    case isFalse => exact piece_resume false (hpc ▸ rfl) (Or.inl rfl)
  case waitSelect m =>
    cases h
    have hw : (s.pc t).wants = some (m, false) := hpc ▸ rfl
    exact piece_resume true hw (Or.inr rfl)
  case releaseState m =>
    split at h
    case isTrue hl =>
      cases h
      exact .locked hpc hl
    case isFalse hl =>
      split at h <;> cases h
      case isTrue hi => exact .intern hi (same_setMutex rfl rfl rfl rfl rfl)
      case isFalse => exact .notLocked hpc (by simpa using hl)
  case releaseOwner m =>
    split at h <;> cases h
    case isTrue ho => exact .notOwner hpc ho
    case isFalse ho => exact .owner hpc (not_not.mp ho)
  case releaseLock m =>
    cases h
    exact .release hpc

/-! ## A run keeps the invariant -/

section

variable (hI : Inv s)
include hI

theorem Inv.release (hpc : s.pc t = .releaseLock m) :
    Inv { mem := s.mem.releaseLocked t m, pc := update s.pc t (.returned .ok)
          held := heldSet s.held m t (s.held m t - 1) } := by
  have hown := hI.releasing t m hpc
  refine ⟨hI.sound.releaseLocked hown, fun u k hu => ?_⟩
  obtain ⟨hut, hk⟩ := hI.releasing_other hu
  -- another thread that releases the same mutex would be its owner too
  have hkm : k ≠ m := by
    rintro rfl
    exact hut (Option.some.inj (hk.symm.trans hown))
  simpa [releaseLocked_owner, hkm] using hk

theorem Piece.inv (hp : Piece s t s') : Inv s' := by
  cases hp with
  | intern _ hsame => exact hI.goto hsame (by simp)
  | take _ hl hsame => exact hI.take hsame (hI.owner_none hl)
  | again _ hown hc _ => exact hI.again hown hc
  | wait _ hpc hsame => exact hI.goto hsame (by rcases hpc with rfl | rfl <;> simp)
  | owner _ hown => exact hI.goto (Same.refl _) fun k hk => Pc.releaseLock.inj hk ▸ hown
  | refuse | busy | interrupted | locked | notLocked | notOwner =>
    exact hI.goto (Same.refl _) (by simp)
  | release hpc => exact hI.release hpc

theorem step_inv (h : s.step a = some s') : Inv s' := by
  cases a with
  | acquire | release =>
    obtain ⟨-, ⟨⟩⟩ := Option.ite_none_right_eq_some.mp h
    exact hI.goto (Same.refl _) (by simp)
  | go => exact (piece_of_go h).inv hI
  | natives =>
    cases h
    exact hI.env (.of_eq rfl rfl rfl)
  | bind | park =>
    cases h
    exact hI.env (same_setThread rfl rfl)

end

/-! ## The contract -/

/-- The mutex that a thread inside `pth_mutex_release` is about to release. -/
def Pc.releases : Pc Mid → Option Mid
  | .releaseState m | .releaseOwner m | .releaseLock m => some m
  | _ => none

/-- The condition on a step: an owner that acquires its mutex once more finds
`mx_count` below the largest value of its type. -/
def InRange (s : Sys Mid Tid D) : Action Mid Tid D → Prop
  | .go t _ =>
    match s.pc t with
    | .acquire m _ _ _ =>
      (s.mem.mutex m).owner = some t → (s.mem.mutex m).count + 1 < Unsigned.range
    | _ => True
  | _ => True

instance (s : Sys Mid Tid D) (a : Action Mid Tid D) : Decidable (InRange s a) := by
  unfold InRange
  repeat' split
  all_goals infer_instance

/-- What the mutex code promises of the mutex `m` in a state. -/
structure Contract (s : Sys Mid Tid D) (m : Mid) : Prop where
  locked_iff_owner : (s.mem.mutex m).locked = true ↔ (s.mem.mutex m).owner ≠ none
  locked_iff_count : (s.mem.mutex m).locked = true ↔ 1 ≤ (s.mem.mutex m).count
  /-- at most one thread is between an acquire and its release -/
  exclusive : ∀ t u, 0 < s.held m t → 0 < s.held m u → t = u
  /-- an acquire by the owner succeeds on a recursive mutex, with the count one
  higher; on any other it fails and changes nothing -/
  reacquire : ∀ t tryonly extra bounded occurred,
    s.pc t = .acquire m tryonly extra bounded → (s.mem.mutex m).owner = some t →
    InRange s (.go t occurred) →
    s.go t occurred = some (
      if (s.mem.mutex m).type = .recursiveNp then
        { mem := s.mem.setMutex m
            { s.mem.mutex m with count := (s.mem.mutex m).count + 1 }
          pc := update s.pc t (.returned .ok)
          held := heldSet s.held m t (s.held m t + 1) }
      else s.goto t (.returned (if tryonly then .ebusy else .edeadlk)))
  /-- a release by another thread gets no further than its tests, changes nothing
  and returns `EPERM` -/
  foreign : ∀ t occurred, (s.mem.mutex m).owner ≠ some t →
    (s.pc t = .releaseState m →
      s.go t occurred = some (s.goto t (.returned .eperm)) ∨
      s.go t occurred = some (s.goto t (.releaseOwner m))) ∧
    (s.pc t = .releaseOwner m → s.go t occurred = some (s.goto t (.returned .eperm))) ∧
    s.pc t ≠ .releaseLock m
  /-- nor does it become the owner on the way -/
  remains : ∀ t a s', (s.pc t).releases = some m → (s.mem.mutex m).owner ≠ some t →
    s.step a = some s' → (s'.mem.mutex m).owner ≠ some t
  /-- a release by the owner returns 0, and frees the mutex if it is the last one -/
  release : ∀ t occurred s', s.pc t = .releaseLock m → s.go t occurred = some s' →
    (s.mem.mutex m).owner = some t ∧ s'.pc t = .returned .ok ∧
    s'.held m t + 1 = s.held m t ∧ ((s'.mem.mutex m).locked = false ↔ s.held m t = 1)
  free_iff : (s.mem.mutex m).locked = false ↔ ∀ t, s.held m t = 0

theorem Piece.owner_of_owner (hp : Piece s u s') (hown : (s'.mem.mutex k).owner = some t) :
    (s.mem.mutex k).owner = some t ∨ (u = t ∧ ∃ extra, (s.pc t).wants = some (k, extra)) := by
  cases hp with
  | intern _ hsame | wait _ _ hsame => exact Or.inl ((hsame.owner k).symm.trans hown)
  | @take m extra mem hw hl hsame =>
    by_cases hkm : k = m
    · subst hkm
      have hut : u = t := by simpa [Mem.take_mutex] using hown
      exact Or.inr ⟨hut, extra, hut ▸ hw⟩
    · left
      simpa [Mem.take_mutex, hkm, hsame.owner k] using hown
  | @again m =>
    left
    by_cases hkm : k = m <;> simpa [hkm] using hown
  | release =>
    rw [releaseLocked_owner] at hown
    exact Or.inl (Option.ite_none_left_eq_some.mp hown).2
  | _ => exact Or.inl hown

theorem step_owner (h : s.step a = some s') (hown : (s'.mem.mutex k).owner = some t) :
    (s.mem.mutex k).owner = some t ∨ ∃ extra, (s.pc t).wants = some (k, extra) := by
  cases a with
  | acquire | release =>
    obtain ⟨-, ⟨⟩⟩ := Option.ite_none_right_eq_some.mp h
    exact Or.inl hown
  | go => exact ((piece_of_go h).owner_of_owner hown).imp_right And.right
  | natives | bind | park =>
    cases h
    exact Or.inl hown

/-! ## The owner of a mutex and the others -/

/-- `t` has the mutex, not recursively. -/
def Mutex.OwnedOnce (mx : Mutex Tid) (t : Tid) : Prop := mx.owner = some t ∧ mx.count = 1

theorem Piece.pc_of_ne (hp : Piece s t s') (hu : u ≠ t) : s'.pc u = s.pc u := by
  cases hp <;> exact update_of_ne hu ..

theorem releaseLocked_count_ne (mem : Mem Mid Tid D) (hk : k ≠ m) :
    ((mem.releaseLocked u m).mutex k).count = (mem.mutex k).count := by
  simp only [Mem.releaseLocked]
  split
  · rw [(same_wakeWaiter _ u m).count k]
    simp [Mem.giveUp, hk]
  · simp [hk]

theorem Piece.ownedOnce (hI : Inv s) (hp : Piece s u s') (hut : u ≠ t)
    (h : (s.mem.mutex k).OwnedOnce t) : (s'.mem.mutex k).OwnedOnce t := by
  obtain ⟨hown, hcount⟩ := h
  have hother : ∀ {m : Mid}, (s.mem.mutex m).owner = some u → k ≠ m := by
    rintro m hm rfl
    exact hut (Option.some.inj (hm.symm.trans hown))
  cases hp with
  | intern _ hsame | wait _ _ hsame =>
    exact ⟨(hsame.owner k).trans hown, (hsame.count k).trans hcount⟩
  | @take m extra mem _ hl hsame =>
    have hk : k ≠ m := by
      rintro rfl
      cases (hI.owner_none hl).symm.trans hown
    simp only [Mutex.OwnedOnce, Mem.take_mutex, if_neg hk]
    exact ⟨(hsame.owner k).trans hown, (hsame.count k).trans hcount⟩
  | @again m _ _ _ _ hm _ _ =>
    simp only [Mutex.OwnedOnce, Mem.setMutex_mutex, if_neg (hother hm)]
    exact ⟨hown, hcount⟩
  | @release m hpc =>
    have hk := hother (hI.releasing u m hpc)
    refine ⟨?_, (releaseLocked_count_ne s.mem hk).trans hcount⟩
    simp [releaseLocked_owner, hk, hown]
  | _ => exact ⟨hown, hcount⟩

theorem Piece.not_owner (hp : Piece s u s') (hut : u ≠ t)
    (h : (s.mem.mutex k).owner ≠ some t) : (s'.mem.mutex k).owner ≠ some t :=
  fun hown => (hp.owner_of_owner hown).elim h fun h' => hut h'.1

theorem go_releasing (hI : Inv s) (hpc : (s.pc t).releases = some m)
    (h : (s.mem.mutex m).OwnedOnce t) (hgo : s.go t occurred = some s') :
    ((s'.pc t).releases = some m ∧ (s'.mem.mutex m).OwnedOnce t) ∨
      (s'.pc t = .returned .ok ∧ (s'.mem.mutex m).owner = none) := by
  have hl : (s.mem.mutex m).locked = true := by rw [hI.sound.locked m, h.1]; rfl
  unfold Sys.go at hgo
  cases hq : s.pc t <;> simp only [hq, Pc.releases] at hpc hgo <;> cases hpc
  case releaseState =>
    simp only [hl, if_true] at hgo
    cases hgo
    exact Or.inl ⟨by simp [Sys.goto, Pc.releases], h⟩
  case releaseOwner =>
    simp only [h.1, ne_eq, not_true_eq_false, if_false] at hgo
    cases hgo
    exact Or.inl ⟨by simp [Sys.goto, Pc.releases], h⟩
  case releaseLock =>
    cases hgo
    refine Or.inr ⟨by simp [Sys.setHeld, Sys.goto], ?_⟩
    simp [Sys.setHeld, releaseLocked_owner, h.2, Unsigned.decr]

theorem go_releasing_owner (hI : Inv s) (hpc : (s.pc t).releases = some m)
    (h : (s.mem.mutex m).OwnedOnce t) (hgo : s.go t occurred = some s') :
    ((s'.pc t).releases = some m ∧ (s'.mem.mutex m).OwnedOnce t) ∨
      (s'.pc t = .returned .ok ∧ (s'.mem.mutex m).owner ≠ some t) :=
  (go_releasing hI hpc h hgo).imp_right fun hret => ⟨hret.1, by simp [hret.2]⟩

theorem step_held_lt (hI : Inv s) (hok : InRange s a)
    (hlt : ∀ m t, s.held m t < Unsigned.range) (h : s.step a = some s') :
    ∀ m t, s'.held m t < Unsigned.range := by
  intro k u
  have hset : ∀ {m t n}, n < Unsigned.range → heldSet s.held m t n k u < Unsigned.range := by
    intro m t n hn
    rw [heldSet_apply]
    split
    · exact hn
    · exact hlt k u
  cases a with
  | go t occurred =>
    cases piece_of_go h with
    | @take m _ _ hw hl _ =>
      rw [hI.sound.others m t (by simp [hI.owner_none hl])]
      exact hset Unsigned.one_lt_range
    | @again m tryonly extra bounded hpc hown hc hty =>
      simp only [InRange, hpc] at hok
      obtain ⟨-, -, hheld⟩ := hI.sound.own m t hown
      rw [Nat.mod_eq_of_lt (hlt m t)] at hheld
      exact hset (hheld ▸ hok hown)
    | @release m _ => exact hset (Nat.lt_of_le_of_lt (Nat.sub_le ..) (hlt m t))
    | _ =>
      exact hlt k u
  | acquire | release =>
    obtain ⟨-, ⟨⟩⟩ := Option.ite_none_right_eq_some.mp h
    exact hlt k u
  | natives | bind | park =>
    cases h
    exact hlt k u

theorem go_reacquire {tryonly bounded : Bool}
    (hext : (s.mem.mutex m).internalLocked = false) (hI : Inv s)
    (hpc : s.pc t = .acquire m tryonly extra bounded) (hown : (s.mem.mutex m).owner = some t)
    (hcount : 1 ≤ (s.mem.mutex m).count) :
    s.go t occurred = some (
      if (s.mem.mutex m).type = .recursiveNp then
        { mem := s.mem.setMutex m
            { s.mem.mutex m with count := Unsigned.incr (s.mem.mutex m).count }
          pc := update s.pc t (.returned .ok)
          held := heldSet s.held m t (s.held m t + 1) }
      else s.goto t (.returned (if tryonly then .ebusy else .edeadlk))) := by
  have hl : (s.mem.mutex m).locked = true := by
    rw [hI.locked_iff, hown]
    simp
  unfold Sys.go
  simp only [hpc]
  rw [if_neg (by simp [hext]), acquireEnter_owner tryonly bounded hl hown hcount]
  by_cases hty : (s.mem.mutex m).type = .recursiveNp
  · rw [if_pos hty, if_pos hty]
    rfl
  · rw [if_neg hty, if_neg hty]
    cases tryonly <;> rfl

theorem Inv.contract (hI : Inv s) (hlt : ∀ m t, s.held m t < Unsigned.range)
    (hext : (s.mem.mutex m).internalLocked = false) : Contract s m := by
  have hcp := hI.count_pos_iff (hlt m)
  refine ⟨hI.locked_iff, hI.locked_iff.trans hcp.symm,
    fun t u ht hu => ?_, ?_, fun t occurred hne =>
    ⟨fun hpc => ?_, fun hpc => ?_, fun hpc => hne (hI.releasing t m hpc)⟩, ?_, ?_,
    fun hl t => hI.sound.others m t (by simp [hI.owner_none hl]), fun hz => ?_⟩
  · exact Option.some.inj ((hI.owner_of_held ht).symm.trans (hI.owner_of_held hu))
  · intro t tryonly extra bounded occurred hpc hown hok
    simp only [InRange, hpc] at hok
    rw [go_reacquire hext hI hpc hown (hcp.mpr (by simp [hown])), Unsigned.incr_of_lt (hok hown)]
  · unfold Sys.go
    simp only [hpc, hext]
    split
    · exact Or.inr rfl
    · exact Or.inl rfl
  · unfold Sys.go
    simp only [hpc]
    rw [if_pos hne]
  · intro t a s' hpc hne hstep hown
    rcases step_owner hstep hown with h | ⟨extra, h⟩
    · exact hne h
    · cases hp : s.pc t <;> simp [hp, Pc.releases, Pc.wants] at hpc h
  · intro t occurred s' hpc hgo
    have hown := hI.releasing t m hpc
    have hI' := (piece_of_go hgo).inv hI
    obtain ⟨hpos, -, -⟩ := hI.sound.own m t hown
    unfold Sys.go at hgo
    simp only [hpc, Sys.setHeld, Sys.goto] at hgo
    cases hgo
    refine ⟨hown, by simp, by simp; omega, ?_⟩
    rw [← hI.sound.decr_eq_zero_iff hown, hI'.sound.locked m]
    simp only [releaseLocked_owner, true_and]
    split <;> simp_all
  · by_contra hl
    obtain ⟨t, ht⟩ := Option.ne_none_iff_exists'.mp (hI.locked_iff.mp (by simpa using hl))
    exact Nat.one_le_iff_ne_zero.mp (hI.sound.own m t ht).1 (hz t)

/-- **The contract of a private mutex**, in every interleaving in which no recursion count
reaches the end of its range: it is locked iff it has an owner iff its count is positive, one
thread at most holds it, only a recursive one is re-acquired, only the owner releases it, and
it is free exactly when every acquire has had its release. -/
theorem mutex_contract (s : Sys Mid Tid D) (hs : Reachable Sys.step InRange Initial s) (m : Mid)
    (hext : (s.mem.mutex m).internalLocked = false) : Contract s m := by
  obtain ⟨hI, hlt⟩ := hs.invariant (I := fun s => Inv s ∧ ∀ m t, s.held m t < Unsigned.range)
    (fun s hs => ⟨hs.inv, fun m t => hs.held m t ▸ Nat.zero_lt_of_lt Unsigned.one_lt_range⟩)
    fun s a s' ⟨hI, hlt⟩ hok hstep => ⟨step_inv hI hstep, step_held_lt hI hok hlt hstep⟩
  exact hI.contract hlt hext

/-! ## Runs -/

/-- Thread 0 acquires a recursive mutex twice, thread 1 tries it, waits for it and
tries to release it, thread 0 releases it twice and thread 1 gets it. -/
def contended : List (Action Unit Nat Unit) :=
  [.natives 2, .acquire 0 () false false false, .go 0 true, .acquire 0 () false false false,
    .go 0 true, .acquire 1 () true false false, .go 1 true, .release 1 (), .go 1 true, .go 1 true,
    .acquire 1 () false false false, .go 1 true, .release 0 (), .go 0 true, .go 0 true, .go 0 true,
    .release 0 (), .go 0 true, .go 0 true, .go 0 true, .go 1 true]

theorem mutex_contract_contended :
    ∃ s : Sys Unit Nat Unit,
      runOk Sys.step InRange (initSys .recursiveNp) contended = some s ∧
      (s.mem.mutex ()).owner = some 1 ∧ Contract s () := by
  obtain ⟨s, hs, hown, hext⟩ : ∃ s, runOk Sys.step InRange (initSys .recursiveNp) contended = some
      s ∧ (s.mem.mutex ()).owner = some 1 ∧ (s.mem.mutex ()).internalLocked = false :=
    exists_of_any (by decide +kernel)
  have hr := reachable_of_runOk (.init (initSys_initial .recursiveNp)) hs
  exact ⟨s, hs, hown, mutex_contract s hr () hext⟩

theorem reachable_acquires (n : Nat) (hn : n < Unsigned.range) :
    ∃ s : Sys Unit Unit Unit, Reachable Sys.step Always Initial s ∧ s.pc () = .returned .ok ∧
      (s.mem.mutex ()).type = .recursiveNp ∧ (s.mem.mutex ()).internalLocked = false ∧
      (s.mem.mutex ()).owner = some () ∧ s.held () () = n + 1 := by
  induction n with
  | zero =>
    obtain ⟨s, hs, hpc, hty, hext, hown, hheld⟩ : ∃ s : Sys Unit Unit Unit,
        run Sys.step (initSys .recursiveNp) [.acquire () () false false false, .go () true] = some
        s ∧ s.pc () = .returned .ok ∧ (s.mem.mutex ()).type = .recursiveNp ∧
        (s.mem.mutex ()).internalLocked = false ∧ (s.mem.mutex ()).owner = some () ∧
        s.held () () = 1 := exists_of_any (by decide +kernel)
    exact ⟨s, reachable_of_run (.init (initSys_initial .recursiveNp)) hs, hpc, hty, hext, hown,
      hheld⟩
  | succ n ih =>
    obtain ⟨s, hs, hpc, hty, hext, hown, hheld⟩ := ih (by omega)
    have hI : Inv s := hs.invariant (fun s h => h.inv) fun s a s' hI _ h => step_inv hI h
    obtain ⟨-, -, hcount⟩ := hI.sound.own () () hown
    rw [hheld, Nat.mod_eq_of_lt hn] at hcount
    -- the call, then its critical section
    have hcall : s.step (.acquire () () false false false) =
        some (s.goto () (.acquire () false false false)) := by
      simp [Sys.step, hpc, Pc.outside]
    have hI' := step_inv hI hcall
    have hgo : (s.goto () (.acquire () false false false)).go () true = some _ :=
      go_reacquire hext hI'
        (show (s.goto () _).pc () = .acquire () false false false by simp [Sys.goto]) hown
        (show 1 ≤ (s.mem.mutex ()).count by omega)
    rw [if_pos (show ((s.goto () _).mem.mutex ()).type = .recursiveNp from hty)] at hgo
    refine ⟨_, (hs.step trivial hcall).step (a := .go () true) trivial hgo, ?_, ?_, ?_, ?_, ?_⟩
    all_goals simp [Sys.goto, hty, hext, hown, hheld]

/-- After `2 ^ 32` acquires by its owner a recursive mutex is locked with a count of 0. -/
theorem recursive_count_wraps :
    ∃ s : Sys Unit Unit Unit, Reachable Sys.step Always Initial s ∧
      (s.mem.mutex ()).internalLocked = false ∧ (s.mem.mutex ()).locked = true ∧
      (s.mem.mutex ()).count = 0 ∧ ¬ Contract s () := by
  have hr := Unsigned.one_lt_range
  obtain ⟨s, hs, -, -, hext, hown, hheld⟩ :=
    reachable_acquires (Unsigned.range - 1) (by omega)
  have hI : Inv s := hs.invariant (fun s h => h.inv) fun s a s' hI _ h => step_inv hI h
  have hl : (s.mem.mutex ()).locked = true := by
    rw [hI.locked_iff, hown]
    simp
  have hcount : (s.mem.mutex ()).count = 0 := by
    obtain ⟨-, -, hc⟩ := hI.sound.own () () hown
    rw [hc, hheld, Nat.sub_add_cancel (by omega), Nat.mod_self]
  exact ⟨s, hs, hext, hl, hcount, fun hC => by have := hC.locked_iff_count.mp hl; omega⟩

end Ngpt.Sync
