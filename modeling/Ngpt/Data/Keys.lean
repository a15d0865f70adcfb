import Ngpt.Errno
import Ngpt.Sync.Qlock
import Ngpt.Lib.Transition
import Mathlib.Data.Fintype.Defs

/-!
# ngpt — thread-specific data (`pth_data.c`)

`pth_key_create`, `pth_key_delete`, `pth_key_setdata` and `pth_key_getdata`, called by any
number of threads, one lock operation or one access to the table of keys at a time. The
values of a thread are its own: the other threads do not touch them.

A key is an `int`, and the functions only test that it is below `PTH_KEY_MAX`. The arrays
are defined for every integer: below 0 lies memory of somebody else, which a store is
taken not to share with another array. Values and destructors are addresses, `NULL` is 0.

Not in the code: `fresh t k`, that a creation has returned `k` and `t` has not called
`pth_key_setdata` for it with another value than `NULL` since.

Result: `fresh_keys_null`.
-/

namespace Ngpt.Keys

open Function Transition Ngpt.Sync

/-- `PTH_KEY_MAX`. -/
def pthKeyMax : Int := 256

/-- `struct pth_keytab_st`. -/
structure Entry where
  used       : Bool
  destructor : Nat
  deriving DecidableEq, Repr

/-- `data_value` and `data_count` of a thread. -/
structure Thread where
  dataValue : Option (Int → Nat)
  dataCount : Int

/-- The value of a key, as `pth_key_getdata` finds it. -/
def Thread.value (x : Thread) (key : Int) : Nat :=
  match x.dataValue with
  | none => 0
  | some d => d key

/-- The stores of `pth_key_setdata` in the table `d`. -/
def Thread.store (x : Thread) (d : Int → Nat) (key : Int) (value : Nat) : Thread where
  dataValue := some (update d key value)
  dataCount :=
    if d key = 0 then if value ≠ 0 then x.dataCount + 1 else x.dataCount
    else if value = 0 then x.dataCount - 1 else x.dataCount

/-- Where a thread is: before the named access or lock operation, or after a return. -/
inductive Pc where
  | idle
  | createLock (func : Nat)
  | createTest (func : Nat) (key : Int)
  | createUse (func : Nat) (key : Int)
  | createBind (func : Nat) (key : Int)
  | createUnlock (result : Option Int)
  | created (result : Option Int)
  | deleteTest (key : Int)
  | deleteLock (key : Int)
  | deleteStore (key : Int)
  | deleteUnlock
  | deleted (result : Bool)
  | setTest (key : Int) (value : Nat)
  | setTable (key : Int) (value : Nat)
  | setStore (key : Int) (value : Nat)
  | stored (rc : Errno)
  | getTest (key : Int)
  | getValue (key : Int)
  /-- `pth_key_getdata` has returned; `fresh` tells what the key was then -/
  | got (key : Int) (value : Nat) (fresh : Bool)
  deriving DecidableEq, Repr

def Pc.outside : Pc → Bool
  | .idle | .created _ | .deleted _ | .stored _ | .got _ _ _ => true
  | _ => false

/-- The thread is in a `pth_key_setdata` that gives the key a value. -/
def Pc.sets : Pc → Int → Bool
  | .setTest k v, key | .setTable k v, key | .setStore k v, key => k = key ∧ v ≠ 0
  | _, _ => false

/-- What a `pth_key_setdata` in progress is to store. -/
def Pc.setting : Pc → Option (Int × Nat)
  | .setTest k v | .setTable k v | .setStore k v => some (k, v)
  | _ => none

theorem Pc.sets_eq {p q : Pc} (h : q.setting = none ∨ q.setting = p.setting) (key : Int)
    (hp : p.sets key = false) : q.sets key = false := by
  cases q <;> cases p <;> simp_all [Pc.setting, Pc.sets]

/-- The keys and the threads `T`. -/
structure Sys (T : Type) where
  keytab : Int → Entry
  lock   : Qlock T
  thread : T → Thread
  pc     : T → Pc
  fresh  : T → Int → Bool

inductive Event (T : Type) where
  | create (t : T) (func : Nat)
  | delete (t : T) (key : Int)
  | setdata (t : T) (key : Int) (value : Nat)
  | getdata (t : T) (key : Int)
  /-- the next access or lock operation of `t` -/
  | go (t : T)
  /-- the `pth_malloc` of `t` fails -/
  | noMemory (t : T)
  deriving DecidableEq, Repr

variable {T : Type} [DecidableEq T]

namespace Sys

def goto (s : Sys T) (t : T) (pc : Pc) : Sys T := { s with pc := update s.pc t pc }

def setEntry (s : Sys T) (key : Int) (e : Entry) : Sys T :=
  { s with keytab := update s.keytab key e }

def setThread (s : Sys T) (t : T) (x : Thread) : Sys T :=
  { s with thread := update s.thread t x }

/-- `key` has been returned by a creation. -/
def refresh (s : Sys T) (key : Int) : Sys T :=
  { s with fresh := fun t k => if k = key then true else s.fresh t k }

/-- `t` wants to give `key` the value. -/
def soil (s : Sys T) (t : T) (key : Int) (value : Nat) : Sys T :=
  { s with fresh := fun u k => if u = t ∧ k = key ∧ value ≠ 0 then false else s.fresh u k }

def goCreate (s : Sys T) (t : T) : Pc → Option (Sys T)
  | .createLock func =>
    (s.lock.acquire t).map fun l => { s.goto t (.createTest func 0) with lock := l }
  | .createTest func key =>
    if key < pthKeyMax then
      if (s.keytab key).used then some (s.goto t (.createTest func (key + 1)))
      else some (s.goto t (.createUse func key))
    else some (s.goto t (.createUnlock none))
  | .createUse func key =>
    some ((s.goto t (.createBind func key)).setEntry key { s.keytab key with used := true })
  | .createBind func key =>
    some ((s.goto t (.createUnlock (some key))).setEntry key
      { s.keytab key with destructor := func })
  | .createUnlock (some key) =>
    some { (s.goto t (.created (some key))).refresh key with lock := s.lock.release t }
  | .createUnlock none => some { s.goto t (.created none) with lock := s.lock.release t }
  | _ => none

def goDelete (s : Sys T) (t : T) : Pc → Option (Sys T)
  | .deleteTest key =>
    if key ≥ pthKeyMax then some (s.goto t (.deleted false))
    else if (s.keytab key).used then some (s.goto t (.deleteLock key))
    else some (s.goto t (.deleted false))
  | .deleteLock key =>
    (s.lock.acquire t).map fun l => { s.goto t (.deleteStore key) with lock := l }
  | .deleteStore key =>
    some ((s.goto t .deleteUnlock).setEntry key { s.keytab key with used := false })
  | .deleteUnlock => some { s.goto t (.deleted true) with lock := s.lock.release t }
  | _ => none

def goSet (s : Sys T) (t : T) : Pc → Option (Sys T)
  | .setTest key value =>
    if key ≥ pthKeyMax then some (s.goto t (.stored .einval))
    else if (s.keytab key).used then some (s.goto t (.setTable key value))
    else some (s.goto t (.stored .einval))
  | .setTable key value =>
    match (s.thread t).dataValue with
    | some _ => some (s.goto t (.setStore key value))
    -- `pth_malloc` zeroes what it hands out
    | none => some ((s.goto t (.setStore key value)).setThread t
        { s.thread t with dataValue := some fun _ => 0 })
  | .setStore key value =>
    (s.thread t).dataValue.map fun d =>
      (s.goto t (.stored .ok)).setThread t ((s.thread t).store d key value)
  | _ => none

def goGet (s : Sys T) (t : T) : Pc → Option (Sys T)
  | .getTest key =>
    if key ≥ pthKeyMax then some (s.goto t (.got key 0 (s.fresh t key)))
    else if (s.keytab key).used then some (s.goto t (.getValue key))
    else some (s.goto t (.got key 0 (s.fresh t key)))
  | .getValue key => some (s.goto t (.got key ((s.thread t).value key) (s.fresh t key)))
  | _ => none

def go (s : Sys T) (t : T) : Option (Sys T) :=
  match s.pc t with
  | .createLock _ | .createTest _ _ | .createUse _ _ | .createBind _ _ | .createUnlock _ =>
    s.goCreate t (s.pc t)
  | .deleteTest _ | .deleteLock _ | .deleteStore _ | .deleteUnlock => s.goDelete t (s.pc t)
  | .setTest _ _ | .setTable _ _ | .setStore _ _ => s.goSet t (s.pc t)
  | .getTest _ | .getValue _ => s.goGet t (s.pc t)
  | .idle | .created _ | .deleted _ | .stored _ | .got _ _ _ => none

def noMemory (s : Sys T) (t : T) : Option (Sys T) :=
  match s.pc t, (s.thread t).dataValue with
  | .setTable _ _, none => some (s.goto t (.stored .enomem))
  | _, _ => none

/-- A call, made by a thread that is in no other one. -/
def call (s : Sys T) (t : T) (pc : Pc) : Option (Sys T) :=
  if (s.pc t).outside then some (s.goto t pc) else none

def step (s : Sys T) : Event T → Option (Sys T)
  | .create t func => s.call t (.createLock func)
  | .delete t key => s.call t (.deleteTest key)
  | .setdata t key value => (s.call t (.setTest key value)).map (·.soil t key value)
  | .getdata t key => s.call t (.getTest key)
  | .go t => s.go t
  | .noMemory t => s.noMemory t

end Sys

/-- Before the first call: no key, and no thread has a table. -/
structure Start (s : Sys T) : Prop where
  unused : ∀ k, 0 ≤ k → k < pthKeyMax → (s.keytab k).used = false
  lock   : s.lock = Qlock.init
  thread : ∀ t, s.thread t = ⟨none, 0⟩
  idle   : ∀ t, s.pc t = .idle
  fresh  : ∀ t k, s.fresh t k = false

/-- No thread has a value for the key, and none is about to store one. -/
def Unset (s : Sys T) (key : Int) : Prop :=
  ∀ t, (s.thread t).value key = 0 ∧ (s.pc t).sets key = false

/-- The condition on a step at `q`: a creation returns a key that is unset. -/
def ReturnOk (s : Sys T) : Pc → Prop
  | .createUnlock (some key) => Unset s key
  | _ => True

def Clean (s : Sys T) : Event T → Prop
  | .go t => ReturnOk s (s.pc t)
  | _ => True

/-- The promise of `pth_key_create`. -/
def FreshNull (s : Sys T) : Prop :=
  ∀ t key value, s.pc t = .got key value true → value = 0

/-! ## The invariant -/

/-- What holds of a thread at `q`, if `fresh` are its fresh keys. -/
structure Fine (x : Thread) (fresh : Int → Bool) (q : Pc) : Prop where
  value : ∀ key, fresh key = true → x.value key = 0
  sets  : ∀ key, fresh key = true → q.sets key = false
  got   : ∀ key value, q = .got key value true → value = 0

/-- A fresh key has no value. -/
def Kept (s : Sys T) : Prop := ∀ t, Fine (s.thread t) (s.fresh t) (s.pc t)

variable {s s' : Sys T} {t u : T}

/-- What a thread does inside a call: the test or the lock operation before it goes on to `q`, or
one of the three stores. -/
inductive Went (s : Sys T) (t : T) (s' : Sys T) : Prop
  | move (q : Pc) (hpc : s'.pc = update s.pc t q) (hthread : s'.thread = s.thread)
      (hfresh : s'.fresh = s.fresh)
      (hset : q.setting = none ∨ q.setting = (s.pc t).setting)
      (hgot : ∀ key value, q = .got key value true →
        value = 0 ∨ s.fresh t key = true ∧ value = (s.thread t).value key)
  | created (key : Int) (hpc : s.pc t = .createUnlock (some key))
      (hs : s' = { (s.goto t (.created (some key))).refresh key with lock := s.lock.release t })
  | malloc (key : Int) (value : Nat) (hpc : s.pc t = .setTable key value)
      (hnone : (s.thread t).dataValue = none)
      (hs : s' = (s.goto t (.setStore key value)).setThread t
        { s.thread t with dataValue := some fun _ => 0 })
  | store (key : Int) (value : Nat) (d : Int → Nat) (hpc : s.pc t = .setStore key value)
      (hd : (s.thread t).dataValue = some d)
      (hs : s' = (s.goto t (.stored .ok)).setThread t ((s.thread t).store d key value))

theorem Went.plain (q : Pc) (hpc : s'.pc = update s.pc t q) (hthread : s'.thread = s.thread)
    (hfresh : s'.fresh = s.fresh) (hset : q.setting = none)
    (hgot : ∀ key value, q ≠ .got key value true) : Went s t s' :=
  .move q hpc hthread hfresh (.inl hset) fun key value h => absurd h (hgot key value)

theorem went_of_goCreate (hs : s.goCreate t (s.pc t) = some s') : Went s t s' := by
  cases hpc : s.pc t <;> rw [hpc] at hs
  case createLock =>
    obtain ⟨l, -, rfl⟩ := Option.map_eq_some_iff.mp hs
    exact .plain _ rfl rfl rfl rfl fun _ _ => nofun
  case createTest =>
    simp only [Sys.goCreate] at hs
    split at hs
    case isTrue =>
      split at hs <;> cases hs <;> exact .plain _ rfl rfl rfl rfl fun _ _ => nofun
    case isFalse =>
      cases hs
      exact .plain _ rfl rfl rfl rfl fun _ _ => nofun
  case createUse | createBind =>
    cases hs
    exact .plain _ rfl rfl rfl rfl fun _ _ => nofun
  case createUnlock result =>
    cases result <;> cases hs
    · exact .plain _ rfl rfl rfl rfl fun _ _ => nofun
    · exact .created _ hpc rfl
  all_goals cases hs

theorem went_of_goDelete (hs : s.goDelete t (s.pc t) = some s') : Went s t s' := by
  cases hpc : s.pc t <;> rw [hpc] at hs
  case deleteTest =>
    simp only [Sys.goDelete] at hs
    split at hs
    case isTrue =>
      cases hs
      exact .plain _ rfl rfl rfl rfl fun _ _ => nofun
    case isFalse =>
      split at hs <;> cases hs <;> exact .plain _ rfl rfl rfl rfl fun _ _ => nofun
  case deleteLock =>
    obtain ⟨l, -, rfl⟩ := Option.map_eq_some_iff.mp hs
    exact .plain _ rfl rfl rfl rfl fun _ _ => nofun
  case deleteStore | deleteUnlock =>
    cases hs
    exact .plain _ rfl rfl rfl rfl fun _ _ => nofun
  all_goals cases hs

theorem went_of_goSet (hs : s.goSet t (s.pc t) = some s') : Went s t s' := by
  cases hpc : s.pc t <;> rw [hpc] at hs
  case setTest =>
    simp only [Sys.goSet] at hs
    split at hs
    case isTrue =>
      cases hs
      exact .plain _ rfl rfl rfl rfl fun _ _ => nofun
    case isFalse =>
      split at hs <;> cases hs
      · exact .move _ rfl rfl rfl (.inr (hpc ▸ rfl)) fun _ _ => nofun
      · exact .plain _ rfl rfl rfl rfl fun _ _ => nofun
  case setTable =>
    simp only [Sys.goSet] at hs
    split at hs <;> cases hs
    case h_1 => exact .move _ rfl rfl rfl (.inr (hpc ▸ rfl)) fun _ _ => nofun
    case h_2 hnone => exact .malloc _ _ hpc hnone rfl
  case setStore =>
    obtain ⟨d, hd, rfl⟩ := Option.map_eq_some_iff.mp hs
    exact .store _ _ d hpc hd rfl
  all_goals cases hs

theorem went_of_goGet (hs : s.goGet t (s.pc t) = some s') : Went s t s' := by
  cases hpc : s.pc t <;> rw [hpc] at hs
  case getTest key =>
    have hnull : Went s t (s.goto t (.got key 0 (s.fresh t key))) :=
      .move _ rfl rfl rfl (.inl rfl) fun _ _ hq => .inl (Pc.got.inj hq).2.1.symm
    simp only [Sys.goGet] at hs
    split at hs
    case isTrue =>
      cases hs
      exact hnull
    case isFalse =>
      split at hs <;> cases hs
      · exact .plain _ rfl rfl rfl rfl fun _ _ => nofun
      · exact hnull
  case getValue key =>
    cases hs
    refine .move _ rfl rfl rfl (.inl rfl) fun key value hq => .inr ?_
    obtain ⟨rfl, rfl, hfresh⟩ := Pc.got.inj hq
    exact ⟨hfresh, rfl⟩
  all_goals cases hs

theorem went_of_go (hs : s.go t = some s') : Went s t s' := by
  unfold Sys.go at hs
  split at hs
  iterate 5 exact went_of_goCreate hs
  iterate 4 exact went_of_goDelete hs
  iterate 3 exact went_of_goSet hs
  iterate 2 exact went_of_goGet hs
  all_goals cases hs

theorem eq_of_noMemory (hs : s.noMemory t = some s') : s' = s.goto t (.stored .enomem) := by
  unfold Sys.noMemory at hs
  split at hs <;> cases hs
  rfl

theorem Kept.move {q : Pc} (h : Kept s) (hpc : s'.pc = update s.pc t q)
    (hthread : ∀ u, u ≠ t → s'.thread u = s.thread u)
    (hfresh : ∀ u, u ≠ t → s'.fresh u = s.fresh u) (ht : Fine (s'.thread t) (s'.fresh t) q) :
    Kept s' := by
  intro u
  rw [hpc]
  by_cases hut : u = t
  · rw [hut, update_self]
    exact ht
  · rw [update_of_ne hut, hthread u hut, hfresh u hut]
    exact h u

theorem Kept.goto {q : Pc} (h : Kept s) (hpc : s'.pc = update s.pc t q)
    (hthread : s'.thread = s.thread) (hfresh : s'.fresh = s.fresh)
    (hset : q.setting = none ∨ q.setting = (s.pc t).setting)
    (hgot : ∀ key value, q = .got key value true →
      value = 0 ∨ s.fresh t key = true ∧ value = (s.thread t).value key) : Kept s' := by
  refine h.move hpc (fun u _ => by rw [hthread]) (fun u _ => by rw [hfresh]) ?_
  rw [hthread, hfresh]
  refine ⟨(h t).value, fun key hkey => ?_, fun key value hq => ?_⟩
  · exact Pc.sets_eq hset key ((h t).sets key hkey)
  · rcases hgot key value hq with hnull | ⟨hkey, hvalue⟩
    · exact hnull
    · exact hvalue.trans ((h t).value key hkey)

/-! ## The steps -/

theorem Kept.refresh {key : Int} {l : Qlock T} (h : Kept s) (hunset : Unset s key) :
    Kept { (s.goto t (.created (some key))).refresh key with lock := l } := by
  intro u
  show Fine (s.thread u) (fun k => if k = key then true else s.fresh u k)
    (update s.pc t (.created (some key)) u)
  have hu : Fine (s.thread u) (fun k => if k = key then true else s.fresh u k) (s.pc u) := by
    refine ⟨fun k hk => ?_, fun k hk => ?_, (h u).got⟩
    · split at hk
      case isTrue heq => rw [heq, (hunset u).1]
      case isFalse => exact (h u).value k hk
    · split at hk
      case isTrue heq => rw [heq, (hunset u).2]
      case isFalse => exact (h u).sets k hk
  by_cases hut : u = t
  · rw [hut, update_self]
    rw [hut] at hu
    exact ⟨hu.value, fun _ _ => rfl, fun _ _ hq => by cases hq⟩
  · rw [update_of_ne hut]
    exact hu

theorem Fine.store {x : Thread} {fresh : Int → Bool} {d : Int → Nat} {key : Int} {value : Nat}
    (h : Fine x fresh (.setStore key value)) (hd : x.dataValue = some d) :
    Fine (x.store d key value) fresh (.stored .ok) := by
  refine ⟨fun k hk => ?_, fun _ _ => rfl, fun _ _ hq => by cases hq⟩
  show update d key value k = 0
  by_cases hkey : k = key
  · rw [hkey, update_self]
    have hsets := h.sets k hk
    simpa [Pc.sets, hkey] using hsets
  · rw [update_of_ne hkey]
    have hvalue := h.value k hk
    unfold Thread.value at hvalue
    rw [hd] at hvalue
    exact hvalue

theorem Kept.went (h : Kept s) (hok : ReturnOk s (s.pc t)) (hs : Went s t s') : Kept s' := by
  cases hs with
  | move q hpc hthread hfresh hset hgot => exact h.goto hpc hthread hfresh hset hgot
  | created key hpc hs =>
    rw [hpc] at hok
    subst hs
    exact h.refresh hok
  | malloc key value hpc hnone hs =>
    subst hs
    refine h.move rfl (fun u hu => update_of_ne hu ..)
      (fun _ _ => rfl) ?_
    have ht := h t
    rw [hpc] at ht
    show Fine (update s.thread t _ t) (s.fresh t) _
    rw [update_self]
    exact ⟨fun _ _ => rfl, ht.sets, nofun⟩
  | store key value d hpc hd hs =>
    subst hs
    refine h.move rfl (fun u hu => update_of_ne hu ..)
      (fun _ _ => rfl) ?_
    have ht := h t
    rw [hpc] at ht
    show Fine (update s.thread t _ t) (s.fresh t) _
    rw [update_self]
    exact ht.store hd

theorem Kept.call {q : Pc} (h : Kept s) (hset : q.setting = none)
    (hgot : ∀ key value, q ≠ .got key value true) (hs : s.call t q = some s') : Kept s' := by
  obtain ⟨-, ⟨⟩⟩ := Option.ite_none_right_eq_some.mp hs
  exact h.goto rfl rfl rfl (.inl hset) fun key value hq => absurd hq (hgot key value)

theorem Kept.setdata {key : Int} {value : Nat} (h : Kept s)
    (hs : s.call t (.setTest key value) = some s') : Kept (s'.soil t key value) := by
  unfold Sys.call at hs
  split at hs <;> cases hs
  refine h.move rfl (fun _ _ => rfl) (fun u hu => ?_) ?_
  · funext k
    exact if_neg fun hx => hu hx.1
  · have hfresh : ∀ k, ((s.goto t (.setTest key value)).soil t key value).fresh t k = true →
        s.fresh t k = true ∧ ¬(k = key ∧ value ≠ 0) := by
      intro k hk
      simp only [Sys.soil, true_and, Sys.goto] at hk
      split at hk
      case isTrue => cases hk
      case isFalse hne => exact ⟨hk, hne⟩
    refine ⟨fun k hk => (h t).value k (hfresh k hk).1, fun k hk => ?_, fun _ _ hq => by cases hq⟩
    refine decide_eq_false fun hx => (hfresh k hk).2 ⟨hx.1.symm, hx.2⟩

theorem Kept.step {e : Event T} (h : Kept s) (hok : Clean s e) (hs : s.step e = some s') :
    Kept s' := by
  rcases e with ⟨t, func⟩ | ⟨t, key⟩ | ⟨t, key, value⟩ | ⟨t, key⟩ | t | t
  · exact h.call (q := .createLock func) rfl (fun _ _ => nofun) hs
  · exact h.call (q := .deleteTest key) rfl (fun _ _ => nofun) hs
  · obtain ⟨s₁, hcall, rfl⟩ := Option.map_eq_some_iff.mp hs
    exact h.setdata hcall
  · exact h.call (q := .getTest key) rfl (fun _ _ => nofun) hs
  · exact h.went hok (went_of_go hs)
  · cases eq_of_noMemory hs
    exact h.goto rfl rfl rfl (.inl rfl) fun _ _ => nofun

theorem Start.kept {T : Type} {s : Sys T} (h : Start s) : Kept s := by
  intro t
  rw [h.idle t]
  refine ⟨fun k hk => ?_, fun _ _ => rfl, fun _ _ hq => by cases hq⟩
  rw [h.fresh t k] at hk
  cases hk

/-- **Fresh keys.** As long as every creation returns a key that no thread has a value for,
`pth_key_getdata` returns `NULL` until the thread stores something else. -/
theorem fresh_keys_null (s : Sys T) (h : Reachable Sys.step Clean Start s) : FreshNull s := by
  have hkept : Kept s :=
    h.invariant (fun _ hstart => hstart.kept) fun _ _ _ hk hok hs => hk.step hok hs
  exact fun t => (hkept t).got

/-! ## A key that is used again -/

section Decide

variable [Fintype T]

instance (s : Sys T) (key : Int) : Decidable (Unset s key) := by
  unfold Unset; infer_instance

instance (s : Sys T) (q : Pc) : Decidable (ReturnOk s q) := by
  unfold ReturnOk; split <;> infer_instance

instance (s : Sys T) (e : Event T) : Decidable (Clean s e) := by
  rcases e <;> dsimp only [Clean] <;> infer_instance

end Decide

/-- A process that has not made a key yet. -/
def noKeys : Sys Bool :=
  ⟨fun _ => ⟨false, 0⟩, Qlock.init, fun _ => ⟨none, 0⟩, fun _ => .idle, fun _ _ => false⟩

theorem noKeys_start : Start noKeys :=
  ⟨fun _ _ _ => rfl, rfl, fun _ => rfl, fun _ => rfl, fun _ _ => rfl⟩

/-- The calls of a thread, each up to its return, for a process with one key. -/
def createRun (t : Bool) : List (Event Bool) := [.create t 0, .go t, .go t, .go t, .go t, .go t]
def deleteRun (t : Bool) : List (Event Bool) := [.delete t 0, .go t, .go t, .go t, .go t]
def setRun (t : Bool) (value : Nat) : List (Event Bool) :=
  [.setdata t 0 value, .go t, .go t, .go t]
def getRun (t : Bool) : List (Event Bool) := [.getdata t 0, .go t, .go t]

/-- The value is taken back before the key is deleted and created again. -/
theorem fresh_keys_null_cleared :
    ∃ s, runOk Sys.step Clean noKeys (createRun true ++ setRun true 7 ++ setRun true 0 ++
        deleteRun true ++ createRun false ++ getRun true) = some s ∧
      s.pc true = .got 0 0 true ∧ FreshNull s := by
  refine exists_and_of_any (fun _ => id) (by decide +kernel) fun s hs _ => ?_
  exact fresh_keys_null s (reachable_of_runOk (.init noKeys_start) hs)

/-- A value of the deleted key shows up under the new one. -/
theorem deleted_key_keeps_value :
    ∃ s : Sys Bool, Reachable Sys.step Always Start s ∧ s.pc true = .got 0 7 true ∧
      ¬ FreshNull s := by
  obtain ⟨s, hs, hpc⟩ : ∃ s, run Sys.step noKeys (createRun true ++ setRun true 7 ++
      deleteRun true ++ createRun false ++ getRun true) = some s ∧
      s.pc true = .got 0 7 true := ⟨_, rfl, rfl⟩
  refine ⟨s, reachable_of_run (.init noKeys_start) hs, hpc, fun h => ?_⟩
  exact absurd (h true 0 7 hpc) (by decide)

end Ngpt.Keys
