import Ngpt.Data.Keys
import Ngpt.Lib.Count
import Mathlib.Data.Fintype.Basic

/-!
# ngpt — the destructors of thread-specific data

`pth_key_destroydata` of `pth_data.c`, which `pth_tcb_destroy` calls for a thread that ends with a
table of values. It goes through the keys up to `PTH_DESTRUCTOR_ITERATIONS` times and stops as
soon as `data_count` is 0. The count also has the values of keys that were deleted since, so that
it need not reach 0; that it is not 0 too early is an invariant of the whole run of the process.

The destructors are taken to touch neither keys nor values, so that the table of keys is the same
at every call of one.

Result: `destroydata_calls`.
-/

namespace Ngpt.Keys

open Function Transition

/-! ## The loops -/

/-- `PTH_DESTRUCTOR_ITERATIONS`. -/
def pthDestructorIterations : Nat := 4

/-- The keys, in the order of the loop. -/
def allKeys : List Int := (List.range 256).map Int.ofNat

/-- A call of a destructor; `slot` is what the slot of the key holds meanwhile. -/
structure Call where
  key        : Int
  destructor : Nat
  data       : Nat
  slot       : Nat
  deriving DecidableEq, Repr

variable (keytab : Int → Entry)

/-- The body of the inner loop before its `break`. `none`: a read through a `data_value` that is
`NULL`. -/
def destroyKey (x : Thread) (key : Int) : Option (Thread × List Call) :=
  if x.dataCount > 0 then
    if (keytab key).used then
      match x.dataValue with
      | none => none
      | some d =>
        if d key ≠ 0 then
          let x' : Thread := ⟨some (update d key 0), x.dataCount - 1⟩
          some (x', if (keytab key).destructor ≠ 0 then
            [⟨key, (keytab key).destructor, d key, x'.value key⟩] else [])
        else some (x, [])
    else some (x, [])
  else some (x, [])

/-- The inner loop. -/
def destroyKeys : Thread → List Int → Option (Thread × List Call)
  | x, [] => some (x, [])
  | x, key :: keys => (destroyKey keytab x key).bind fun r =>
    if r.1.dataCount = 0 then some r
    else (destroyKeys r.1 keys).map fun r' => (r'.1, r.2 ++ r'.2)

/-- The outer loop. -/
def destroyRounds : Nat → Thread → Option (Thread × List Call)
  | 0, x => some (x, [])
  | n + 1, x => (destroyKeys keytab x allKeys).bind fun r =>
    if r.1.dataCount = 0 then some r
    else (destroyRounds n r.1).map fun r' => (r'.1, r.2 ++ r'.2)

def pthKeyDestroydata (x : Thread) : Option (Thread × List Call) :=
  (destroyRounds keytab pthDestructorIterations x).map fun r =>
    ({ r.1 with dataValue := none }, r.2)

/-! ## The count -/

/-- The number of keys with a value. -/
def slots (value : Int → Nat) : Nat := (Finset.univ.filter fun k : Fin 256 => value k ≠ 0).card

/-- `data_count` is the number of slots that are not `NULL`. -/
def Counted (x : Thread) : Prop := x.dataCount = slots x.value

def InRange (key : Int) : Prop := 0 ≤ key ∧ key < pthKeyMax

instance (key : Int) : Decidable (InRange key) := inferInstanceAs (Decidable (_ ∧ _))

theorem InRange.exists_fin {key : Int} (h : InRange key) : ∃ k : Fin 256, key = k := by
  obtain ⟨hlow, hhigh⟩ := h
  unfold pthKeyMax at hhigh
  exact ⟨⟨key.toNat, by omega⟩, by simp; omega⟩

theorem mem_allKeys {key : Int} : key ∈ allKeys ↔ InRange key := by
  unfold allKeys InRange pthKeyMax
  rw [List.mem_map]
  constructor
  · rintro ⟨n, hn, rfl⟩
    rw [List.mem_range] at hn
    exact ⟨Int.natCast_nonneg n, Int.ofNat_lt.mpr hn⟩
  · rintro ⟨hlow, hhigh⟩
    exact ⟨key.toNat, List.mem_range.mpr (by omega), Int.toNat_of_nonneg hlow⟩

theorem allKeys_nodup : allKeys.Nodup :=
  List.nodup_range.map fun _ _ => Int.ofNat.inj

theorem slots_update (d : Int → Nat) {key : Int} (hkey : InRange key) (v : Nat) :
    slots (update d key v) + (if d key ≠ 0 then 1 else 0) = slots d + if v ≠ 0 then 1 else 0 := by
  obtain ⟨k, rfl⟩ := hkey.exists_fin
  have hfun : (fun a : Fin 256 => update d k v a) = update (fun a : Fin 256 => d a) k v := by
    funext a
    by_cases ha : a = k
    · rw [ha, update_self, update_self]
    · have hint : (a : Int) ≠ k := fun h => ha (by omega)
      rw [update_of_ne ha, update_of_ne hint]
  have htotal := Count.total_update (fun a : Fin 256 => d a) (fun v => if v ≠ 0 then 1 else 0) k v
  rw [← hfun] at htotal
  rw [slots, slots, Finset.card_filter, Finset.card_filter]
  exact htotal

theorem eq_zero_of_slots {d : Int → Nat} (h : slots d = 0) {key : Int} (hkey : InRange key) :
    d key = 0 := by
  obtain ⟨k, rfl⟩ := hkey.exists_fin
  by_contra hne
  have hmem : k ∈ Finset.univ.filter fun k : Fin 256 => d k ≠ 0 := by simpa using hne
  rw [Finset.card_eq_zero.mp h] at hmem
  exact absurd hmem (Finset.notMem_empty k)

theorem slots_zero : slots (fun _ => 0) = 0 := by
  simp [slots]

theorem Thread.value_some {x : Thread} {d : Int → Nat} (hd : x.dataValue = some d) :
    x.value = d := by
  funext key
  unfold Thread.value
  rw [hd]

theorem Thread.value_none {x : Thread} (hd : x.dataValue = none) : x.value = fun _ => 0 := by
  funext key
  unfold Thread.value
  rw [hd]

theorem Counted.store {x : Thread} {d : Int → Nat} {key : Int} (h : Counted x)
    (hd : x.dataValue = some d) (hkey : InRange key) (value : Nat) :
    Counted (x.store d key value) := by
  have hslots := slots_update d hkey value
  unfold Counted at h ⊢
  rw [Thread.value_some hd] at h
  rw [Thread.value_some rfl]
  simp only [Thread.store, h]
  by_cases hold : d key = 0 <;> by_cases hnew : value = 0 <;>
    simp [hold, hnew] at hslots ⊢ <;> omega

/-! ## Runs -/

section Runs

variable {T : Type} {s s' : Sys T} {t : T}

/-- The keys given to `pth_key_delete` and `pth_key_setdata` are in range. -/
def GoodKeys (_ : Sys T) : Event T → Prop
  | .delete _ key | .setdata _ key _ => InRange key
  | _ => True

instance (s : Sys T) (e : Event T) : Decidable (GoodKeys s e) := by
  rcases e <;> dsimp only [GoodKeys] <;> infer_instance
/-- Every thread's count, and the key of a `pth_key_setdata` in progress. -/
def AllCounted (s : Sys T) : Prop :=
  ∀ t, Counted (s.thread t) ∧ ∀ r, (s.pc t).setting = some r → InRange r.1

theorem Start.allCounted (h : Start s) : AllCounted s := by
  intro t
  rw [h.thread t, h.idle t]
  exact ⟨(congrArg Int.ofNat slots_zero).symm, nofun⟩

variable [DecidableEq T]

theorem AllCounted.move {q : Pc} (h : AllCounted s) (hpc : s'.pc = update s.pc t q)
    (hthread : ∀ u, u ≠ t → s'.thread u = s.thread u) (ht : Counted (s'.thread t))
    (hset : ∀ r, q.setting = some r → InRange r.1) : AllCounted s' := by
  intro u
  rw [hpc]
  by_cases hu : u = t
  · rw [hu, update_self]
    exact ⟨ht, hset⟩
  · rw [update_of_ne hu, hthread u hu]
    exact h u

theorem AllCounted.went (h : AllCounted s) (hs : Went s t s') : AllCounted s' := by
  cases hs with
  | move q hpc hthread hfresh hset hgot =>
    refine h.move hpc (fun u _ => congrFun hthread u) (hthread ▸ (h t).1) fun r hr => ?_
    rcases hset with hnone | hsame
    · cases hnone.symm.trans hr
    · exact (h t).2 r (hsame.symm.trans hr)
  | created key hpc hs =>
    subst hs
    exact h.move rfl (fun _ _ => rfl) (h t).1 nofun
  | malloc key value hpc hnone hs =>
    subst hs
    have hcount := (h t).1
    rw [Counted, Thread.value_none hnone] at hcount
    refine h.move rfl (fun u hu => update_of_ne hu ..) ?_ fun r hr => (h t).2 r ?_
    · show Counted (update s.thread t _ t)
      rw [update_self]
      exact hcount
    · rw [hpc]
      exact hr
  | store key value d hpc hd hs =>
    subst hs
    refine h.move rfl (fun u hu => update_of_ne hu ..) ?_ nofun
    show Counted (update s.thread t _ t)
    rw [update_self]
    exact (h t).1.store hd ((h t).2 (key, value) (hpc ▸ rfl)) value

theorem AllCounted.call {q : Pc} (h : AllCounted s) (hset : ∀ r, q.setting = some r → InRange r.1)
    (hs : s.call t q = some s') : AllCounted s' := by
  obtain ⟨-, ⟨⟩⟩ := Option.ite_none_right_eq_some.mp hs
  exact h.move rfl (fun _ _ => rfl) (h t).1 hset

theorem AllCounted.step {e : Event T} (h : AllCounted s) (hok : GoodKeys s e)
    (hs : s.step e = some s') : AllCounted s' := by
  cases e with
  | create t func => exact h.call (q := .createLock func) nofun hs
  | delete t key => exact h.call (q := .deleteTest key) nofun hs
  | setdata t key value =>
    obtain ⟨s₁, hcall, rfl⟩ := Option.map_eq_some_iff.mp hs
    have hset : ∀ r, (Pc.setTest key value).setting = some r → InRange r.1 := by
      rintro _ ⟨⟩
      exact hok
    have hcalled : AllCounted s₁ := h.call hset hcall
    exact hcalled
  | getdata t key => exact h.call (q := .getTest key) nofun hs
  | go t => exact h.went (went_of_go hs)
  | noMemory t =>
    cases eq_of_noMemory hs
    exact h.move rfl (fun _ _ => rfl) (h t).1 nofun

end Runs

/-! ## The calls -/

/-- The key is in use and has a destructor and a value. -/
def Due (x : Thread) (key : Int) : Bool :=
  (keytab key).used && (keytab key).destructor != 0 && x.value key != 0

/-- The call for a key: its destructor gets its value, and the slot is `NULL` by then. -/
def callOf (x : Thread) (key : Int) : Call := ⟨key, (keytab key).destructor, x.value key, 0⟩

variable {x : Thread} {keys : List Int} {key : Int}

theorem Counted.eq_zero (h : Counted x) (hcount : ¬ x.dataCount > 0) (hkey : InRange key) :
    x.value key = 0 := by
  refine eq_zero_of_slots ?_ hkey
  rw [h] at hcount
  omega

theorem destroyKey_spec (h : Counted x) (hkey : InRange key) :
    ∃ x', destroyKey keytab x key = some (x', ([key].filter (Due keytab x)).map (callOf keytab x)) ∧
      Counted x' ∧ ∀ k, x'.value k = if k = key ∧ (keytab key).used then 0 else x.value k := by
  -- nothing to take
  have hnone : (keytab key).used = false ∨ x.value key = 0 → Due keytab x key = false ∧
      ∀ k, x.value k = if k = key ∧ (keytab key).used then 0 else x.value k := by
    intro hno
    refine ⟨by rcases hno with hno | hno <;> simp [Due, hno], fun k => ?_⟩
    split
    case isTrue hk =>
      rw [hk.2] at hno
      rw [hk.1]
      exact hno.resolve_left nofun
    case isFalse => rfl
  unfold destroyKey
  by_cases hcount : x.dataCount > 0
  · rw [if_pos hcount]
    by_cases hused : (keytab key).used = true
    · rw [if_pos hused]
      cases hd : x.dataValue with
      | none =>
        rw [h, Thread.value_none hd, slots_zero] at hcount
        cases hcount
      | some d =>
        have hvalue := Thread.value_some hd
        by_cases hkeyval : d key = 0
        · obtain ⟨hdue, hsame⟩ := hnone (.inr (by rw [hvalue, hkeyval]))
          exact ⟨x, by simp [hkeyval, hdue], h, hsame⟩
        · have hstore := h.store hd hkey 0
          rw [Thread.store, if_neg hkeyval, if_pos rfl] at hstore
          have hslot : Thread.value ⟨some (update d key 0), x.dataCount - 1⟩ key = 0 :=
            update_self ..
          refine ⟨_, ?_, hstore, fun k => ?_⟩
          · by_cases hdes : (keytab key).destructor = 0 <;>
              simp [hkeyval, hused, hdes, Due, callOf, hvalue, hslot]
          · rw [Thread.value_some rfl, hvalue, update_apply]
            simp [hused]
    · obtain ⟨hdue, hsame⟩ := hnone (.inl (by simpa using hused))
      exact ⟨x, by simp [hused, hdue], h, hsame⟩
  · obtain ⟨hdue, hsame⟩ := hnone (.inr (h.eq_zero hcount hkey))
    exact ⟨x, by simp [hcount, hdue], h, hsame⟩

theorem calls_congr {x' : Thread} (h : ∀ k ∈ keys, x'.value k = x.value k) :
    (keys.filter (Due keytab x')).map (callOf keytab x') =
      (keys.filter (Due keytab x)).map (callOf keytab x) := by
  have hdue : keys.filter (Due keytab x') = keys.filter (Due keytab x) :=
    List.filter_congr fun k hk => by rw [Due, Due, h k hk]
  rw [hdue]
  exact List.map_congr_left fun k hk => by rw [callOf, callOf, h k (List.mem_of_mem_filter hk)]

theorem calls_eq_nil (h : ∀ k ∈ keys, (keytab k).used = false ∨ x.value k = 0) :
    (keys.filter (Due keytab x)).map (callOf keytab x) = [] := by
  rw [List.map_eq_nil_iff, List.filter_eq_nil_iff]
  intro k hk
  rcases h k hk with hno | hno <;> simp [Due, hno]

theorem destroyKeys_spec (h : Counted x) (hkeys : ∀ k ∈ keys, InRange k) (hnodup : keys.Nodup) :
    ∃ x', destroyKeys keytab x keys =
        some (x', (keys.filter (Due keytab x)).map (callOf keytab x)) ∧
      Counted x' ∧ (∀ k, x.value k = 0 → x'.value k = 0) ∧
      ∀ k ∈ keys, (keytab k).used = false ∨ x'.value k = 0 := by
  induction keys generalizing x with
  | nil => exact ⟨x, rfl, h, fun _ => id, nofun⟩
  | cons key keys ih =>
    obtain ⟨hnew, hnodup⟩ := List.nodup_cons.mp hnodup
    obtain ⟨hkey, hkeys⟩ := List.forall_mem_cons.mp hkeys
    obtain ⟨x₁, hrun, hcount, hvalue⟩ := destroyKey_spec keytab h hkey
    have hzero : ∀ k, x.value k = 0 → x₁.value k = 0 := by
      intro k hk
      rw [hvalue k, hk, ite_self]
    have hhead : (keytab key).used = false ∨ x₁.value key = 0 := by
      cases hused : (keytab key).used
      · exact .inl rfl
      · exact .inr ((hvalue key).trans (if_pos ⟨rfl, hused⟩))
    have hrest : ∀ k ∈ keys, x₁.value k = x.value k := by
      intro k hk
      exact (hvalue k).trans (if_neg fun hx : k = key ∧ _ => hnew (hx.1 ▸ hk))
    have hsplit : ((key :: keys).filter (Due keytab x)).map (callOf keytab x) =
        ([key].filter (Due keytab x)).map (callOf keytab x) ++
          (keys.filter (Due keytab x₁)).map (callOf keytab x₁) := by
      rw [calls_congr keytab hrest, ← List.map_append, ← List.filter_append]
      rfl
    rw [destroyKeys, hrun, Option.bind_some, hsplit]
    by_cases hstop : x₁.dataCount = 0
    · -- no key has a value any more
      have hall : ∀ k ∈ keys, x₁.value k = 0 :=
        fun k hk => hcount.eq_zero (by omega) (hkeys k hk)
      rw [calls_eq_nil keytab fun k hk => .inr (hall k hk), List.append_nil]
      exact ⟨x₁, if_pos hstop, hcount, hzero,
        List.forall_mem_cons.mpr ⟨hhead, fun k hk => .inr (hall k hk)⟩⟩
    · obtain ⟨x', hrun', hcount', hzero', hall⟩ := ih hcount hkeys hnodup
      rw [if_neg hstop, hrun']
      exact ⟨x', rfl, hcount', fun k hk => hzero' k (hzero k hk),
        List.forall_mem_cons.mpr ⟨hhead.imp_right (hzero' key), hall⟩⟩

theorem destroyRounds_spec (n : Nat) (h : Counted x) :
    ∃ x', destroyRounds keytab (n + 1) x =
      some (x', (allKeys.filter (Due keytab x)).map (callOf keytab x)) := by
  induction n generalizing x with
  | zero =>
    obtain ⟨x₁, hrun, -⟩ :=
      destroyKeys_spec keytab h (fun _ => mem_allKeys.mp) allKeys_nodup
    refine ⟨x₁, ?_⟩
    rw [destroyRounds, hrun, Option.bind_some, destroyRounds]
    split
    case isTrue => rfl
    case isFalse => simp
  | succ n ih =>
    obtain ⟨x₁, hrun, hcount, -, hall⟩ :=
      destroyKeys_spec keytab h (fun _ => mem_allKeys.mp) allKeys_nodup
    rw [destroyRounds, hrun, Option.bind_some]
    split
    case isTrue => exact ⟨x₁, rfl⟩
    case isFalse =>
      -- nothing is due in the later rounds
      obtain ⟨x', hrest⟩ := ih hcount
      rw [hrest, calls_eq_nil keytab hall]
      exact ⟨x', congrArg (fun l => some (x', l)) (List.append_nil _)⟩

/-- **Thread-specific data.** In every run with keys in range, the count of every thread is the
number of its slots that are not `NULL`, and `pth_key_destroydata` returns after it has called the
destructor of each key that is due, once and in the order of the keys. -/
theorem destroydata_calls {T : Type} [DecidableEq T] (s : Sys T)
    (h : Reachable Sys.step GoodKeys Start s) (t : T) :
    (s.thread t).dataCount = slots (s.thread t).value ∧
      ∃ x, pthKeyDestroydata s.keytab (s.thread t) =
        some (x, (allKeys.filter (Due s.keytab (s.thread t))).map
          (callOf s.keytab (s.thread t))) := by
  have hall : AllCounted s :=
    h.invariant (fun _ hstart => hstart.allCounted) fun _ _ _ hk hok hs => hk.step hok hs
  have hcount := (hall t).1
  obtain ⟨x, hrun⟩ := destroyRounds_spec s.keytab 3 hcount
  refine ⟨hcount, { x with dataValue := none }, ?_⟩
  rw [pthKeyDestroydata, pthDestructorIterations, hrun]
  rfl

/-- A thread creates two keys and stores a value under each. -/
def setBoth : List (Event Bool) :=
  .create true 5 :: List.replicate 5 (.go true) ++ .create true 6 :: List.replicate 6 (.go true) ++
    setRun true 7 ++ .setdata true 1 9 :: List.replicate 3 (.go true)

theorem destroydata_calls_two :
    ∃ s, runOk Sys.step GoodKeys noKeys setBoth = some s ∧ (s.thread true).dataCount = 2 ∧
      ∃ x, pthKeyDestroydata s.keytab (s.thread true) =
        some (x, [⟨0, 5, 7, 0⟩, ⟨1, 6, 9, 0⟩]) := by
  obtain ⟨s, hs, hcount, hcalls⟩ : ∃ s, runOk Sys.step GoodKeys noKeys setBoth = some s ∧
      (s.thread true).dataCount = 2 ∧ (allKeys.filter (Due s.keytab (s.thread true))).map
        (callOf s.keytab (s.thread true)) = [⟨0, 5, 7, 0⟩, ⟨1, 6, 9, 0⟩] :=
    ⟨_, rfl, rfl, by decide +kernel⟩
  have hreturns := (destroydata_calls s (reachable_of_runOk (.init noKeys_start) hs) true).2
  rw [hcalls] at hreturns
  exact ⟨s, hs, hcount, hreturns⟩

end Ngpt.Keys
