import Ngpt.Lib.Placement
import Ngpt.Sync.Contract

/-!
# ngpt — the mutexes a thread owns (`pth_sync.c`, `pth_ring.c`)

`mutex_owned` and `mutexring` of a thread list the mutexes whose `mx_owner` it is. That
holds in every run, whatever the recursion counts do: a release that finds a count of 1
clears the owner and takes the mutex out of the books in one critical section, and no other
path changes either of the two. `r_nodes` is an `unsigned int`; it is the length of the
ring because mutexes are objects of more than one byte in an address space of `2 ^ 32`.
-/

namespace Ngpt.Sync

open LinkedRing Transition WordMemory

variable {Mid Tid D : Type} {mem : Mem Mid Tid D} {t : Tid} {xs : List Mid} {size : Nat}

/-- `mutex_owned`, if there is one, and the mutexes of the nodes of `mutexring`. -/
def Mem.ownedBy (mem : Mem Mid Tid D) (t : Tid) (xs : List Mid) : List Mid :=
  (mem.thread t).mutexOwned.toList ++ xs

theorem Books.nodup_ownedBy (hb : Books mem t xs) : (mem.ownedBy t xs).Nodup := by
  unfold Mem.ownedBy
  cases hown : (mem.thread t).mutexOwned with
  | none => exact hb.ring.nodup
  | some m =>
    refine List.nodup_cons.mpr ⟨fun hm => ?_, hb.ring.nodup⟩
    exact hb.apart m hm hown

theorem Books.mem_ownedBy (hb : Books mem t xs) (m : Mid) :
    m ∈ mem.ownedBy t xs ↔ (mem.mutex m).owner = some t := by
  rw [hb.owned m, Mem.ownedBy, List.mem_append, Option.mem_toList]

theorem range_lt_of_size (P : Placement Mid Unsigned.range size) (hsize : 1 < size)
    (hxs : xs.Nodup) : xs.length < Unsigned.range := by
  have hmul := P.length_mul_le (by omega) hxs
  have hpos := Unsigned.one_lt_range
  have htwo : xs.length * 2 ≤ xs.length * size := Nat.mul_le_mul_left _ hsize
  omega

variable [DecidableEq Mid] [DecidableEq Tid]

theorem Books.count_ownedBy (hb : Books mem t xs) (m : Mid) :
    (mem.ownedBy t xs).count m = if (mem.mutex m).owner = some t then 1 else 0 := by
  rw [hb.nodup_ownedBy.count]
  exact if_congr (hb.mem_ownedBy m) rfl rfl

variable [DecidableEq D]

/--
**The books of a thread.** In every run of `pth_mutex_acquire` and `pth_mutex_release` on
private mutexes, `mutex_owned` and the nodes of `mutexring` together are the mutexes that
the thread owns, each once, and `mutexring` is a ring of `r_nodes` nodes.
-/
theorem owned_mutexes (P : Placement Mid Unsigned.range size) (hsize : 1 < size)
    (s : Sys Mid Tid D) (hs : Reachable Sys.step Always Initial s) (t : Tid) :
    ∃ xs : List Mid, RingOf s.mem.rn (s.mem.thread t).mutexring xs ∧
      (s.mem.thread t).mutexring.nodes = xs.length ∧
      ∀ m, (s.mem.ownedBy t xs).count m = if (s.mem.mutex m).owner = some t then 1 else 0 := by
  have hI : Inv s := hs.invariant (fun s h => h.inv) fun s a s' hI _ h => step_inv hI h
  obtain ⟨xs, hb⟩ := hI.sound.books t
  refine ⟨xs, hb.ring, ?_, hb.count_ownedBy⟩
  rw [hb.ring.nodes]
  exact Nat.mod_eq_of_lt (range_lt_of_size P hsize hb.ring.nodup)

/-- Three mutexes of four bytes. -/
def threeMutexes : Placement (Fin 3) Unsigned.range 4 where
  base m := 4 * m
  inside m := by
    unfold Unsigned.range
    omega
  apart a b h := by
    have hne : a.val ≠ b.val := fun heq => h (Fin.ext heq)
    show 4 * a.val + 4 ≤ 4 * b.val ∨ 4 * b.val + 4 ≤ 4 * a.val
    omega

/-- Thread 0 acquires three mutexes, the last one twice, and releases the first; thread 1
fails to release the second. -/
theorem owned_mutexes_three :
    ∃ s : Sys (Fin 3) Nat Unit, Reachable Sys.step Always Initial s ∧
      (s.mem.thread 0).mutexOwned = none ∧ (s.mem.thread 0).mutexring.nodes = 2 ∧
      ∃ xs : List (Fin 3), RingOf s.mem.rn (s.mem.thread 0).mutexring xs ∧
        (s.mem.thread 0).mutexring.nodes = xs.length ∧
        ∀ m, (s.mem.ownedBy 0 xs).count m =
          if (s.mem.mutex m).owner = some 0 then 1 else 0 := by
  refine exists_and_of_any₂ (o := run Sys.step (initSys .recursiveNp)
    [.acquire 0 0 false false false, .go 0 true, .acquire 0 1 false false false, .go 0 true,
    .acquire 0 2 false false false, .go 0 true, .acquire 0 2 false false false, .go 0 true,
    .release 0 0, .go 0 true, .go 0 true, .go 0 true, .release 1 1, .go 1 true, .go 1 true])
    (fun _ => reachable_of_run (.init (initSys_initial _))) (by decide +kernel) fun s hs _ _ => ?_
  exact owned_mutexes threeMutexes (by decide) s hs 0

end Ngpt.Sync
