import Ngpt.Data.Keys

/-!
# ngpt — the range of a key (`pth_data.c` and `pth_event.c`)

The five accessors of the two tables of keys, each as one call with what it reads and writes. A key
is an `int`; the tables are defined for every integer, and what is outside of their range is memory
of somebody else. There is a calling thread, so that the test for it in `pth_key_getdata` is left
out.

Result: `key_bounds_iff`.
-/

namespace Ngpt.Keys

open Function

/-- `PTH_EVENT_KEY_MAX`. -/
def pthEventKeyMax : Int := 16

/-- An access to the table of keys or to the array of the thread, at an index. -/
inductive Access where
  | keytab (i : Int)
  | data (i : Int)

def Access.index : Access → Int
  | .keytab i | .data i => i

/-- What a call returns: an error number, a truth value or a pointer. -/
inductive Reply where
  | rc (e : Errno)
  | bool (b : Bool)
  | ptr (value : Nat)
  deriving DecidableEq

def Reply.rejects : Reply → Prop
  | .rc e => e = .einval
  | .bool b => b = false
  | .ptr value => value = 0

/-- A table of keys, and the calling thread's values for it. -/
structure Table where
  keytab : Int → Entry
  thread : Thread

/-- The two tests that every accessor makes before its `body`; `no` is what it returns if one of
them fails. -/
def tested (max : Int) (s : Table) (key : Int) (no : Reply) (body : Reply × Table × List Access) :
    Reply × Table × List Access :=
  if key ≥ max then (no, s, [])
  else if !(s.keytab key).used then (no, s, [.keytab key])
  else (body.1, body.2.1, .keytab key :: body.2.2)

/-- The rest of `setdata`; `memory` tells whether `pth_malloc` succeeds. -/
def setBody (s : Table) (key : Int) (value : Nat) (memory : Bool) : Reply × Table × List Access :=
  let stored (d : Int → Nat) : Reply × Table × List Access :=
    (.rc .ok, { s with thread := s.thread.store d key value }, [.data key, .data key])
  match s.thread.dataValue with
  | some d => stored d
  | none => if memory then stored fun _ => 0 else (.rc .enomem, s, [])

def getBody (s : Table) (key : Int) : Reply × Table × List Access :=
  match s.thread.dataValue with
  | none => (.ptr 0, s, [])
  | some d => (.ptr (d key), s, [.data key])

def deleteBody (s : Table) (key : Int) : Reply × Table × List Access :=
  (.bool true, { s with keytab := update s.keytab key { s.keytab key with used := false } },
    [.keytab key])

def pthKeySetdata (s : Table) (key : Int) (value : Nat) (memory : Bool) :=
  tested pthKeyMax s key (.rc .einval) (setBody s key value memory)

def pthEventKeySetdata (s : Table) (key : Int) (value : Nat) (memory : Bool) :=
  tested pthEventKeyMax s key (.rc .einval) (setBody s key value memory)

def pthKeyGetdata (s : Table) (key : Int) := tested pthKeyMax s key (.ptr 0) (getBody s key)

def pthEventKeyGetdata (s : Table) (key : Int) :=
  tested pthEventKeyMax s key (.ptr 0) (getBody s key)

def pthKeyDelete (s : Table) (key : Int) := tested pthKeyMax s key (.bool false) (deleteBody s key)

inductive KeyCall where
  | setdata (value : Nat) (memory : Bool)
  | getdata
  | delete
  | eventSetdata (value : Nat) (memory : Bool)
  | eventGetdata

def KeyCall.max : KeyCall → Int
  | .setdata _ _ | .getdata | .delete => pthKeyMax
  | .eventSetdata _ _ | .eventGetdata => pthEventKeyMax

def KeyCall.exec (s : Table) (key : Int) : KeyCall → Reply × Table × List Access
  | .setdata value memory => pthKeySetdata s key value memory
  | .getdata => pthKeyGetdata s key
  | .delete => pthKeyDelete s key
  | .eventSetdata value memory => pthEventKeySetdata s key value memory
  | .eventGetdata => pthEventKeyGetdata s key

/-- The key is in the range of its table, and in use. -/
def Exists (max : Int) (s : Table) (key : Int) : Prop :=
  0 ≤ key ∧ key < max ∧ (s.keytab key).used = true

/-- All accesses are in range, and a key that does not exist is rejected. -/
def BoundsSafe (c : KeyCall) (s : Table) (key : Int) : Prop :=
  (∀ a ∈ (c.exec s key).2.2, 0 ≤ a.index ∧ a.index < c.max) ∧
    (¬ Exists c.max s key → (c.exec s key).1.rejects ∧ (c.exec s key).2.1 = s)

theorem setBody_index (s : Table) (key : Int) (value : Nat) (memory : Bool) :
    ∀ a ∈ (setBody s key value memory).2.2, a.index = key := by
  unfold setBody
  dsimp only
  repeat' split
  all_goals simp [Access.index]

theorem getBody_index (s : Table) (key : Int) : ∀ a ∈ (getBody s key).2.2, a.index = key := by
  unfold getBody
  split <;> simp [Access.index]

theorem exec_eq (c : KeyCall) (s : Table) (key : Int) : ∃ no body,
    c.exec s key = tested c.max s key no body ∧ no.rejects ∧ ∀ a ∈ body.2.2, a.index = key := by
  cases c with
  | setdata | eventSetdata => exact ⟨_, _, rfl, rfl, setBody_index s key _ _⟩
  | getdata | eventGetdata => exact ⟨_, _, rfl, rfl, getBody_index s key⟩
  | delete => exact ⟨_, _, rfl, rfl, by simp [deleteBody, Access.index]⟩

/-- The test `key >= PTH_KEY_MAX` is enough for keys that are not negative. -/
theorem key_bounds_iff (c : KeyCall) (s : Table) (key : Int) : BoundsSafe c s key ↔ 0 ≤ key := by
  obtain ⟨no, body, hexec, hno, hbody⟩ := exec_eq c s key
  have hmax : 0 < c.max := by cases c <;> exact Int.sign_eq_one_iff_pos.mp rfl
  rw [BoundsSafe, hexec]
  unfold tested
  split
  case isTrue hlarge =>
    exact iff_of_true ⟨by simp, fun _ => ⟨hno, rfl⟩⟩ (by omega)
  case isFalse hlt =>
    -- the entry of the key is read in both cases
    constructor
    · intro h
      refine (h.1 (.keytab key) ?_).1
      split <;> simp
    · intro hkey
      split
      case isTrue hunused => exact ⟨by simp [Access.index]; omega, fun _ => ⟨hno, rfl⟩⟩
      case isFalse hused =>
        refine ⟨fun a ha => ?_, fun h => absurd ⟨hkey, by omega, by simpa using hused⟩ h⟩
        have hindex : a.index = key := by
          rcases List.mem_cons.mp ha with rfl | ha
          · rfl
          · exact hbody a ha
        omega

/-- The key -1, with memory before the two arrays that looks like a key in use: the value is
stored before the array of the thread. -/
theorem negative_key_stored :
    let s : Table := ⟨fun _ => ⟨true, 0⟩, ⟨some fun _ => 0, 0⟩⟩
    (pthKeySetdata s (-1) 7 true).1 = .rc .ok ∧
      (pthKeySetdata s (-1) 7 true).2.1.thread.value (-1) = 7 := by
  decide

end Ngpt.Keys
