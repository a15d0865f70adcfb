import Mathlib.Data.Finset.Basic
import Mathlib.Data.Finset.Insert

/-!
# ngpt — `pth_poll_ev` over `pth_select_ev` (`pth_high.c`)

The descriptors of all entries are put into three sets for one `select`, and the results of an
entry are read from the sets by its descriptor alone. The sets are ideal here (no `FD_SETSIZE`);
what `select`, the events and the `recv` with `MSG_PEEK` answer are parameters.

Result: `poll_results_iff`.
-/

namespace Ngpt.Poll

/-- The bits of `events` and `revents`. -/
inductive Flag where
  | pollin | pollrdnorm | pollrdband
  | pollout | pollwrnorm | pollwrband
  | pollpri
  | pollerr | pollhup | pollnval
deriving DecidableEq, Repr

structure Pollfd where
  fd      : Int
  events  : Finset Flag
  revents : Finset Flag
deriving DecidableEq

/-- `rfds`, `wfds` and `efds`. -/
structure Sets where
  r : Finset Nat
  w : Finset Nat
  e : Finset Nat

def fdZero : Sets := ⟨∅, ∅, ∅⟩

/-- Whether one of the flags is in `events`. -/
def Pollfd.wants (p : Pollfd) (flags : List Flag) : Bool := flags.any (· ∈ p.events)

def readFlags : List Flag := [.pollin, .pollrdnorm, .pollrdband]

def writeFlags : List Flag := [.pollout, .pollwrnorm, .pollwrband]

/-- An entry that is put into the sets. -/
def Pollfd.valid (p : Pollfd) : Bool :=
  0 ≤ p.fd && p.wants (readFlags ++ writeFlags ++ [.pollpri])

/-- The loop that makes the sets and `maxfd`. -/
def setLoop : List Pollfd → Sets × Int → Sets × Int
  | [], acc => acc
  | p :: pfd, (s, maxfd) =>
    if p.valid then
      let fd := p.fd.toNat
      let s : Sets :=
        ⟨if p.wants readFlags then insert fd s.r else s.r,
          if p.wants writeFlags then insert fd s.w else s.w,
          if p.wants [.pollpri] then insert fd s.e else s.e⟩
      setLoop pfd (s, if p.fd ≥ maxfd then p.fd else maxfd)
    else setLoop pfd (s, maxfd)

/-- The answers below `pth_select_ev`: of the `select` without delay, of the `SELECT` event if
it occurred, and whether the timeout occurred. -/
structure Answers where
  direct   : Int × Sets
  selected : Option (Int × Sets)
  timedOut : Bool

/-- `pth_select_ev` with its three sets; `timeout` is in seconds and microseconds. -/
def pthSelectEv (fds : Sets) (timeout : Option (Int × Int)) (extra : Bool) (ans : Answers) :
    Int × Sets :=
  if ans.direct.1 > 0 then ans.direct
  else if ans.direct.1 = 0 ∧ timeout = some (0, 0) then (0, fdZero)
  else if timeout ≠ none ∧ ans.timedOut then (0, fdZero)
  else if extra ∧ ans.selected = none then (-1, fds)
  else ans.selected.getD (-1, fds)

/-- The `revents` of an entry and `ok`; `hup` says that the peek finds the connection gone. -/
def establish (s : Sets) (p : Pollfd) (hup : Bool) : Finset Flag × Nat :=
  if p.fd < 0 then ({.pollnval}, 0)
  else
    let fd := p.fd.toNat
    let r : Finset Flag × Nat :=
      if fd ∈ s.r then if hup then ({.pollhup}, 0) else ({.pollin}, 1) else (∅, 0)
    let w := if fd ∈ s.w then (insert .pollout r.1, r.2 + 1) else r
    if fd ∈ s.e then (insert .pollpri w.1, w.2 + 1) else w

/-- The loop over the results: the entries and `rc`. Each entry comes with its peek. -/
def resultLoop (s : Sets) : List (Pollfd × Bool) → List Pollfd × Nat
  | [] => ([], 0)
  | (p, hup) :: pfd =>
    let (revents, ok) := establish s p hup
    let (rest, rc) := resultLoop s pfd
    ({ p with revents } :: rest, if ok ≠ 0 then rc + 1 else rc)

/-- The `timeval` of a timeout in milliseconds. -/
def toTimeval (timeout : Int) : Option (Int × Int) :=
  if timeout = -1 then none else some (timeout / 1000, timeout % 1000 * 1000)

/-- What `pth_select_ev` answers to `pth_poll_ev`; `none` if it is not called (`EINVAL`). -/
def selectOf (pfd : List Pollfd) (timeout : Int) (extra : Bool) (ans : Answers) :
    Option (Int × Sets) :=
  let (fds, maxfd) := setLoop pfd (fdZero, -1)
  if timeout < -1 ∨ maxfd = -1 then none
  else some (pthSelectEv fds (toTimeval timeout) extra ans)

/-- `pth_poll_ev`: what it returns, and the entries afterwards. -/
def pthPollEv (pfd : List (Pollfd × Bool)) (timeout : Int) (extra : Bool) (ans : Answers) :
    Int × List Pollfd :=
  match selectOf (pfd.map Prod.fst) timeout extra ans with
  | none => (-1, pfd.map Prod.fst)
  | some (rc, fds) =>
    if rc > 0 then ((resultLoop fds pfd).2, (resultLoop fds pfd).1) else (rc, pfd.map Prod.fst)

/-- What is asked of a result that is not an error. -/
def Right (r : Int × List Pollfd) (timedOut : Prop) : Prop :=
  0 ≤ r.1 →
    r.1 = r.2.countP (fun p => p.revents ≠ ∅) ∧
      (∀ p ∈ r.2, p.revents ⊆ p.events ∪ {.pollerr, .pollhup, .pollnval}) ∧
      (∀ p ∈ r.2, p.fd < 0 → p.revents = ∅) ∧ (timedOut → ∀ p ∈ r.2, p.revents = ∅)

/-- An entry to which the sets say no more than it asked, and whose hang-up is not alone. -/
def Fits (s : Sets) (p : Pollfd) (hup : Bool) : Prop :=
  0 ≤ p.fd ∧ (p.fd.toNat ∈ s.r → hup = false → .pollin ∈ p.events) ∧
    (p.fd.toNat ∈ s.r → hup = true → p.fd.toNat ∈ s.w ∨ p.fd.toNat ∈ s.e) ∧
    (p.fd.toNat ∈ s.w → .pollout ∈ p.events) ∧ (p.fd.toNat ∈ s.e → .pollpri ∈ p.events)

variable {s : Sets} {p : Pollfd} {hup : Bool} {pfd : List (Pollfd × Bool)}

theorem establish_ok (h : (establish s p hup).2 ≠ 0) : (establish s p hup).1 ≠ ∅ := by
  revert h
  simp only [establish]
  split_ifs <;> simp

theorem establish_right_iff :
    ((establish s p hup).1 ⊆ p.events ∪ {.pollerr, .pollhup, .pollnval} ∧
        (p.fd < 0 → (establish s p hup).1 = ∅) ∧
        ((establish s p hup).1 ≠ ∅ → (establish s p hup).2 ≠ 0)) ↔ Fits s p hup := by
  by_cases hneg : p.fd < 0
  · simp [establish, Fits, hneg]
  · have hfd : 0 ≤ p.fd := not_lt.mp hneg
    by_cases hr : p.fd.toNat ∈ s.r <;> by_cases hw : p.fd.toNat ∈ s.w <;>
      by_cases he : p.fd.toNat ∈ s.e <;> cases hup <;>
      simp [establish, Fits, hneg, hfd, hr, hw, he, Finset.insert_subset_iff, and_assoc,
        and_comm]

theorem resultLoop_entries :
    (resultLoop s pfd).1 = pfd.map fun x => { x.1 with revents := (establish s x.1 x.2).1 } := by
  induction pfd with
  | nil => rfl
  | cons x pfd ih => simp [resultLoop, ih]

theorem resultLoop_rc :
    (resultLoop s pfd).2 = pfd.countP fun x => (establish s x.1 x.2).2 ≠ 0 := by
  induction pfd with
  | nil => rfl
  | cons x pfd ih =>
    simp only [resultLoop, ih, List.countP_cons]
    split <;> simp_all

theorem countP_eq_iff {α : Type*} {f g : α → Bool} (l : List α)
    (h : ∀ x, f x = true → g x = true) :
    l.countP f = l.countP g ↔ ∀ x ∈ l, g x = true → f x = true := by
  induction l with
  | nil => simp
  | cons x l ih =>
    have hle := List.countP_mono_left fun y (_ : y ∈ l) => h y
    have hx := h x
    rw [List.forall_mem_cons, ← ih, List.countP_cons, List.countP_cons]
    cases hf : f x <;> cases hg : g x <;> simp [hf, hg] at hx ⊢
    omega

theorem resultLoop_right_iff :
    Right ((resultLoop s pfd).2, (resultLoop s pfd).1) False ↔
      ∀ x ∈ pfd, Fits s x.1 x.2 := by
  simp only [Right, resultLoop_entries, resultLoop_rc, List.countP_map, List.forall_mem_map,
    Int.natCast_inj, Int.natCast_nonneg, forall_const, false_implies, and_true]
  rw [countP_eq_iff pfd (fun x hx => by simpa using establish_ok (by simpa using hx))]
  constructor
  · rintro ⟨hcount, hsub, hneg⟩ x hx
    exact establish_right_iff.mp ⟨hsub x hx, hneg x hx, by simpa using hcount x hx⟩
  · intro h
    have hx := fun x hx => establish_right_iff.mpr (h x hx)
    exact ⟨fun x h => by simpa using (hx x h).2.2, fun x h => (hx x h).1, fun x h => (hx x h).2.1⟩

theorem timeout_right_iff :
    Right (0, pfd.map Prod.fst) True ↔ ∀ x ∈ pfd, x.1.revents = ∅ := by
  simp only [Right, List.forall_mem_map]
  refine ⟨fun h => (h le_rfl).2.2.2 trivial, fun h _ => ⟨?_, ?_, fun x hx _ => h x hx, fun _ => h⟩⟩
  · rw [eq_comm, Int.natCast_eq_zero, List.countP_eq_zero, List.forall_mem_map]
    exact fun x hx => by simp [h x hx]
  · exact fun x hx => by simp [h x hx]

/-- The results are right just if a timeout finds no old ones, and each entry fits otherwise. -/
theorem poll_results_iff (pfd : List (Pollfd × Bool)) (timeout : Int) (extra : Bool)
    (ans : Answers) :
    let select := selectOf (pfd.map Prod.fst) timeout extra ans
    Right (pthPollEv pfd timeout extra ans) (∃ fds, select = some (0, fds)) ↔
      ∀ rc fds, select = some (rc, fds) →
        (rc = 0 → ∀ x ∈ pfd, x.1.revents = ∅) ∧ (rc > 0 → ∀ x ∈ pfd, Fits fds x.1 x.2) := by
  intro select
  simp only [pthPollEv]
  cases hselect : selectOf (pfd.map Prod.fst) timeout extra ans with
  | none => simp [Right, select, hselect]
  | some answer =>
    obtain ⟨rc, fds⟩ := answer
    have hiff : ∀ P : Int → Sets → Prop,
        (∀ rc' fds', select = some (rc', fds') → P rc' fds') ↔ P rc fds := by
      simp [select, hselect]
    have htimed : (∃ fds', select = some (0, fds')) ↔ rc = 0 := by
      simp [select, hselect]
    rw [hiff, htimed]
    rcases lt_trichotomy rc 0 with hrc | rfl | hrc
    · refine ⟨fun _ => ⟨fun h => absurd h hrc.ne, fun h => absurd h hrc.not_gt⟩, fun _ h => ?_⟩
      simp only [gt_iff_lt, if_neg hrc.not_gt] at h
      exact absurd h hrc.not_ge
    · simpa using timeout_right_iff
    · simp only [gt_iff_lt, hrc, if_true, hrc.ne', false_implies, true_and, forall_const]
      exact resultLoop_right_iff

/-- Two entries of one descriptor: what the second asks is reported to the first as well. -/
theorem alias_reported :
    let pfd : List Pollfd := [⟨0, {.pollin}, ∅⟩, ⟨0, {.pollout}, ∅⟩]
    let r := pthPollEv (pfd.map (·, false)) 0 false ⟨(1, ⟨∅, {0}, ∅⟩), none, false⟩
    r = (2, [⟨0, {.pollin}, {.pollout}⟩, ⟨0, {.pollout}, {.pollout}⟩]) ∧ ¬ Right r False := by
  intro pfd r
  have hr : r = (2, [⟨0, {.pollin}, {.pollout}⟩, ⟨0, {.pollout}, {.pollout}⟩]) := by decide
  refine ⟨hr, fun h => ?_⟩
  rw [hr] at h
  have hsub := (h (by decide)).2.1 _ List.mem_cons_self
  revert hsub
  decide

end Ngpt.Poll
