import Ngpt.Alloc.Separation

/-!
# ngpt — the verification of pointers

`cal_verify_pointer` is to say whether a pointer is in a chunk of a size, so that it can be
dereferenced. It goes through the mchunks of the size's class and compares the pointer with the
first chunk and the end of each, but accepts it if it is above the one *or* below the other. Every
address is, so the first mchunk settles the matter: the function accepts every pointer once its
class has an mchunk. `thread_exists` relies on it before it reads the magic of a thread.

Result: `verify_pointer_iff`.
-/

namespace Ngpt.Alloc

open WordMemory LinkedRing Transition

/-- The test of `cal_verify_pointer` on the mchunk whose list node is `itr`. -/
def accepts (m : Mem) (p size itr : Nat) : Bool :=
  let h := itr - 4
  let last := h + pageSize * m (MchunkHeader.pages h) - size
  m (MchunkHeader.firstChunk h) ≤ p ∨ p < last

/-- The loop of `cal_verify_pointer`; `none` if it is still running after `rounds` rounds. -/
def verifyWalk (m : Mem) (head p size : Nat) : Nat → Nat → Option Int
  | 0, _ => none
  | rounds + 1, itr =>
    if itr = head then some 1
    else if accepts m p size itr then some 0
    else verifyWalk m head p size rounds (m itr)

def calVerifyPointer (m : Mem) (cal p size rounds : Nat) : Option Int :=
  if size < calChunkThresholdSize then
    let head := ChunkList.mchunkHead (chunkList cal (getIndexByOrder (getOrderBySize size)))
    verifyWalk m head p size rounds (m head)
  else some 1

/-- `thread_exists`, with the address it dereferences. `pthSize` is the size of a `struct pth_st`,
and `magic` the offset of the field. -/
def threadExists (m : Mem) (cal pthSize magic pthThreadsQueue thread rounds : Nat) :
    Bool × Option Nat :=
  if thread = 0 then (false, none)
  else if calVerifyPointer m cal thread pthSize rounds ≠ some 0 then (false, none)
  else (m (thread + magic) == pthThreadsQueue, some (thread + magic))

/-- The bytes from `p` on are in the data area of an mchunk of the size's class. -/
def InDataArea (s : State) (p size : Nat) : Prop :=
  ∃ x ∈ s.mchunks, x.2 = getOrderBySize size ∧ x.1 + firstOffset x.2 ≤ p ∧
    p + size ≤ x.1 + getTotalPagesByOrder x.2 * pageSize

instance (s : State) (p size : Nat) : Decidable (InDataArea s p size) := by
  unfold InDataArea; infer_instance

/-- The word at the address is in an mchunk. -/
def Managed (s : State) (a : Nat) : Prop :=
  ∃ x ∈ s.mchunks, x.1 ≤ a ∧ a + 4 ≤ x.1 + getTotalPagesByOrder x.2 * pageSize

instance (s : State) (a : Nat) : Decidable (Managed s a) := by
  unfold Managed; infer_instance

variable {cal size p head rounds magic pthThreadsQueue : Nat} {s : State} {m : Mem} {P : Pool}
  {x : Nat × Nat} {rest : List Nat}

/-! ## The walk -/

/-- What the walk along the list of mchunks returns. -/
theorem verifyWalk_eq (p size : Nat) (before : List Nat)
    (hr : IsRing (links m) head (before ++ rest)) (hrounds : rest.length < rounds) :
    verifyWalk m head p size rounds (rest.head?.getD head) =
      some (if rest.any (accepts m p size) then 0 else 1) := by
  induction rest generalizing before rounds with
  | nil =>
    obtain ⟨n, rfl⟩ : ∃ n, rounds = n + 1 := ⟨rounds - 1, by omega⟩
    simp [verifyWalk]
  | cons itr rest ih =>
    rw [List.length_cons] at hrounds
    obtain ⟨n, rfl⟩ : ∃ n, rounds = n + 1 := ⟨rounds - 1, by omega⟩
    have hne : itr ≠ head := fun h => hr.head_notMem (by simp [← h])
    have hnext : m itr = rest.head?.getD head := hr.next_mid
    have hrest : verifyWalk m head p size n (rest.head?.getD head) =
        some (if rest.any (accepts m p size) then 0 else 1) :=
      ih (before ++ [itr]) (by simpa using hr) (by omega)
    by_cases haccepts : accepts m p size itr = true
    · simp [verifyWalk, hne, haccepts]
    · simp [verifyWalk, hne, haccepts, hnext, hrest]

theorem accepts_mchunk (hP : P.Wf cal) (hR : Represents cal m P) (hx : x ∈ P.mchunks)
    (hsize : size ≤ 2 ^ x.2) (p : Nat) : accepts m p size (MchunkHeader.node x.1) = true := by
  have ho := (hP.mchunk x hx).order
  obtain ⟨-, -, hsome, hfits, -, -⟩ := geometry ho
  have hone : 2 ^ x.2 * 1 ≤ 2 ^ x.2 * chunkCount x.2 := Nat.mul_le_mul_left _ hsome
  have hnode : MchunkHeader.node x.1 - 4 = x.1 := by
    simp [MchunkHeader.node]
  simp only [accepts, hnode, (hR.header x hx).pages, (hR.header x hx).firstChunk, decide_eq_true_eq]
  rw [Nat.mul_comm pageSize]
  omega

/-- It returns 0 if and only if there is an mchunk of the class. -/
theorem calVerifyPointer_eq (hI : Inv cal s) (hpos : 0 < size)
    (hsize : size < calChunkThresholdSize) (hrounds : s.mchunks.length < rounds) (p : Nat) :
    calVerifyPointer s.mem cal p size rounds =
      some (if ∃ x ∈ s.mchunks, x.2 = getOrderBySize size then 0 else 1) := by
  obtain ⟨free, hP, hR⟩ := hI.pool
  obtain ⟨ho, hle⟩ := getOrderBySize_spec hpos hsize
  obtain ⟨nodes, hnodes⟩ : ∃ nodes, nodes =
      (s.mchunks.filter (·.2 = getOrderBySize size)).map fun x => MchunkHeader.node x.1 := ⟨_, rfl⟩
  have hring : IsRing (links s.mem) (anchor cal .mchunks (getOrderBySize size)) nodes :=
    hnodes ▸ hR.ring .mchunks _ ho
  have hlength : nodes.length < rounds := by
    have hfilter := List.length_filter_le (fun x => decide (x.2 = getOrderBySize size)) s.mchunks
    rw [hnodes, List.length_map]
    omega
  have hfirst : s.mem (anchor cal .mchunks (getOrderBySize size)) =
      nodes.head?.getD (anchor cal .mchunks (getOrderBySize size)) :=
    hring.next_split (List.nil_append _).symm
  have hwalk : calVerifyPointer s.mem cal p size rounds =
      some (if nodes.any (accepts s.mem p size) then 0 else 1) := by
    have hwalk := verifyWalk_eq p size [] hring hlength
    rw [← hfirst] at hwalk
    rw [calVerifyPointer, if_pos hsize]
    exact hwalk
  have hany : nodes.any (accepts s.mem p size) = true ↔
      ∃ x ∈ s.mchunks, x.2 = getOrderBySize size := by
    simp only [hnodes, List.any_map, List.any_filter, List.any_eq_true, Bool.and_eq_true,
      decide_eq_true_eq, Function.comp_apply]
    constructor
    · rintro ⟨x, hx, hxo, -⟩
      exact ⟨x, hx, hxo⟩
    · rintro ⟨x, hx, hxo⟩
      exact ⟨x, hx, hxo, accepts_mchunk hP hR hx (hxo ▸ hle) p⟩
  simp only [hwalk, hany]

/-! ## What the answer says -/

theorem Inv.inDataArea (hI : Inv cal s) (hsize : size < calChunkThresholdSize)
    (hx : (p, size) ∈ s.outstanding) : InDataArea s p size := by
  obtain ⟨free, hP, -⟩ := hI.pool
  obtain ⟨y, hy, ho, hc⟩ := Pool.mem_chunks.mp (hP.small_chunk hx hsize).2
  have hle := (getOrderBySize_spec (hP.sizes _ hx) hsize).2
  have hend : p + 2 ^ y.2 ≤ y.1 + getTotalPagesByOrder y.2 * pageSize :=
    (chunk_in_region (hP.mchunk y hy).order hc).2
  have hstart : y.1 + firstOffset y.2 ≤ p := by
    obtain ⟨i, -, rfl⟩ := List.mem_range'.mp hc
    exact Nat.le_add_right _ _
  simp only at ho
  rw [← ho] at hle
  exact ⟨y, hy, ho, hstart, by omega⟩

theorem InDataArea.managed (h : InDataArea s p size) (hmagic : magic + 4 ≤ size) :
    Managed s (p + magic) := by
  obtain ⟨x, hx, -, hstart, hend⟩ := h
  exact ⟨x, hx, by omega, by omega⟩

theorem threadExists_reads {a : Nat}
    (h : a ∈ (threadExists s.mem cal size magic pthThreadsQueue p rounds).2) :
    calVerifyPointer s.mem cal p size rounds = some 0 ∧ a = p + magic := by
  unfold threadExists at h
  split at h
  · cases h
  split at h
  · cases h
  next hverified =>
    cases h
    exact ⟨not_not.mp hverified, rfl⟩

/-- **Verified pointers.** For any pointer and any size cut from a chunk list,
`cal_verify_pointer` is right, and `thread_exists` reads managed memory only, if and only if
the class has no mchunk yet or the bytes are in the data area of one. -/
theorem verify_pointer_iff (cal : Nat) (s : State)
    (hs : Reachable (State.step cal) (Allowed cal) (Initial cal) s) (p size rounds : Nat)
    (hpos : 0 < size) (hsize : size < calChunkThresholdSize)
    (hrounds : s.mchunks.length < rounds) :
    ((calVerifyPointer s.mem cal p size rounds = some 0 → InDataArea s p size) ∧
      ((p, size) ∈ s.outstanding → calVerifyPointer s.mem cal p size rounds = some 0) ∧
      ∀ magic pthThreadsQueue, magic + 4 ≤ size →
        ∀ a ∈ (threadExists s.mem cal size magic pthThreadsQueue p rounds).2, Managed s a) ↔
    (∀ x ∈ s.mchunks, x.2 ≠ getOrderBySize size) ∨ InDataArea s p size := by
  have hI : Inv cal s :=
    hs.invariant (fun s h => h.inv) fun s a s' hI hok hstep => step_inv hI hok hstep
  have heq := calVerifyPointer_eq hI hpos hsize hrounds p
  constructor
  · rintro ⟨hsound, -, -⟩
    by_cases hclass : ∃ x ∈ s.mchunks, x.2 = getOrderBySize size
    · rw [if_pos hclass] at heq
      exact Or.inr (hsound heq)
    · exact Or.inl fun x hx ho => hclass ⟨x, hx, ho⟩
  · intro hcond
    have hsound : calVerifyPointer s.mem cal p size rounds = some 0 → InDataArea s p size := by
      rcases hcond with hnone | hin
      · intro hzero
        rw [if_neg fun ⟨x, hx, ho⟩ => hnone x hx ho] at heq
        rw [heq] at hzero
        cases hzero
      · exact fun _ => hin
    refine ⟨hsound, ?_, ?_⟩
    · intro hx
      obtain ⟨y, hy, ho, -⟩ := hI.inDataArea hsize hx
      rw [heq, if_pos ⟨y, hy, ho⟩]
    · intro magic pthThreadsQueue hmagic a ha
      obtain ⟨hzero, rfl⟩ := threadExists_reads ha
      exact (hsound hzero).managed hmagic

/-- A pointer to the chunk that has been handed out is in the data area. -/
theorem verify_pointer_iff_chunk :
    ∃ s, runOk (State.step 1024) (Allowed 1024) (initState (fun _ => 7) 1024)
        [.get 1500 (some 65536)] = some s ∧
      s.outstanding = [(67584, 1500)] ∧ InDataArea s 67584 1500 ∧
      (((calVerifyPointer s.mem 1024 67584 1500 2 = some 0 → InDataArea s 67584 1500) ∧
        ((67584, 1500) ∈ s.outstanding → calVerifyPointer s.mem 1024 67584 1500 2 = some 0) ∧
        ∀ magic pthThreadsQueue, magic + 4 ≤ 1500 →
          ∀ a ∈ (threadExists s.mem 1024 1500 magic pthThreadsQueue 67584 2).2, Managed s a) ↔
      (∀ x ∈ s.mchunks, x.2 ≠ getOrderBySize 1500) ∨ InDataArea s 67584 1500) := by
  obtain ⟨s, hs, hout, hmchunks, hin⟩ : ∃ s, runOk (State.step 1024) (Allowed 1024)
      (initState (fun _ => 7) 1024) [.get 1500 (some 65536)] = some s ∧
      s.outstanding = [(67584, 1500)] ∧ s.mchunks = [(65536, 11)] ∧ InDataArea s 67584 1500 :=
    exists_of_any (by decide +kernel)
  exact ⟨s, hs, hout, hin, verify_pointer_iff 1024 s
    (reachable_of_runOk (.init (initState_initial _)) hs) 67584 1500 2 (by decide) (by decide)
    (by simp [hmchunks])⟩

/-- The pointer 1 is accepted, and `thread_exists` dereferences it. -/
theorem verify_pointer_accepts_one :
    ∃ s, runOk (State.step 1024) (Allowed 1024) (initState (fun _ => 7) 1024)
        [.get 1500 (some 65536)] = some s ∧
      calVerifyPointer s.mem 1024 1 1500 2 = some 0 ∧ ¬ InDataArea s 1 1500 ∧
      (threadExists s.mem 1024 1500 8 2048 1 2).2 = some 9 ∧ ¬ Managed s 9 := by
  exact exists_of_any (by decide +kernel)

end Ngpt.Alloc
