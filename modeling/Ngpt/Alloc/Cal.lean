import Ngpt.Lib.WordMemory
import Ngpt.Lib.Transition
import Ngpt.Lib.Unsigned
import Ngpt.Queue.Bitmap

/-!
# ngpt — the chunk allocator

`allocation.c` and `allocation.h` over flat memory, on the i386: words of 32 bits,
pages of 4096 bytes. Everything the allocator keeps is in that memory, at the offsets
of its structures: the allocator itself (`struct cal_st`, at an address `cal`), the
header at the start of every mchunk, and the free lists, whose nodes are the first two
words of the free chunks. A client that writes to its memory, the `memset` of a chunk
handed out and the search for a header back over the pages all act on the same words.

The kernel's answer to an `mmap` is an argument of the call that makes it. The calls of
one run follow each other, so the spin locks of the lists are left out, as are the
checks that `CAL_CHECK_CONSISTENCY` and `CAL_STATISTICS` (both 0) compile out.

Two fields of the state are ghosts, which no function reads: the mchunks obtained so far
and the memory that is handed out.
-/

namespace Ngpt.Alloc

open WordMemory

/-! ## Lists (list.h) -/

def lnodeInit (m : Mem) (node : Nat) : Mem := store (store m (node + 4) node) node node

def listInsert (m : Mem) (e w : Nat) : Mem := insertBetween m e w (m w)

def listInsertTail (m : Mem) (e w : Nat) : Mem := insertBetween m e (m (w + 4)) w

def listInsertList (m : Mem) (l w : Nat) : Mem := spliceAfter m l w

def listDel (m : Mem) (e : Nat) : Mem := unlink m (m (e + 4)) (m e)

def listEmpty (m : Mem) (e : Nat) : Bool := m e == e

/-! ## Sizes and orders -/

/-- `PAGE_SIZE`; `PAGE_SHIFT` is 12. -/
def pageSize : Nat := 4096

def calChunkOrderMax : Nat := 11

def calChunkThresholdSize : Nat := 2 ^ calChunkOrderMax

def calChunkOrderMin : Nat := 4

def calChunkHeads : Nat := 1 + calChunkOrderMax - calChunkOrderMin

def getPow2Order (s : Nat) : Nat :=
  let exp := Queue.findFirstMsBit (BitVec.ofNat 32 s)
  if 2 ^ exp < s then exp + 1 else exp

def roundSize (roundTo size : Nat) : Nat := (size + roundTo - 1) / roundTo * roundTo

def getIndexByOrder (order : Nat) : Nat := order - calChunkOrderMin

def getTotalPagesByOrder (order : Nat) : Nat := order / 2

def getOrderBySize (size : Nat) : Nat :=
  let order := getPow2Order size
  if order < calChunkOrderMin then calChunkOrderMin else order

/-! ## Structures in memory -/

-- struct chunk_list_st: the lock is its first word
def sizeofChunkList : Nat := 28

def ChunkList.head (list : Nat) : Nat := list + 4
def ChunkList.mchunkHead (list : Nat) : Nat := list + 12
def ChunkList.total (list : Nat) : Nat := list + 20
def ChunkList.used (list : Nat) : Nat := list + 24

/-- `&chunk_cache->head[idx]`; the chunk cache is the first member of `struct cal_st`. -/
def chunkList (chunkCache idx : Nat) : Nat := chunkCache + sizeofChunkList * idx

def sizeofCal : Nat := sizeofChunkList * calChunkHeads

-- struct mchunk_header_st
def sizeofMchunkHeader : Nat := 32

def MchunkHeader.chunkCache (h : Nat) : Nat := h
def MchunkHeader.node (h : Nat) : Nat := h + 4
def MchunkHeader.pages (h : Nat) : Nat := h + 12
def MchunkHeader.used (h : Nat) : Nat := h + 16
def MchunkHeader.order (h : Nat) : Nat := h + 20
def MchunkHeader.notChunkCache (h : Nat) : Nat := h + 24
def MchunkHeader.firstChunk (h : Nat) : Nat := h + 28

/-- `~w` on a word. -/
def complement (w : Nat) : Nat := Unsigned.range - 1 - w

/-! ## mchunks -/

/-- `mmap_allocate`: `map` is where the kernel puts the region, `none` if it refuses. The
kernel rounds the length up to whole pages and zeroes them. -/
def mmapAllocate (m : Mem) (map : Option Nat) (size : Nat) : Option (Nat × Mem) :=
  map.map fun p => (p, fill m ⟨p, roundSize pageSize size⟩ 0)

/-- The header test of `get_mchunk_header_by_chunk`. -/
def isHeader (m : Mem) (order np : Nat) : Bool :=
  m (MchunkHeader.chunkCache np) != 0 &&
    (m (MchunkHeader.chunkCache np) == complement (m (MchunkHeader.notChunkCache np)) &&
      m (MchunkHeader.order np) == order)

/-- `np -= PAGE_SIZE` on an `unsigned long`. -/
def pageBelow (np : Nat) : Nat :=
  if np < pageSize then np + Unsigned.range - pageSize else np - pageSize

/-- The loop of `get_mchunk_header_by_chunk`, with `pages` pages left. -/
def walkBack (m : Mem) (order : Nat) : Nat → Nat → Option Nat
  | 0, _ => none
  | pages + 1, np => if isHeader m order np then some np else walkBack m order pages (pageBelow np)

def getMchunkHeaderByChunk (m : Mem) (p order : Nat) : Option Nat :=
  walkBack m order (getTotalPagesByOrder order) (p - p % pageSize)

/-- The loop of `mchunk_header_get_chunks`; it returns `prev`. It makes at most `last - chunk`
rounds, since every round moves `chunk` up. -/
def linkChunks (step last : Nat) : Nat → Nat → Nat → Mem → Nat × Mem
  | 0, _, prev, m => (prev, m)
  | rounds + 1, chunk, prev, m =>
    if chunk < last then
      linkChunks step last rounds (chunk + step) chunk
        (store (store m chunk (chunk + step)) (chunk + 4) prev)
    else (prev, m)

/-- `mchunk_header_get_chunks` from the answer of `mmap_allocate` on. -/
def splitMchunk (mhOrder mhPow2Size order h : Nat) (m : Mem) : Mem :=
  let totalPages := getTotalPagesByOrder order
  let m := store m (MchunkHeader.order h) order
  let m := store m (MchunkHeader.pages h) totalPages
  let first := if order < mhOrder then h + mhPow2Size else h + 2 ^ order
  let m := store m (MchunkHeader.firstChunk h) first
  let last := h + totalPages * pageSize
  let m := store m (MchunkHeader.used h) ((last - first) / 2 ^ order)
  let linked := linkChunks (2 ^ order) last (last - first) first (last - 2 ^ order) m
  store linked.2 linked.1 first

def mchunkHeaderGetChunks (mhOrder mhPow2Size : Nat) (m : Mem) (order : Nat)
    (map : Option Nat) : Option (Nat × Mem) :=
  (mmapAllocate m map (pageSize * getTotalPagesByOrder order)).map fun r =>
    (r.1, splitMchunk mhOrder mhPow2Size order r.1 r.2)

/-! ## The chunk cache -/

/-- The part of `chunk_cache_get` that hooks a new mchunk to its list. -/
def hookMchunk (m : Mem) (chunkCache list h : Nat) : Mem :=
  let m := store m (ChunkList.total list)
    ((m (ChunkList.total list) + m (MchunkHeader.used h)) % Unsigned.range)
  let m := store m (MchunkHeader.chunkCache h) chunkCache
  let m := store m (MchunkHeader.notChunkCache h) (complement chunkCache)
  let m := store m (MchunkHeader.used h) 0
  let chunk := m (MchunkHeader.firstChunk h)
  let m := listInsertList m chunk (ChunkList.head list)
  listInsertTail m (MchunkHeader.node h) (ChunkList.mchunkHead list)

/-- The part of `chunk_cache_get` that pulls out the first chunk of a list. -/
def takeChunk (m : Mem) (list order : Nat) : Nat × Mem :=
  let chunk := m (ChunkList.head list)
  let m := listDel m chunk
  let m := store m (ChunkList.used list) (Unsigned.incr (m (ChunkList.used list)))
  (chunk, fill m ⟨chunk, 2 ^ order⟩ 0)

/-- The allocator and what its caller has. -/
structure State where
  mem         : Mem
  mhOrder     : Nat
  mhPow2Size  : Nat
  -- ghosts: base and order of every mchunk, pointer and size of all memory handed out
  mchunks     : List (Nat × Nat)
  outstanding : List (Nat × Nat)

def State.chunkCacheGet (s : State) (cal size : Nat) (map : Option Nat) : Option Nat × State :=
  if s.mhOrder = 0 then (none, s)
  else
    let order := getOrderBySize size
    let list := chunkList cal (getIndexByOrder order)
    if listEmpty s.mem (ChunkList.head list) then
      match mchunkHeaderGetChunks s.mhOrder s.mhPow2Size s.mem order map with
      | none => (none, s)
      | some r =>
        let taken := takeChunk (hookMchunk r.2 cal list r.1) list order
        (some taken.1, { s with mem := taken.2, mchunks := s.mchunks ++ [(r.1, order)] })
    else
      let taken := takeChunk s.mem list order
      (some taken.1, { s with mem := taken.2 })

def State.chunkCachePut (s : State) (ptr size : Nat) : State :=
  let order := getOrderBySize size
  match getMchunkHeaderByChunk s.mem ptr order with
  | none => s
  | some h =>
    let list := chunkList (s.mem (MchunkHeader.chunkCache h)) (getIndexByOrder order)
    let m := lnodeInit s.mem ptr
    let m := store m (MchunkHeader.used h) (Unsigned.decr (m (MchunkHeader.used h)))
    let m := store m (ChunkList.used list) (Unsigned.decr (m (ChunkList.used list)))
    { s with mem := listInsert m ptr (ChunkList.head list) }

/-! ## The interface -/

def State.allocate (s : State) (cal size : Nat) (map : Option Nat) : Option Nat × State :=
  if size < calChunkThresholdSize then s.chunkCacheGet cal size map
  else
    match mmapAllocate s.mem map size with
    | none => (none, s)
    | some r => (some r.1, { s with mem := r.2 })

/-- `cal_get`, with the memory it returns on record. -/
def State.calGet (s : State) (cal size : Nat) (map : Option Nat) : Option Nat × State :=
  let r := s.allocate cal size map
  match r.1 with
  | none => r
  | some p => (some p, { r.2 with outstanding := (p, size) :: r.2.outstanding })

/-- `cal_put`. What `munmap` does is that the kernel may map the pages again. -/
def State.calPut (s : State) (ptr size : Nat) : State :=
  let s := { s with outstanding := s.outstanding.erase (ptr, size) }
  if size < calChunkThresholdSize then s.chunkCachePut ptr size else s

def chunkListInit (m : Mem) (list : Nat) : Mem :=
  lnodeInit (lnodeInit (store m list 0) (ChunkList.head list)) (ChunkList.mchunkHead list)

def chunkCacheInit (m : Mem) (chunkCache : Nat) : Mem :=
  (List.range calChunkHeads).foldl (fun m cnt => chunkListInit m (chunkList chunkCache cnt)) m

def calInit (m : Mem) (cal : Nat) : Mem := chunkCacheInit (fill m ⟨cal, sizeofCal⟩ 0) cal

/-- The state after `cal_initialize` and `cal_init`. -/
def initState (m : Mem) (cal : Nat) : State :=
  let mhOrder := getPow2Order sizeofMchunkHeader
  { mem := calInit m cal, mhOrder, mhPow2Size := 2 ^ mhOrder, mchunks := [], outstanding := [] }

/-! ## Runs -/

/-- The memory that belongs to a caller that asked for `size` bytes. -/
def blockSize (size : Nat) : Nat :=
  if size < calChunkThresholdSize then 2 ^ getOrderBySize size else roundSize pageSize size

/-- What a caller does: ask for memory, give it back, store a word in it. -/
inductive Action where
  | get (size : Nat) (map : Option Nat)
  | put (ptr size : Nat)
  | store (a v : Nat)

def State.step (cal : Nat) (s : State) : Action → Option State
  | .get size map => some (s.calGet cal size map).2
  | .put ptr size => some (s.calPut ptr size)
  | .store a v => some { s with mem := store s.mem a v }

/-- The pages of an mchunk. -/
def mchunkSpan (x : Nat × Nat) : Span := ⟨x.1, getTotalPagesByOrder x.2 * pageSize⟩

def blockSpan (x : Nat × Nat) : Span := ⟨x.1, blockSize x.2⟩

/-- What a call asks the kernel for. -/
def mapSize (size : Nat) : Nat :=
  if size < calChunkThresholdSize then getTotalPagesByOrder (getOrderBySize size) * pageSize
  else roundSize pageSize size

/-- A region as the kernel hands it out: whole pages that nothing else occupies. -/
structure Fresh (cal : Nat) (s : State) (r : Span) : Prop where
  pos         : 0 < r.base
  aligned     : r.base % pageSize = 0
  bound       : r.base + r.len < Unsigned.range
  cal         : r.Apart ⟨cal, sizeofCal⟩
  mchunks     : ∀ x ∈ s.mchunks, r.Apart (mchunkSpan x)
  outstanding : ∀ x ∈ s.outstanding, calChunkThresholdSize ≤ x.2 → r.Apart (blockSpan x)

instance (cal : Nat) (s : State) (r : Span) : Decidable (Fresh cal s r) :=
  decidable_of_iff
    (0 < r.base ∧ r.base % pageSize = 0 ∧ r.base + r.len < Unsigned.range ∧
      r.Apart ⟨cal, sizeofCal⟩ ∧ (∀ x ∈ s.mchunks, r.Apart (mchunkSpan x)) ∧
      ∀ x ∈ s.outstanding, calChunkThresholdSize ≤ x.2 → r.Apart (blockSpan x))
    ⟨fun ⟨h₁, h₂, h₃, h₄, h₅, h₆⟩ => ⟨h₁, h₂, h₃, h₄, h₅, h₆⟩,
      fun h => ⟨h.pos, h.aligned, h.bound, h.cal, h.mchunks, h.outstanding⟩⟩

/-- No page of an mchunk but the first starts like a header of the given order. -/
def NoImitation (s : State) (order : Nat) : Prop :=
  ∀ x ∈ s.mchunks, ∀ k < getTotalPagesByOrder x.2, 0 < k →
    isHeader s.mem order (x.1 + k * pageSize) = false

instance (s : State) (order : Nat) : Decidable (NoImitation s order) := by
  unfold NoImitation; infer_instance

/-- The calls of a correct client on a correct kernel: sizes are positive, regions are
fresh, what is put back is outstanding with its size and is not disguised as a header,
and words are stored in outstanding memory only. -/
def Allowed (cal : Nat) (s : State) : Action → Prop
  | .get size map => 0 < size ∧ ∀ b ∈ map, Fresh cal s ⟨b, mapSize size⟩
  | .put ptr size => (ptr, size) ∈ s.outstanding ∧ NoImitation s (getOrderBySize size)
  | .store a v => a % 4 = 0 ∧ v < Unsigned.range ∧
      ∃ x ∈ s.outstanding, x.1 ≤ a ∧ a + 4 ≤ x.1 + blockSize x.2

instance (cal : Nat) (s : State) (a : Action) : Decidable (Allowed cal s a) := by
  rcases a <;> dsimp only [Allowed]
  case put ptr size =>
    have : Decidable ((ptr, size) ∈ s.outstanding) := decidable_of_iff _ List.contains_iff_mem
    infer_instance
  all_goals infer_instance

/-- The allocator sits in memory of its own and has just been initialised. -/
structure Initial (cal : Nat) (s : State) : Prop where
  pos     : 0 < cal
  aligned : cal % 4 = 0
  bound   : cal + sizeofCal < Unsigned.range
  state   : ∃ m, s = initState m cal

end Ngpt.Alloc
