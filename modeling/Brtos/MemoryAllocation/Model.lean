import Brtos.Lib.Bytes
import Mathlib.Algebra.Group.Nat.Defs

/-!
# Brtos.MemoryAllocation.Model

The heap of `umm_malloc.c`, which `BRTOS_ALLOC` and `BRTOS_DEALLOC` are bound to.

`umm_heap` is an array of eight-byte blocks. The first two halfwords of a block, `header`, are
the numbers of the next and the previous block of the heap; the other four bytes, `body`, are
data or, in a block of the free list, the numbers of the next and the previous free block. The
heap is therefore a memory of bytes here, in which the four fields are halfwords; what a caller
stores in its data may be anything. An access outside `umm_heap` has no meaning (`none`), and
neither has a walk along the heap that does not end.

Pointers are offsets from `umm_heap`. Numbers are `Nat`, with `%` where an `unsigned short` or
a `size_t` cuts them off.
-/

namespace Brtos

/-- The algorithm that finds a free block: `UMM_FIRST_FIT` or `UMM_BEST_FIT`. -/
inductive UmmFit
  | first | best
  deriving DecidableEq, Repr

/-- One build of the allocator. -/
structure UmmConfig where
  /-- `UMM_MALLOC_CFG__HEAP_SIZE`, in bytes. -/
  heapSize : Nat
  /-- There is a block, and block numbers have 15 bits. -/
  numblocks_pos : 0 < heapSize / 8
  numblocks_le : heapSize / 8 ≤ 0x8000
  fit : UmmFit
  /-- Bits of `size_t`. -/
  sizeTBits : Nat
  endian : Endian

/-- `umm_numblocks`. -/
def UmmConfig.numblocks (uc : UmmConfig) : Nat := uc.heapSize / 8

/-- `UMM_FREELIST_MASK`. -/
def ummFreelistMask : Nat := 0x8000

/-- `UMM_BLOCKNO_MASK`. -/
def ummBlocknoMask : Nat := 0x7FFF

/-- The halfwords of an `umm_block`. -/
inductive UmmField
  | next | prev | freeNext | freePrev
  deriving DecidableEq, Repr

/-- `offsetof`. -/
def UmmField.offset : UmmField → Nat
  | next => 0
  | prev => 2
  | freeNext => 4
  | freePrev => 6

/-- `umm_heap`. -/
structure UmmHeap (uc : UmmConfig) where
  mem : Bytes

namespace UmmHeap

variable {uc : UmmConfig}

/-- The heap before anything has been allocated: zeros. -/
def init (uc : UmmConfig) : UmmHeap uc := ⟨fun _ => 0⟩

/-- A field of block `b`, without a check. -/
def get (h : UmmHeap uc) (f : UmmField) (b : Nat) : Nat := h.mem.load16 uc.endian (8 * b + f.offset)

/-- Writing one, without a check. -/
def set (h : UmmHeap uc) (f : UmmField) (b v : Nat) : UmmHeap uc :=
  ⟨h.mem.store16 uc.endian (8 * b + f.offset) v⟩

/-- Reading a field of `UMM_BLOCK(b)`. -/
def read (h : UmmHeap uc) (f : UmmField) (b : Nat) : Option Nat :=
  if b < uc.numblocks then some (h.get f b) else none

/-- Writing a field of `UMM_BLOCK(b)`. -/
def write (h : UmmHeap uc) (f : UmmField) (b v : Nat) : Option (UmmHeap uc) :=
  if b < uc.numblocks then some (h.set f b v) else none

/-- `UMM_NBLOCK(b)`. -/
def nblock (h : UmmHeap uc) (b : Nat) : Option Nat := h.read .next b

/-- `UMM_PBLOCK(b)`. -/
def pblock (h : UmmHeap uc) (b : Nat) : Option Nat := h.read .prev b

/-- `UMM_NFREE(b)`. -/
def nfree (h : UmmHeap uc) (b : Nat) : Option Nat := h.read .freeNext b

/-- `UMM_PFREE(b)`. -/
def pfree (h : UmmHeap uc) (b : Nat) : Option Nat := h.read .freePrev b

/-- `&UMM_DATA(b)`. -/
def data (b : Nat) : Nat := 8 * b + 4

theorem data_div (b : Nat) : data b / 8 = b := by
  unfold data
  omega

end UmmHeap

/-- `umm_blocks`: the number of blocks for `size` bytes, an `unsigned short`. -/
def ummBlocks (size : Nat) : Nat :=
  if size ≤ 4 then 1 else (2 + (size - (1 + 4)) / 8) % 65536

namespace UmmHeap

variable {uc : UmmConfig}

/-- `umm_make_new_block`. -/
def ummMakeNewBlock (h : UmmHeap uc) (c blocks freemask : Nat) : Option (UmmHeap uc) := do
  let h ← h.write .next (c + blocks) ((← h.nblock c) &&& ummBlocknoMask)
  let h ← h.write .prev (c + blocks) c
  let h ← h.write .prev ((← h.nblock c) &&& ummBlocknoMask) (c + blocks)
  h.write .next c ((c + blocks) ||| freemask)

/-- `umm_disconnect_from_free_list`. -/
def ummDisconnectFromFreeList (h : UmmHeap uc) (c : Nat) : Option (UmmHeap uc) := do
  let h ← h.write .freeNext (← h.pfree c) (← h.nfree c)
  let h ← h.write .freePrev (← h.nfree c) (← h.pfree c)
  -- of the halfword, `~UMM_FREELIST_MASK` keeps what `UMM_BLOCKNO_MASK` does
  h.write .next c ((← h.nblock c) &&& ummBlocknoMask)

/-- `umm_assimilate_up`. -/
def ummAssimilateUp (h : UmmHeap uc) (c : Nat) : Option (UmmHeap uc) := do
  if (← h.nblock (← h.nblock c)) &&& ummFreelistMask ≠ 0 then
    let h ← h.ummDisconnectFromFreeList (← h.nblock c)
    let h ← h.write .prev ((← h.nblock (← h.nblock c)) &&& ummBlocknoMask) c
    h.write .next c ((← h.nblock (← h.nblock c)) &&& ummBlocknoMask)
  else
    some h

/-- `umm_assimilate_down`, without the block number it returns, which nobody reads. -/
def ummAssimilateDown (h : UmmHeap uc) (c freemask : Nat) : Option (UmmHeap uc) := do
  let h ← h.write .next (← h.pblock c) ((← h.nblock c) ||| freemask)
  h.write .prev (← h.nblock c) (← h.pblock c)

/-- `umm_free`: the block is put at the head of the free list. -/
def pushFree (h : UmmHeap uc) (c : Nat) : Option (UmmHeap uc) := do
  let h ← h.write .freePrev (← h.nfree 0) c
  let h ← h.write .freeNext c (← h.nfree 0)
  let h ← h.write .freePrev c 0
  let h ← h.write .freeNext 0 c
  h.write .next c ((← h.nblock c) ||| ummFreelistMask)

/-- `umm_free`. -/
def ummFree (h : UmmHeap uc) : Option Nat → Option (UmmHeap uc)
  | none => some h
  | some ptr => do
    let c := ptr / 8 % 65536
    let h ← h.ummAssimilateUp c
    if (← h.nblock (← h.pblock c)) &&& ummFreelistMask ≠ 0 then
      h.ummAssimilateDown c ummFreelistMask
    else
      h.pushFree c

/-- What the search of `umm_malloc` has found so far. -/
structure Scan where
  cf : Nat
  blockSize : Nat
  bestBlock : Nat
  bestSize : Nat

/-- `(UMM_NBLOCK(cf) & UMM_BLOCKNO_MASK) - cf`, an `unsigned short`. -/
def blockSize (h : UmmHeap uc) (cf : Nat) : Option Nat := do
  return (((← h.nblock cf) &&& ummBlocknoMask) + 65536 - cf) % 65536

/-- The search of `umm_malloc`, by either algorithm. -/
def scan (h : UmmHeap uc) (blocks : Nat) : Nat → Scan → Option Scan
  | 0, _ => none
  | fuel + 1, x => do
    if (← h.nfree x.cf) ≠ 0 then
      let x := { x with blockSize := ← h.blockSize x.cf }
      match uc.fit with
      | .first =>
        if blocks ≤ x.blockSize then some x
        else scan h blocks fuel { x with cf := ← h.nfree x.cf }
      | .best =>
        let x :=
          if blocks ≤ x.blockSize ∧ x.blockSize < x.bestSize then
            { x with bestBlock := x.cf, bestSize := x.blockSize }
          else x
        scan h blocks fuel { x with cf := ← h.nfree x.cf }
    else
      some x

/-- `umm_malloc`: the block a request is served from, and its size. -/
def search (h : UmmHeap uc) (blocks : Nat) : Option (Nat × Nat) := do
  let cf ← h.nfree 0
  let x ← h.scan blocks uc.numblocks ⟨cf, 0, cf, 0x7FFF⟩
  if x.bestSize ≠ 0x7FFF then some (x.bestBlock, x.bestSize) else some (x.cf, x.blockSize)

/-- `memcpy(&UMM_BLOCK(d), &UMM_BLOCK(b), sizeof(umm_block))`. -/
def copyBlock (h : UmmHeap uc) (d b : Nat) : Option (UmmHeap uc) :=
  if d < uc.numblocks ∧ b < uc.numblocks then some ⟨h.mem.copy (8 * d) (8 * b) 8⟩ else none

/-- `umm_malloc`: a new block at the end of the heap. -/
def extend (h : UmmHeap uc) (cf blocks : Nat) : Option (UmmHeap uc) := do
  let h ← h.write .freeNext (← h.pfree cf) (cf + blocks)
  let h ← h.copyBlock (cf + blocks) cf
  let h ← h.write .next cf (cf + blocks)
  h.write .prev (cf + blocks) cf

/-- `umm_malloc`: the free list of a heap that has never been used. -/
def startList (h : UmmHeap uc) : Option (UmmHeap uc) := do
  let h ← h.write .next 0 1
  h.write .freeNext 0 1

/-- `umm_malloc`. -/
def ummMalloc (h : UmmHeap uc) (size : Nat) : Option (Option Nat × UmmHeap uc) := do
  if size = 0 then return (none, h)
  let blocks := ummBlocks size
  let (cf, blockSize) ← h.search blocks
  if (← h.nblock cf) &&& ummBlocknoMask ≠ 0 then
    if blockSize = blocks then
      return (some (data cf), ← h.ummDisconnectFromFreeList cf)
    else
      let rest := (blockSize + 65536 - blocks) % 65536
      let h ← h.ummMakeNewBlock cf rest ummFreelistMask
      return (some (data ((cf + rest) % 65536)), h)
  else if uc.numblocks ≤ cf + blocks + 1 then
    return (none, h)
  else if cf = 0 then
    let h ← h.startList
    return (some (data 1), ← h.extend 1 blocks)
  else
    return (some (data cf), ← h.extend cf blocks)

/-- `umm_calloc`. -/
def ummCalloc (h : UmmHeap uc) (num itemSize : Nat) : Option (Option Nat × UmmHeap uc) := do
  let size := itemSize * num % 2 ^ uc.sizeTBits
  match ← h.ummMalloc size with
  | (none, h) => return (none, h)
  | (some p, h) =>
    if p + size ≤ 8 * uc.numblocks then return (some p, ⟨h.mem.fill p size 0⟩) else none

end UmmHeap

/-- `UMM_HEAP_INFO`, without its prefix. -/
structure UmmHeapInfo where
  totalEntries : Nat
  usedEntries : Nat
  freeEntries : Nat
  totalBlocks : Nat
  usedBlocks : Nat
  freeBlocks : Nat
  deriving DecidableEq, Repr

/-- `memset(&heapInfo, 0, sizeof(heapInfo))`. -/
def UmmHeapInfo.zero : UmmHeapInfo := ⟨0, 0, 0, 0, 0, 0⟩

/-- A block of the size `n` is counted; the fields are `unsigned short`. -/
def UmmHeapInfo.count (i : UmmHeapInfo) (free : Bool) (n : Nat) : UmmHeapInfo :=
  let i := { i with
    totalEntries := (i.totalEntries + 1) % 65536
    totalBlocks := (i.totalBlocks + n) % 65536 }
  if free then
    { i with
      freeEntries := (i.freeEntries + 1) % 65536
      freeBlocks := (i.freeBlocks + n) % 65536 }
  else
    { i with
      usedEntries := (i.usedEntries + 1) % 65536
      usedBlocks := (i.usedBlocks + n) % 65536 }

namespace UmmHeap

variable {uc : UmmConfig}

/-- The loop of `umm_info`, from block `blockNo` on. -/
def infoFrom (h : UmmHeap uc) (ptr : Option Nat) : Nat → Nat → UmmHeapInfo →
    Option (UmmHeapInfo × Option Nat)
  | 0, _, _ => none
  | fuel + 1, blockNo, i => do
    let n := (← h.nblock blockNo) &&& ummBlocknoMask
    if n ≠ 0 then
      let free := (← h.nblock blockNo) &&& ummFreelistMask ≠ 0
      let i := i.count free (n + 65536 - blockNo)
      if free ∧ ptr = some (8 * blockNo) then some (i, ptr)
      else infoFrom h ptr fuel n i
    else
      some ({ i with
        freeBlocks := (i.freeBlocks + (uc.numblocks - blockNo)) % 65536
        totalBlocks := (i.totalBlocks + (uc.numblocks - blockNo)) % 65536 }, none)

/-- `umm_info`, with the `heapInfo` it leaves. -/
def ummInfo (h : UmmHeap uc) (ptr : Option Nat) : Option (UmmHeapInfo × Option Nat) := do
  let blockNo := (← h.nblock 0) &&& ummBlocknoMask
  h.infoFrom ptr uc.numblocks blockNo .zero

/-- `OSGetUsedHeapSize`. -/
def osGetUsedHeapSize (h : UmmHeap uc) : Option Nat := do
  return (← h.ummInfo none).1.usedBlocks * 8

/-- `OSGetFreeHeapSize`. -/
def osGetFreeHeapSize (h : UmmHeap uc) : Option Nat := do
  return (← h.ummInfo none).1.freeBlocks * 8

end UmmHeap

end Brtos
