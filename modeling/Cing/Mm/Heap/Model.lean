/-
mm_heap.c: the kernel heap, a binary buddy allocator whose block headers and free-list links live in
the heap itself. Memory is a map from virtual addresses to bytes; the header of a block is the
`block_t` at its start, laid out as the compiler does (`class` at 0, `is_free` at 1, `next_free` at
8, `magic` at 16, 24 bytes in all). Pages are obtained from the frame and page modules, which are a
parameter here.
-/
import Cing.Lib.Bytes
import Cing.Mm.Base

namespace Cing

open Bytes

/-- The two services of the lower memory layers the heap uses, on their own state. -/
structure Paging (σ : Type) where
  /-- `mm_frame_alloc`: a frame, or none when it returns false. -/
  mmFrameAlloc : EStateM Stop σ (Option Nat)
  /-- `mm_page_map`. -/
  mmPageMap : Nat → Nat → EStateM Stop σ Bool

/-- The static variables of mm_heap.c, with the memory and the state of the lower layers. The memory is flat, as it is where the
pages of the heap are mapped: an access to one that is not would fault. `Backing` is about when they are. -/
structure HeapState (σ : Type) where
  mem : Mem
  freeList : Nat → Nat
  heapEnd : Nat
  pg : σ

abbrev HeapM (σ : Type) := EStateM Stop (HeapState σ)

namespace Heap

def blockMaxClass : Nat := 16
/-- `sizeof(block_t)`. -/
def sizeofBlock : Nat := 24
def blockMagic : Nat := 0xBABEFACE

/-! ## The fields of `block_t` -/

def getClass (m : Mem) (b : Nat) : Nat := (m b).toNat
def getIsFree (m : Mem) (b : Nat) : Bool := m (b + 1) ≠ 0
def getNextFree (m : Mem) (b : Nat) : Nat := load m (b + 8) 8
def getMagic (m : Mem) (b : Nat) : Nat := load m (b + 16) 4

def setClass (m : Mem) (b c : Nat) : Mem := put m b (UInt8.ofNat c)
def setIsFree (m : Mem) (b : Nat) (f : Bool) : Mem := put m (b + 1) (if f then 1 else 0)
def setNextFree (m : Mem) (b n : Nat) : Mem := store m (b + 8) 8 n
def setMagic (m : Mem) (b v : Nat) : Mem := store m (b + 16) 4 v

section Code

variable {σ : Type} (dbg : Bool) (pg : Paging σ)

/-- `_size_of_class`. -/
def sizeOfClass (cls : Nat) : HeapM σ Nat := do
  kernelAssertD dbg (cls < blockMaxClass) "class < _BLOCK_MAX_CLASS"
  return u64 (utilMath2Exp cls * pageSize4K)

/-- `_block_init`. -/
def blockInit (block cls : Nat) (free : Bool) (next : Nat) : HeapM σ Unit := do
  kernelAssertD dbg (mmAlignCheck block pageSize4K) "mm_align_check((uptr_t)block, PAGE_SIZE_VALUE_4K)"
  modify fun s => { s with
    mem := setMagic (setNextFree (setIsFree (setClass s.mem block cls) block free) block next) block blockMagic }

/-- `_block_validate`. -/
def blockValidate (block : Nat) : HeapM σ Unit := do
  kernelAssertD dbg (mmAlignCheck block pageSize4K) "mm_align_check((uptr_t)block, PAGE_SIZE_VALUE_4K)"
  let s ← get
  kernelAssertD dbg (getMagic s.mem block = blockMagic) "block->magic == 0xBABEFACE"

/-- `_block_check_out`: the payload address and its length. -/
def blockCheckOut (block : Nat) : HeapM σ (Nat × Nat) := do
  kernelAssertD dbg (mmAlignCheck block pageSize4K) "mm_align_check((uptr_t)block, PAGE_SIZE_VALUE_4K)"
  let s ← get
  kernelAssertD dbg (getClass s.mem block < blockMaxClass) "block->class < _BLOCK_MAX_CLASS"
  kernelAssertD dbg (getIsFree s.mem block = true) "block->is_free == true"
  set { s with mem := setIsFree s.mem block false }
  let len ← sizeOfClass dbg (getClass s.mem block)
  return (u64 (block + sizeofBlock), u64Sub len sizeofBlock)

/-- `_block_check_in`. -/
def blockCheckIn (blockUser : Nat) : HeapM σ Nat := do
  let block := u64Sub blockUser sizeofBlock
  blockValidate dbg block
  let s ← get
  kernelAssertD dbg (getIsFree s.mem block = false) "block->is_free == false"
  set { s with mem := setIsFree s.mem block true }
  return block

/-- The choice of `_block_find_buddy`: the offset of the buddy inside the block both were cut from. -/
def buddyOffs (blkOffs blkSize : Nat) : HeapM σ Nat :=
  if mmAlignCheck (u64Sub blkOffs blkSize) (u64 (blkSize * 2)) then
    return u64Sub blkOffs blkSize
  else do
    kernelAssertD dbg (mmAlignCheck blkOffs (u64 (blkSize * 2))) "mm_align_check(blk_offs, blk_size * 2)"
    return u64 (blkOffs + blkSize)

/-- `_block_find_buddy`. -/
def blockFindBuddy (blk : Nat) : HeapM σ Nat := do
  kernelAssertD dbg (mmAlignCheck blk pageSize4K) "mm_align_check((uptr_t)blk, PAGE_SIZE_VALUE_4K)"
  let s ← get
  kernelAssertD dbg (getClass s.mem blk < blockMaxClass) "class < _BLOCK_MAX_CLASS"
  let blkSize ← sizeOfClass dbg (getClass s.mem blk)
  let maxSize ← sizeOfClass dbg (blockMaxClass - 1)
  let blkBase ← mmAlignDown (u64Sub blk va48Heap) maxSize
  let blkOffs := u64Sub (u64Sub blk va48Heap) blkBase
  kernelAssertD dbg (mmAlignCheck blkOffs blkSize) "mm_align_check(blk_offs, blk_size)"
  let buddyAddr ← buddyOffs dbg blkOffs blkSize
  let buddyBlock := u64 (u64 (buddyAddr + blkBase) + va48Heap)
  blockValidate dbg buddyBlock
  kernelAssertD dbg (getClass s.mem buddyBlock ≤ getClass s.mem blk) "(buddy_block->class) <= (blk->class)"
  return buddyBlock

/-- `_free_list_dequeue`: the first block of the list, 0 if it is empty. -/
def freeListDequeue (cls : Nat) : HeapM σ Nat := do
  kernelAssertD dbg (cls < blockMaxClass) "class < _BLOCK_MAX_CLASS"
  let s ← get
  let blk := s.freeList cls
  if blk = 0 then
    return blk
  else do
    blockValidate dbg blk
    kernelAssertD dbg (getClass s.mem blk = cls) "blk->class == class"
    set { s with freeList := Function.update s.freeList cls (getNextFree s.mem blk) }
    return blk

/-- The loop of `_free_list_dequeue_block`; whether the block was found. A list longer than the heap
has pages is a cycle, on which the loop never ends. -/
def dequeueBlockLoop (block : Nat) : Nat → Nat → HeapM σ Bool
  | 0, _ => throw .hang
  | fuel + 1, free => do
    let s ← get
    if free = 0 then
      return false
    else if free = block then do
      kernelAssertD dbg (free = s.freeList (getClass s.mem block)) "free == _free_list[block->class]"
      set { s with freeList := Function.update s.freeList (getClass s.mem block) (getNextFree s.mem block) }
      return true
    else if getNextFree s.mem free = block then do
      set { s with mem := setNextFree s.mem free (getNextFree s.mem block) }
      return true
    else
      dequeueBlockLoop block fuel (getNextFree s.mem free)

/-- `_free_list_dequeue_block`. -/
def freeListDequeueBlock (block : Nat) : HeapM σ Unit := do
  blockValidate dbg block
  let s ← get
  let found ← dequeueBlockLoop dbg block ((s.heapEnd - va48Heap) / pageSize4K + 1)
    (s.freeList (getClass s.mem block))
  kernelAssertD dbg (found = true) "found == true"

/-- `_free_list_is_empty`. -/
def freeListIsEmpty (cls : Nat) : HeapM σ Bool := do
  kernelAssertD dbg (cls < blockMaxClass) "class < _BLOCK_MAX_CLASS"
  let s ← get
  return s.freeList cls = 0

/-- `_free_list_enqueue`. -/
def freeListEnqueue (free cls : Nat) : HeapM σ Unit := do
  kernelAssertD dbg (cls < blockMaxClass) "class < _BLOCK_MAX_CLASS"
  let s ← get
  blockInit dbg free cls true (s.freeList cls)
  modify fun s => { s with freeList := Function.update s.freeList cls free }
  let s ← get
  kernelAssertD dbg (getClass s.mem free = cls) "free->class == class"

/-- The loop of `_expand_heap`: one frame for each of the next `n` pages, from the offset `heapAdd` on. -/
def expandHeapLoop (heapEnd : Nat) : Nat → Nat → EStateM Stop σ Unit
  | 0, _ => pure ()
  | n + 1, heapAdd => do
    let frame ← pg.mmFrameAlloc
    kernelAssertD dbg (frame.isSome = true) "ok"
    kernelAssertD dbg (frame.getD 0 ≠ 0) "frame_pa != UPTR_NULL"
    let ok ← pg.mmPageMap (u64 (heapEnd + heapAdd)) (frame.getD 0)
    kernelAssertD dbg (ok = true) "ok == true"
    expandHeapLoop heapEnd n (heapAdd + pageSize4K)

/-- `_expand_heap`. -/
def expandHeap : HeapM σ Bool := do
  let size ← sizeOfClass dbg (blockMaxClass - 1)
  kernelAssertD dbg (size > 0) "size > 0"
  kernelAssertD dbg (size % pageSize4K = 0) "(size % PAGE_SIZE_VALUE_4K) == 0"
  let isEmpty ← freeListIsEmpty dbg (blockMaxClass - 1)
  kernelAssertD dbg (isEmpty = true) "_free_list_is_empty(_BLOCK_MAX_CLASS - 1)"
  let s ← get
  Exec.zoom HeapState.pg (fun p s => { s with pg := p })
    (expandHeapLoop dbg pg s.heapEnd (size / pageSize4K) 0)
  freeListEnqueue dbg s.heapEnd (blockMaxClass - 1)
  modify fun s => { s with heapEnd := u64 (s.heapEnd + size) }
  return true

/-- The end of `_split_from`: the two halves of `free` go on the list of the class below. -/
def splitBlock (cls free : Nat) : HeapM σ Unit := do
  let nextSize ← sizeOfClass dbg (cls - 1)
  kernelAssertD dbg (free ≠ 0) "free != NULL"
  let s ← get
  kernelAssertD dbg (getClass s.mem free = cls) "(free->class) == class"
  kernelAssertD dbg (s.freeList (cls - 1) = 0) "_free_list[class - 1] == NULL"
  freeListEnqueue dbg free (cls - 1)
  freeListEnqueue dbg (u64 (free + nextSize)) (cls - 1)

/-- `_split_from`. Each recursive call is for the next class, so it never goes deeper than the
number of classes. -/
def splitFrom : Nat → Nat → HeapM σ Bool
  | 0, _ => throw .hang
  | fuel + 1, cls => do
    kernelAssertD dbg (cls < blockMaxClass) "class < _BLOCK_MAX_CLASS"
    kernelAssertD dbg (cls > 0) "class > 0"
    let free ← freeListDequeue dbg cls
    if free = 0 then
      if cls + 1 < blockMaxClass then do
        let succ ← splitFrom fuel (cls + 1)
        if succ then do
          let free ← freeListDequeue dbg cls
          kernelAssertD dbg (free ≠ 0) "free != NULL"
          splitBlock dbg cls free
          return true
        else
          return false
      else do
        kernelAssertD dbg (cls = blockMaxClass - 1) "class == (_BLOCK_MAX_CLASS - 1)"
        let succ ← expandHeap dbg pg
        kernelAssert (succ = true) "succ"
        let free ← freeListDequeue dbg cls
        kernelAssertD dbg (free ≠ 0) "free != NULL"
        splitBlock dbg cls free
        return true
    else do
      splitBlock dbg cls free
      return true

/-- `_coalescing_block`. Each recursive call is for a block of the next class, so it never goes
deeper than the number of classes. -/
def coalescingBlock : Nat → Nat → HeapM σ Nat
  | 0, _ => throw .hang
  | fuel + 1, block => do
    blockValidate dbg block
    let s ← get
    if getClass s.mem block < blockMaxClass - 1 then do
      let buddy ← blockFindBuddy dbg block
      if getClass s.mem buddy = getClass s.mem block ∧ getIsFree s.mem buddy = true then do
        freeListDequeueBlock dbg buddy
        -- the header of the upper half is wiped
        let upper := if buddy < block then block else buddy
        let lower := if buddy < block then buddy else block
        modify fun s => { s with mem := fill s.mem upper 0 sizeofBlock }
        let s ← get
        blockInit dbg lower ((getClass s.mem lower + 1) % 256) true 0
        coalescingBlock fuel lower
      else
        return block
    else
      return block

/-- The tail of `mm_heap_alloc` once a block was dequeued. -/
def allocCheckOut (len freeClass free : Nat) : HeapM σ (Nat × Nat) := do
  let s ← get
  kernelAssertD dbg (getClass s.mem free = freeClass) "free->class == free_class"
  kernelAssertD dbg (free ≠ 0) "free != NULL"
  let r ← blockCheckOut dbg free
  kernelAssertD dbg (r.2 ≥ len) "(*all_len) >= len"
  return r

/-- The class `mm_heap_alloc` looks for. -/
def freeClassOf (len : Nat) : Nat :=
  let c := utilMathLog2Up (u64 (len + sizeofBlock)) % 256
  if c ≤ pageSizeLog4K then 0 else c - pageSizeLog4K

/-- `mm_heap_alloc`: the payload address (0 for `NULL`) and `all_len`. -/
def mmHeapAlloc (len : Nat) : HeapM σ (Nat × Nat) := do
  kernelAssertD dbg (len > 0) "len > 0"
  let size ← sizeOfClass dbg (blockMaxClass - 1)
  kernelAssert (u64 (len + sizeofBlock) ≤ size)
    "(len + sizeof(block_t)) <= _size_of_class(_BLOCK_MAX_CLASS - 1)"
  let freeClass := freeClassOf len
  kernelAssert (freeClass < blockMaxClass) "free_class < _BLOCK_MAX_CLASS"
  let free ← freeListDequeue dbg freeClass
  if free = 0 then
    if freeClass < blockMaxClass - 1 then do
      let ok ← splitFrom dbg pg blockMaxClass (freeClass + 1)
      if ok then do
        let free ← freeListDequeue dbg freeClass
        kernelAssertD dbg (free ≠ 0) "free != NULL"
        allocCheckOut dbg len freeClass free
      else
        return (0, 0)
    else do
      let ok ← expandHeap dbg pg
      kernelAssert (ok = true) "ok"
      let free ← freeListDequeue dbg freeClass
      kernelAssert (free ≠ 0) "free != NULL"
      allocCheckOut dbg len freeClass free
  else
    allocCheckOut dbg len freeClass free

/-- `mm_heap_alloc_minimum`. -/
def mmHeapAllocMinimum : HeapM σ (Nat × Nat) := mmHeapAlloc dbg pg 1

/-- `mm_heap_free`. -/
def mmHeapFree (blockUser : Nat) : HeapM σ Unit := do
  let block ← blockCheckIn dbg blockUser
  let block ← coalescingBlock dbg blockMaxClass block
  let s ← get
  freeListEnqueue dbg block (getClass s.mem block)

/-- `mm_heap_bootstrap`. -/
def mmHeapBootstrap : HeapM σ Unit :=
  modify fun s => { s with
    freeList := fun i => if i < blockMaxClass then 0 else s.freeList i, heapEnd := va48Heap }

end Code

end Heap

end Cing
