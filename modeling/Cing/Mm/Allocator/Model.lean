/-
mm_allocator.c: arena allocators over the kernel heap. An `mm_allocator_t` (`list` at 0, `next_free` at
8) owns a list of areas; an area is one heap allocation that starts with an `area_t` (`block` at 0,
`block_len` at 8, `use_len` at 16, `prev_area` at 24) and ends with a guard word that holds the
allocator. Requests are cut off the newest area. The `mm_allocator_t` objects themselves are carved
out of minimum heap blocks and recycled through `_free_alls`.
-/
import Cing.Mm.Heap.Model

namespace Cing

open Bytes

/-- The heap and the static variable of mm_allocator.c. -/
structure AllState (σ : Type) where
  heap : HeapState σ
  freeAlls : Nat

abbrev AllM (σ : Type) := EStateM Stop (AllState σ)

namespace Allocator

/-- `sizeof(mm_allocator_t)`. -/
def sizeofAllocator : Nat := 16
/-- `sizeof(area_t)`. -/
def sizeofArea : Nat := 32
/-- `sizeof(mm_allocator_t *)`. -/
def sizeofPtr : Nat := 8

/-! ## The fields of `mm_allocator_t` and `area_t` -/

def getList (m : Mem) (all : Nat) : Nat := load m all 8
def getNext (m : Mem) (all : Nat) : Nat := load m (all + 8) 8
def getBlock (m : Mem) (a : Nat) : Nat := load m a 8
def getBlockLen (m : Mem) (a : Nat) : Nat := load m (a + 8) 8
def getUseLen (m : Mem) (a : Nat) : Nat := load m (a + 16) 8
def getPrevArea (m : Mem) (a : Nat) : Nat := load m (a + 24) 8

/-- `_area_free_len`. -/
def areaFreeLen (m : Mem) (a : Nat) : Nat := u64Sub (getBlockLen m a) (getUseLen m a)
/-- `_area_block_end`. -/
def areaBlockEnd (m : Mem) (a : Nat) : Nat := u64 (getBlock m a + getBlockLen m a)

/-- What `mm_allocate` skips to align the start of the region. -/
def slopOf (start align : Nat) : Nat := if start % align > 0 then align - start % align else 0

section Code

variable {σ : Type} (dbg : Bool) (pg : Paging σ)

/-- Writes a pointer-sized word. -/
def poke (a v : Nat) : AllM σ Unit :=
  modify fun s => { s with heap := { s.heap with mem := store s.heap.mem a 8 v } }

/-- Calls into the heap. -/
def onHeap {α : Type} (x : HeapM σ α) : AllM σ α := Exec.zoom AllState.heap (fun h s => { s with heap := h }) x

/-- `mm_allocator_bootstrap`. -/
def mmAllocatorBootstrap : AllM σ Unit := modify fun s => { s with freeAlls := 0 }

/-- `_area_free_start`. -/
def areaFreeStart (a : Nat) : AllM σ Nat := do
  let s ← get
  kernelAssertD dbg (areaFreeLen s.heap.mem a > 0) "_area_free_len(a) > 0"
  return u64 (getBlock s.heap.mem a + getUseLen s.heap.mem a)

/-- `_allocator_init`. -/
def allocatorInit (all : Nat) : AllM σ Unit := poke all 0

/-- The loop of `mm_allocator_new`: carves the heap block into objects. The pointer moves on by
`sizeof(mm_allocator_t)` objects each time, so the loop has fewer rounds than the block has bytes. -/
def carveLoop (heap heapLen : Nat) : Nat → Nat → AllM σ Unit
  | 0, _ => throw .hang
  | fuel + 1, all =>
    if u64Sub (u64 (all + sizeofAllocator)) heap ≤ heapLen then do
      let s ← get
      poke (all + 8) s.freeAlls
      modify fun s => { s with freeAlls := all }
      let all ← mmAlignUp (u64 (all + sizeofAllocator * sizeofAllocator)) sizeofPtr
      carveLoop heap heapLen fuel all
    else
      return ()

/-- The end of `mm_allocator_new`: takes the first free object. -/
def takeFree (all : Nat) : AllM σ Nat := do
  kernelAssertD dbg (all ≠ 0) "all != NULL"
  modify fun s => { s with freeAlls := getNext s.heap.mem all }
  poke (all + 8) 0
  allocatorInit all
  return all

/-- `mm_allocator_new`. -/
def mmAllocatorNew : AllM σ Nat := do
  let s ← get
  if s.freeAlls = 0 then do
    let h ← onHeap (Heap.mmHeapAllocMinimum dbg pg)
    let all ← mmAlignUp h.1 sizeofPtr
    kernelAssertD dbg (u64Sub (u64 (all + sizeofAllocator)) h.1 ≤ h.2)
      "((uptr_t)all + sizeof(mm_allocator_t) - heap) <= heap_len"
    carveLoop h.1 h.2 (h.2 + 1) all
    let s ← get
    takeFree dbg s.freeAlls
  else
    takeFree dbg s.freeAlls

/-- `_allocator_new_area`. -/
def allocatorNewArea (all blockMin : Nat) : AllM σ Nat := do
  let h ← onHeap (Heap.mmHeapAlloc dbg pg (u64 (u64 (blockMin + sizeofArea) + sizeofPtr)))
  poke h.1 (u64 (h.1 + sizeofArea))
  let guard := u64Sub (u64 (h.1 + h.2)) sizeofPtr
  kernelAssert (mmAlignCheck guard sizeofPtr) "mm_align_check((uptr_t)guard, sizeof(mm_allocator_t *))"
  poke guard all
  let s ← get
  poke (h.1 + 8) (u64Sub guard (getBlock s.heap.mem h.1))
  let s ← get
  kernelAssert (getBlockLen s.heap.mem h.1 ≥ blockMin) "area->block_len >= block_min"
  poke (h.1 + 16) 0
  let s ← get
  poke (h.1 + 24) (getList s.heap.mem all)
  poke all h.1
  return h.1

/-- The end of `mm_allocate`: cuts the region off the area. -/
def cutRegion (area size align : Nat) : AllM σ Nat := do
  let ret ← areaFreeStart dbg area
  let need := u64 (size + slopOf ret align)
  let s ← get
  kernelAssertD dbg (areaFreeLen s.heap.mem area ≥ need) "_area_free_len(area) >= need"
  poke (area + 16) (u64 (getUseLen s.heap.mem area + need))
  let s ← get
  kernelAssertD dbg (getUseLen s.heap.mem area < getBlockLen s.heap.mem area) "area->use_len < area->block_len"
  kernelAssertD dbg (mmAlignCheck (u64 (ret + slopOf ret align)) align) "mm_align_check(ret, align)"
  return u64 (ret + slopOf ret align)

/-- The middle of `mm_allocate`: an area with room for the request, a new one if `area` has none. -/
def areaFor (all area size align : Nat) : AllM σ Nat := do
  let ret ← areaFreeStart dbg area
  let s ← get
  if areaFreeLen s.heap.mem area < u64 (size + slopOf ret align) then do
    let area ← allocatorNewArea dbg pg all (u64 (size + align))
    let s ← get
    kernelAssertD dbg (getList s.heap.mem all = area) "all->list == area"
    kernelAssertD dbg (areaFreeLen s.heap.mem area ≥ u64 (size + align)) "_area_free_len(area) >= need"
    return area
  else
    return area

/-- `mm_allocate`. -/
def mmAllocate (all size align : Nat) : AllM σ Nat := do
  let s ← get
  if getList s.heap.mem all = 0 then do
    let area ← allocatorNewArea dbg pg all (u64 (size + align))
    let s ← get
    kernelAssertD dbg (getList s.heap.mem all = area) "all->list == area"
    let area ← areaFor dbg pg all area size align
    cutRegion dbg area size align
  else do
    let area ← areaFor dbg pg all (getList s.heap.mem all) size align
    cutRegion dbg area size align

/-- The loop of `mm_allocator_free`. A list of more areas than the heap has pages is a cycle, on which
the loop never ends. -/
def freeAreasLoop (all : Nat) : Nat → Nat → AllM σ Unit
  | 0, _ => throw .hang
  | fuel + 1, a =>
    if a = 0 then
      return ()
    else do
      let s ← get
      let guard := areaBlockEnd s.heap.mem a
      kernelAssertD dbg (mmAlignCheck guard sizeofPtr) "mm_align_check((uptr_t)guard, sizeof(mm_allocator_t *))"
      kernelAssertD dbg (load s.heap.mem guard 8 = all) "(*guard) == all"
      onHeap (Heap.mmHeapFree dbg a)
      freeAreasLoop all fuel (getPrevArea s.heap.mem a)

/-- `mm_allocator_free`. -/
def mmAllocatorFree (all : Nat) : AllM σ Unit := do
  let s ← get
  freeAreasLoop dbg all ((s.heap.heapEnd - va48Heap) / pageSize4K + 1) (getList s.heap.mem all)
  poke all 0
  let s ← get
  poke (all + 8) s.freeAlls
  modify fun s => { s with freeAlls := all }

end Code

end Allocator

end Cing
